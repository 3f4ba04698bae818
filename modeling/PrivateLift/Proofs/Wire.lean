import PrivateLift.Bytes.Lemmas
import PrivateLift.Proofs.BitMatrix.Storage
import PrivateLift.Proofs.Fault
import PrivateLift.Wire.Message

/-!
# Messages are read as they were sent

The codec of every kind of message is faithful on the contents whose sizes can be counted in 64 bits
and whose matrices are well-formed (`MessageKind.codec_faithful`). It is built from the codecs of
the parts by one lemma for each combinator.
-/

namespace PrivateLift

namespace Codec

variable {α β : Type} {valid : α → Prop}

theorem fixed_faithful (width : Nat) : (fixed width).Faithful (· < 256 ^ width) := by
  intro n hn rest
  have htake : (Bytes.ofNat width n ++ rest).take width = Bytes.ofNat width n := by
    rw [List.take_append_of_le_length (Bytes.length_ofNat width n).ge,
      List.take_of_length_le (Bytes.length_ofNat width n).le]
  have hdrop : (Bytes.ofNat width n ++ rest).drop width = rest := by
    rw [List.drop_append_of_le_length (Bytes.length_ofNat width n).ge,
      List.drop_of_length_le (Bytes.length_ofNat width n).le, List.nil_append]
  simp only [fixed, htake, hdrop, Bytes.length_ofNat, lt_irrefl, if_false, Bytes.toNat_ofNat,
    Nat.mod_eq_of_lt hn]

theorem count_faithful : count.Faithful (· < UInt64.size) := fixed_faithful 8

theorem Faithful.mono {c : Codec α} (h : c.Faithful valid) {valid' : α → Prop}
    (hvalid : ∀ a, valid' a → valid a) : c.Faithful valid' :=
  fun a ha rest => h a (hvalid a ha) rest

theorem Faithful.map {c : Codec α} (h : c.Faithful valid) {build : α → β} {parts : β → α}
    (hbuild : ∀ b, build (parts b) = b) :
    (c.map build parts).Faithful fun b => valid (parts b) := by
  intro b hb rest
  simp only [Codec.map, h (parts b) hb rest, Except.map, hbuild]

theorem uint8_faithful : uint8.Faithful fun _ => True :=
  ((fixed_faithful 1).map fun _ => UInt8.ofNat_toNat).mono fun b _ => b.toNat_lt

theorem uint32_faithful : uint32.Faithful fun _ => True :=
  ((fixed_faithful 4).map fun _ => UInt32.ofNat_toNat).mono fun n _ => n.toNat_lt

theorem int32_faithful : int32.Faithful fun _ => True :=
  uint32_faithful.map Int32.toInt32_toUInt32

theorem pair_faithful {c : Codec α} {d : Codec β} {valid' : β → Prop} (hc : c.Faithful valid)
    (hd : d.Faithful valid') : (pair c d).Faithful fun p => valid p.1 ∧ valid' p.2 := by
  intro p hp rest
  simp only [pair, List.append_assoc, hc p.1 hp.1, hd p.2 hp.2, bind, Except.bind]
  rfl

theorem decodeMany_ok {c : Codec α} (hc : c.Faithful valid) {l : List α} (hl : ∀ a ∈ l, valid a)
    (rest : Bytes) : c.decodeMany l.length (l.flatMap c.encode ++ rest) = .ok (l, rest) := by
  induction l with
  | nil => rfl
  | cons a l ih =>
    have htail := ih fun b hb => hl b (List.mem_cons_of_mem a hb)
    simp only [List.length_cons, decodeMany, List.flatMap_cons, List.append_assoc,
      hc a (hl a List.mem_cons_self), htail, bind, Except.bind]
    rfl

theorem list_faithful {c : Codec α} (hc : c.Faithful valid) :
    (list c).Faithful fun l => l.length < UInt64.size ∧ ∀ a ∈ l, valid a := by
  intro l hl rest
  simp only [list, List.append_assoc, count_faithful l.length hl.1, decodeMany_ok hc hl.2, bind,
    Except.bind]

theorem option_faithful {c : Codec α} (hc : c.Faithful valid) :
    (option c).Faithful fun o => ∀ a, o = some a → valid a := by
  intro o ho rest
  cases o with
  | none =>
    simp only [option, fixed_faithful 1 0 (by decide) rest, bind, Except.bind, if_true]
    rfl
  | some a =>
    simp only [option, List.append_assoc, fixed_faithful 1 1 (by decide), hc a (ho a rfl), bind,
      Except.bind, Nat.one_ne_zero, if_false, if_true]
    rfl

end Codec

open Codec

theorem BitMatrix.codec_faithful :
    BitMatrix.codec.Faithful fun m => m.WellFormed ∧ Storable m.rows m.cols := by
  intro m hm rest
  obtain ⟨hwf, hs⟩ := hm
  have hrows : m.rows < UInt64.size := hs.rows_lt
  have hcols : m.cols < UInt64.size := (storable_comm hs).rows_lt
  have hdata : m.data.length < UInt64.size := by
    rw [hwf.length_data, storageSize]
    exact Nat.lt_of_le_of_lt (Nat.div_le_self _ _) hs
  have hparts := pair_faithful count_faithful
    (pair_faithful count_faithful (list_faithful uint8_faithful)) (m.rows, m.cols, m.data)
    ⟨hrows, hcols, hdata, fun _ _ => trivial⟩ rest
  simp only [BitMatrix.codec, refine, hparts, ofStorage_ok hwf hs, bind, Except.bind]
  rfl

theorem RowShares.codec_faithful : RowShares.codec.Faithful fun m =>
    m.bits.WellFormed ∧ BitMatrix.Storable m.rowBits m.batchSize :=
  BitMatrix.codec_faithful.map fun _ => rfl

namespace MessageKind

/-- The sizes in the content can be counted in 64 bits, and a matrix in it is well-formed. -/
def Sendable : (kind : MessageKind) → kind.Payload → Prop
  | unionMap, map | intersectionMap, map => map.length < UInt64.size
  | rowCount, _ | rowCountShare, _ => True
  | ownRows, (rows, outputSize) =>
    (rows.length < UInt64.size ∧ ∀ row ∈ rows, row.length < UInt64.size) ∧
      outputSize < UInt64.size
  | peerRows, (_, map, width) => map.length < UInt64.size ∧ width < UInt64.size
  | rowShares, m => m.bits.WellFormed ∧ BitMatrix.Storable m.rowBits m.batchSize

theorem codec_faithful (kind : MessageKind) : kind.codec.Faithful kind.Sendable := by
  have hmap : (list int32).Faithful fun map => map.length < UInt64.size :=
    (list_faithful int32_faithful).mono fun map h => ⟨h, fun _ _ => trivial⟩
  cases kind with
  | unionMap | intersectionMap => exact hmap
  | rowCount => exact (option_faithful uint32_faithful).mono fun _ _ _ _ => trivial
  | rowCountShare => exact uint32_faithful
  | ownRows =>
    refine (pair_faithful (list_faithful (list_faithful uint8_faithful)) count_faithful).mono ?_
    rintro ⟨rows, size⟩ ⟨⟨hlen, hrows⟩, hsize⟩
    exact ⟨⟨hlen, fun row hrow => ⟨hrows row hrow, fun _ _ => trivial⟩⟩, hsize⟩
  | peerRows =>
    refine (pair_faithful uint32_faithful (pair_faithful hmap count_faithful)).mono ?_
    rintro ⟨share, map, width⟩ ⟨hlen, hwidth⟩
    exact ⟨trivial, hlen, hwidth⟩
  | rowShares => exact RowShares.codec_faithful

theorem read_encode {kind : MessageKind} {payload : kind.Payload} (h : kind.Sendable payload) :
    kind.codec.read (kind.codec.encode payload) = .ok payload :=
  (codec_faithful kind).read_encode h

end MessageKind

/-! ## Messages with their kinds -/

/-- A message with its kind. -/
abbrev Message := (kind : MessageKind) × kind.Payload

namespace Message

/-- The bytes by which a message is sent. -/
def encode (m : Message) : Bytes := m.1.codec.encode m.2

/-- The message can be sent. -/
def Sendable (m : Message) : Prop := m.1.Sendable m.2

end Message

end PrivateLift
