import PrivateLift.Proofs.Wire

/-!
# Messages and their bytes

A codec is canonical if only the writing of a value is read as that value (`Codec.Canonical`), the
converse of being faithful; there is again one lemma for each combinator. For a bit matrix it is the
check of the storage that makes the code canonical. `MessageKind.written` spells out the layout of
every kind of message, and `MessageKind.read_exactly_written` says that a receiver gets a content
from precisely the byte strings that begin with its layout.
-/

namespace PrivateLift

namespace Codec

variable {α β : Type} {valid : α → Prop} {valid' : β → Prop}

/-- Whatever is read is a valid value, and its writing is what has been taken from the front. -/
def Canonical (c : Codec α) (valid : α → Prop) : Prop :=
  ∀ bytes a rest, c.decode bytes = .ok (a, rest) → valid a ∧ bytes = c.encode a ++ rest

theorem fixed_canonical (width : Nat) : (fixed width).Canonical (· < 256 ^ width) := by
  intro bytes n rest h
  simp only [fixed] at h
  split at h
  · cases h
  next hlen =>
    obtain ⟨rfl, rfl⟩ := Prod.mk.inj (Except.ok.inj h)
    have hwidth : (bytes.take width).length = width := by
      rw [List.length_take] at hlen ⊢
      omega
    have hlt := Bytes.toNat_lt (bytes.take width)
    have hback := Bytes.ofNat_toNat (bytes.take width)
    rw [hwidth] at hlt hback
    refine ⟨hlt, ?_⟩
    change bytes = Bytes.ofNat width _ ++ _
    rw [hback, List.take_append_drop]

theorem Canonical.map {c : Codec α} (h : c.Canonical valid) {build : α → β} {parts : β → α}
    (hparts : ∀ a, valid a → parts (build a) = a) :
    (c.map build parts).Canonical fun b => valid (parts b) := by
  intro bytes b rest hb
  simp only [Codec.map] at hb ⊢
  cases hdecode : c.decode bytes with
  | error e =>
    rw [hdecode] at hb
    cases hb
  | ok read =>
    rw [hdecode] at hb
    obtain ⟨rfl, rfl⟩ := Prod.mk.inj (Except.ok.inj hb)
    obtain ⟨hvalid, hbytes⟩ := h bytes _ _ hdecode
    rw [hparts _ hvalid]
    exact ⟨hvalid, hbytes⟩

theorem Canonical.refine {c : Codec α} (h : c.Canonical valid) {build : α → Except Malformed β}
    {parts : β → α} (hbuild : ∀ a b, build a = .ok b → valid' b ∧ parts b = a) :
    (c.refine build parts).Canonical valid' := by
  intro bytes b rest hb
  obtain ⟨⟨a, rest'⟩, hdecode, hrest⟩ := bind_eq_ok.1 hb
  obtain ⟨b', hb', hpair⟩ := bind_eq_ok.1 hrest
  obtain ⟨rfl, rfl⟩ := Prod.mk.inj (Except.ok.inj hpair)
  obtain ⟨hvalid, rfl⟩ := hbuild a b' hb'
  exact ⟨hvalid, (h bytes _ _ hdecode).2⟩

theorem Canonical.mono {c : Codec α} (h : c.Canonical valid) {valid' : α → Prop}
    (hvalid : ∀ a, valid a → valid' a) : c.Canonical valid' :=
  fun bytes a rest ha => (h bytes a rest ha).imp_left (hvalid a)

theorem uint8_canonical : uint8.Canonical fun _ => True :=
  ((fixed_canonical 1).map fun _ hn => UInt8.toNat_ofNat_of_lt' hn).mono fun _ _ => trivial

theorem uint32_canonical : uint32.Canonical fun _ => True :=
  ((fixed_canonical 4).map fun _ hn => UInt32.toNat_ofNat_of_lt' hn).mono fun _ _ => trivial

theorem int32_canonical : int32.Canonical fun _ => True :=
  (uint32_canonical.map fun n _ => UInt32.toUInt32_toInt32 n).mono fun _ _ => trivial

theorem pair_canonical {c : Codec α} {d : Codec β} (hc : c.Canonical valid)
    (hd : d.Canonical valid') : (pair c d).Canonical fun p => valid p.1 ∧ valid' p.2 := by
  intro bytes p rest hp
  obtain ⟨⟨a, bytes'⟩, ha, hrest⟩ := bind_eq_ok.1 hp
  obtain ⟨⟨b, bytes''⟩, hb, hpair⟩ := bind_eq_ok.1 hrest
  obtain ⟨rfl, rfl⟩ := Prod.mk.inj (Except.ok.inj hpair)
  obtain ⟨hvalid, rfl⟩ := hc bytes a bytes' ha
  obtain ⟨hvalid', rfl⟩ := hd bytes' b bytes'' hb
  exact ⟨⟨hvalid, hvalid'⟩, (List.append_assoc _ _ _).symm⟩

theorem decodeMany_inv {c : Codec α} (hc : c.Canonical valid) (n : Nat) {bytes rest : Bytes}
    {l : List α} (h : c.decodeMany n bytes = .ok (l, rest)) :
    l.length = n ∧ (∀ a ∈ l, valid a) ∧ bytes = l.flatMap c.encode ++ rest := by
  induction n generalizing bytes l with
  | zero =>
    obtain ⟨rfl, rfl⟩ := Prod.mk.inj (Except.ok.inj h)
    exact ⟨rfl, fun _ ha => absurd ha List.not_mem_nil, rfl⟩
  | succ n ih =>
    obtain ⟨⟨a, bytes'⟩, ha, htail⟩ := bind_eq_ok.1 h
    obtain ⟨⟨l', bytes''⟩, hl', hcons⟩ := bind_eq_ok.1 htail
    obtain ⟨rfl, rfl⟩ := Prod.mk.inj (Except.ok.inj hcons)
    obtain ⟨hvalid, rfl⟩ := hc bytes a bytes' ha
    obtain ⟨hlen, hvalid', rfl⟩ := ih hl'
    refine ⟨congrArg Nat.succ hlen, List.forall_mem_cons.2 ⟨hvalid, hvalid'⟩, ?_⟩
    rw [List.flatMap_cons, List.append_assoc]

theorem list_canonical {c : Codec α} (hc : c.Canonical valid) :
    (list c).Canonical fun l => l.length < UInt64.size ∧ ∀ a ∈ l, valid a := by
  intro bytes l rest hl
  obtain ⟨⟨n, bytes'⟩, hn, hmany⟩ := bind_eq_ok.1 hl
  obtain ⟨hlt, rfl⟩ := fixed_canonical 8 bytes n bytes' hn
  obtain ⟨rfl, hvalid, rfl⟩ := decodeMany_inv hc n hmany
  exact ⟨⟨hlt, hvalid⟩, (List.append_assoc _ _ _).symm⟩

theorem option_canonical {c : Codec α} (hc : c.Canonical valid) :
    (option c).Canonical fun o => ∀ a, o = some a → valid a := by
  intro bytes o rest ho
  obtain ⟨⟨tag, bytes'⟩, htag, hcontent⟩ := bind_eq_ok.1 ho
  obtain ⟨-, rfl⟩ := fixed_canonical 1 bytes tag bytes' htag
  simp only at hcontent
  split at hcontent
  next hzero =>
    obtain ⟨rfl, rfl⟩ := Prod.mk.inj (Except.ok.inj hcontent)
    refine ⟨fun a ha => ?_, congrArg (fun tag => (fixed 1).encode tag ++ bytes') hzero⟩
    cases ha
  split at hcontent
  next hone =>
    obtain ⟨⟨a, bytes''⟩, ha, hsome⟩ := bind_eq_ok.1 hcontent
    obtain ⟨rfl, rfl⟩ := Prod.mk.inj (Except.ok.inj hsome)
    obtain ⟨hvalid, rfl⟩ := hc bytes' a bytes'' ha
    refine ⟨fun b hb => Option.some.inj hb ▸ hvalid, ?_⟩
    rw [hone, ← List.append_assoc]
    rfl
  · cases hcontent

/-- A code that is faithful and canonical on the same values reads a value from precisely the byte
strings that begin with its writing. -/
theorem read_eq_ok_iff {c : Codec α} (hf : c.Faithful valid) (hc : c.Canonical valid)
    {bytes : Bytes} {a : α} : c.read bytes = .ok a ↔ valid a ∧ c.encode a <+: bytes := by
  constructor
  · intro h
    cases hdecode : c.decode bytes with
    | error e =>
      rw [read, hdecode] at h
      cases h
    | ok p =>
      rw [read, hdecode] at h
      obtain rfl := Except.ok.inj h
      obtain ⟨hvalid, hbytes⟩ := hc bytes p.1 p.2 hdecode
      exact ⟨hvalid, p.2, hbytes.symm⟩
  · rintro ⟨hvalid, rest, rfl⟩
    rw [read, hf a hvalid rest]
    rfl

end Codec

open Codec

theorem BitMatrix.codec_canonical :
    BitMatrix.codec.Canonical fun m => m.WellFormed ∧ Storable m.rows m.cols := by
  have hparts := pair_canonical (fixed_canonical 8)
    (pair_canonical (fixed_canonical 8) (list_canonical uint8_canonical))
  refine hparts.refine ?_
  rintro ⟨rows, cols, data⟩ m hm
  simp only at hm
  split at hm
  next hstorage =>
    obtain rfl := Except.ok.inj hm
    obtain ⟨rfl, hwf⟩ := ofStorage_inv hstorage
    exact ⟨hwf, rfl⟩
  · cases hm

theorem RowShares.codec_canonical : RowShares.codec.Canonical fun m =>
    m.bits.WellFormed ∧ BitMatrix.Storable m.rowBits m.batchSize :=
  BitMatrix.codec_canonical.map fun _ _ => rfl

namespace MessageKind

theorem codec_canonical (kind : MessageKind) : kind.codec.Canonical kind.Sendable := by
  have hmap : (list int32).Canonical fun map => map.length < UInt64.size :=
    (list_canonical int32_canonical).mono fun map h => h.1
  cases kind with
  | unionMap | intersectionMap => exact hmap
  | rowCount => exact (option_canonical uint32_canonical).mono fun _ _ => trivial
  | rowCountShare => exact uint32_canonical
  | ownRows =>
    have hrows := list_canonical (list_canonical uint8_canonical)
    refine (pair_canonical hrows (fixed_canonical 8)).mono ?_
    rintro ⟨rows, size⟩ ⟨⟨hlen, hrows⟩, hsize⟩
    exact ⟨⟨hlen, fun row hrow => (hrows row hrow).1⟩, hsize⟩
  | peerRows =>
    refine (pair_canonical uint32_canonical (pair_canonical hmap (fixed_canonical 8))).mono ?_
    rintro ⟨share, map, width⟩ ⟨-, hlen, hwidth⟩
    exact ⟨hlen, hwidth⟩
  | rowShares => exact RowShares.codec_canonical

/-! ## Layouts -/

/-- The number of the elements in eight bytes, then the elements. -/
def counted (elements : List Bytes) : Bytes := Bytes.ofNat 8 elements.length ++ elements.flatten

/-- An index map is the sequence of its indices in four bytes each. -/
def writtenMap (map : IndexMap) : Bytes := counted (map.map fun i => Bytes.ofNat 4 i.toUInt32.toNat)

/-- The layout of the content of a message. -/
def written : (kind : MessageKind) → kind.Payload → Bytes
  | unionMap, map | intersectionMap, map => writtenMap map
  | rowCount, none => [0]
  | rowCount, some count => 1 :: Bytes.ofNat 4 count.toNat
  | rowCountShare, share => Bytes.ofNat 4 share.toNat
  | ownRows, (rows, outputSize) =>
    counted (rows.map fun row => Bytes.ofNat 8 row.length ++ row) ++ Bytes.ofNat 8 outputSize
  | peerRows, (share, map, width) =>
    Bytes.ofNat 4 share.toNat ++ writtenMap map ++ Bytes.ofNat 8 width
  | rowShares, m =>
    Bytes.ofNat 8 m.rowBits ++ Bytes.ofNat 8 m.batchSize ++ Bytes.ofNat 8 m.bits.data.length ++
      m.bits.data

theorem encode_list {α : Type} (c : Codec α) (l : List α) :
    (list c).encode l = counted (l.map c.encode) := by
  rw [counted, List.length_map]
  rfl

theorem encode_bytes (bytes : Bytes) :
    (list uint8).encode bytes = Bytes.ofNat 8 bytes.length ++ bytes := by
  have hsingle : ∀ byte : UInt8, uint8.encode byte = [byte] := fun byte =>
    congrArg (fun b => [b]) UInt8.ofNat_toNat
  rw [encode_list, funext hsingle, counted, List.length_map, ← List.flatMap_def,
    List.flatMap_singleton']

theorem encode_eq_written (kind : MessageKind) (payload : kind.Payload) :
    kind.codec.encode payload = kind.written payload := by
  cases kind with
  | unionMap | intersectionMap => exact encode_list int32 payload
  | rowCount =>
    cases payload with
    | none => rfl
    | some count => rfl
  | rowCountShare => rfl
  | ownRows =>
    change (list (list uint8)).encode payload.1 ++ _ = _
    rw [encode_list, funext encode_bytes]
    rfl
  | peerRows =>
    change _ ++ ((list int32).encode payload.2.1 ++ _) = _
    rw [encode_list, ← List.append_assoc]
    rfl
  | rowShares =>
    change _ ++ (_ ++ (list uint8).encode payload.bits.data) = _
    rw [encode_bytes, ← List.append_assoc, ← List.append_assoc]
    rfl

/-- A message is sent in the layout of its kind, and the receiver gets a content from precisely the
byte strings that begin with the layout of a content that can be sent. A content can be sent
if its sizes fit into eight bytes and a matrix in it is well-formed. So what is read as a share
matrix is well-formed, and the bytes begin with its writing. -/
theorem read_exactly_written :
    (∀ (kind : MessageKind) (payload : kind.Payload),
      kind.codec.encode payload = kind.written payload ∧
        ∀ bytes, kind.codec.read bytes = .ok payload ↔
          kind.Sendable payload ∧ kind.written payload <+: bytes) ∧
      ∀ bytes, (∃ e, RowShares.codec.read bytes = .error e) ∨
        ∃ m, RowShares.codec.read bytes = .ok m ∧ m.bits.WellFormed ∧
          RowShares.codec.encode m <+: bytes := by
  have hread : ∀ (kind : MessageKind) (payload : kind.Payload) (bytes : Bytes),
      kind.codec.read bytes = .ok payload ↔
        kind.Sendable payload ∧ kind.codec.encode payload <+: bytes :=
    fun kind _ _ => read_eq_ok_iff (codec_faithful kind) (codec_canonical kind)
  refine ⟨fun kind payload => ⟨encode_eq_written kind payload, fun bytes => ?_⟩, fun bytes => ?_⟩
  · rw [← encode_eq_written]
    exact hread kind payload bytes
  · cases h : RowShares.codec.read bytes with
    | error e => exact .inl ⟨e, rfl⟩
    | ok m =>
      obtain ⟨⟨hwf, -⟩, hprefix⟩ := (hread rowShares m bytes).1 h
      exact .inr ⟨m, rfl, hwf, hprefix⟩

end MessageKind

end PrivateLift
