import PrivateLift.Proofs.Fault
import PrivateLift.Proofs.Row.Record

/-!
# The layout describes what encoding writes

The positions of a record's fields are computed twice, once for the layout and once where the record
is written. `Describes` says that both agree: the fields of the layout do not overlap, leave no byte
out, read back the values of the record in layout order, and nothing else of the buffer is touched.
It holds for both kinds of rows (`rows_described`) because reading every field of the layout gives
the values of the record that the bytes stand for (`values_ofBytes`), whatever these bytes are.
-/

namespace PrivateLift

open Bytes PrivateLift.Field

/-! ## Values in layout order -/

/-- The values of a record in layout order, each extended to a word. -/
def PublisherRow.values (r : PublisherRow) : List UInt64 :=
  [r.breakdownId.toUInt64, r.controlPopulation.toUInt64, r.validOpportunity.toUInt64,
    r.testReach.toUInt64, r.opportunityTimestamp.toUInt64]

/-- The values of a conversion in layout order; the sign of a signed value is extended. -/
def ConversionRow.values (c : ConversionRow) : List UInt64 :=
  [c.purchaseTimestamp.toUInt64, c.thresholdTimestamp.toUInt64, c.purchaseValue.toInt64.toUInt64,
    c.purchaseValueSquared.toUInt64]

/-- The values of a record in layout order, conversion by conversion after the header. -/
def PartnerRow.values (r : PartnerRow) : List UInt64 :=
  r.anyPurchase.toUInt64 :: r.cohortGroupId.toUInt64 :: r.conversions.flatMap ConversionRow.values

theorem PublisherRow.values_ofBytes (row : Bytes) :
    PublisherLayout.fields.map (·.value row) = (ofBytes row).values := by
  rw [values, ofBytes, toUInt64_word]
  rfl

theorem ConversionRow.values_ofBytes (row : Bytes) (slot : Nat) :
    (ConversionLayout.fields.map (·.shifted (ConversionLayout.offset slot))).map (·.value row) =
      (ofBytes row slot).values := by
  simp only [values, ofBytes, toUInt64_word, ← signExtend_four_ofNat,
    UInt64.toUInt64_toInt64, Nat.add_comm (ConversionLayout.offset slot)]
  simp [ConversionLayout.fields, value, shifted, ConversionLayout.purchaseTimestamp,
    ConversionLayout.thresholdTimestamp, ConversionLayout.purchaseValue,
    ConversionLayout.purchaseValueSquared, unsigned, signed, signExtend_eight]

theorem PartnerRow.values_ofBytes (row : Bytes) (slots : Nat) :
    (Role.partner.layout slots).map (·.value row) = (ofBytes row slots).values := by
  rw [Role.layout, List.map_append, List.map_flatMap]
  simp only [ConversionRow.values_ofBytes]
  rw [values, ofBytes, toUInt64_word, List.flatMap_map]
  rfl

/-- The fields of a layout can be read from a row that is long enough, one after the other. -/
theorem Role.read_layout (role : Role) {slots : Nat} {row : Bytes}
    (h : role.rowWidth slots ≤ row.length) :
    (role.layout slots).mapM (·.read row) = .ok ((role.layout slots).map (·.value row)) := by
  apply mapM_map_ok
  intro f hf
  obtain ⟨hfits, hsign⟩ := role.layout_fits slots f hf
  exact read_ok (hfits.mono h) hsign

/-! ## Layout and encoding -/

/-- The layout of a role describes the rows that a function writes. `values` are the values of a
record in layout order, `Fits` is what a row has room for, and `flags` is the number of bits that
are used in the first byte. -/
structure Describes {Record : Type} (role : Role) (slots flags : Nat) (Fits : Record → Prop)
    (values : Record → List UInt64) (encode : Record → Bytes → Except Fault Bytes) : Prop where
  disjoint : (role.layout slots).Pairwise fun f g => ∀ k, ¬(f.Covers k ∧ g.Covers k)
  inside : ∀ f ∈ role.layout slots, f.start + f.size ≤ 8 * role.rowWidth slots
  covers_byte : ∀ i < role.rowWidth slots, ∃ k, k / 8 = i ∧ role.Covers slots k
  covers_iff : ∀ k, role.Covers slots k ↔ k < flags ∨ (8 ≤ k ∧ k < 8 * role.rowWidth slots)
  encode_reads : ∀ r, Fits r → ∀ buffer : Bytes, role.rowWidth slots ≤ buffer.length →
    ∃ row, encode r buffer = .ok row ∧ row.length = buffer.length ∧
      (role.layout slots).mapM (·.read row) = .ok (values r) ∧
      (∀ k, ¬role.Covers slots k → row.bit k = buffer.bit k) ∧
      row.drop (role.rowWidth slots) = buffer.drop (role.rowWidth slots)

/-- A layout describes an encoding if its fields give the values of the record that the bytes stand
for, and encoding writes a row that stands for the record and keeps the unused bits. -/
theorem Describes.of_ofBytes {Record : Type} {role : Role} {slots flags : Nat}
    {Fits : Record → Prop} {values : Record → List UInt64}
    {encode : Record → Bytes → Except Fault Bytes} (ofBytes : Bytes → Record)
    (hflags : 0 < flags ∧ flags ≤ 8)
    (covers_iff : ∀ k, role.Covers slots k ↔
      k < flags ∨ (8 ≤ k ∧ k < 8 * role.rowWidth slots))
    (values_ofBytes : ∀ row, (role.layout slots).map (·.value row) = values (ofBytes row))
    (encode_ok : ∀ r, Fits r → ∀ buffer, role.rowWidth slots ≤ buffer.length →
      ∃ row, encode r buffer = .ok row ∧ row.length = buffer.length ∧ ofBytes row = r ∧
        ∀ k, ¬role.Covers slots k → row.bit k = buffer.bit k) :
    Describes role slots flags Fits values encode := by
  refine ⟨role.layout_disjoint slots, fun f hf => (role.layout_fits slots f hf).1.end_le, ?_,
    covers_iff, ?_⟩
  · -- The lowest bit of every byte is used, also of the first one.
    intro i hi
    refine ⟨8 * i, by omega, (covers_iff _).2 ?_⟩
    omega
  · intro r hr buffer hbuffer
    obtain ⟨row, hrow, hlen, hvalue, hframe⟩ := encode_ok r hr buffer hbuffer
    refine ⟨row, hrow, hlen, ?_, hframe, ?_⟩
    · rw [role.read_layout (hlen ▸ hbuffer), values_ofBytes, hvalue]
    · refine ext_bit (by simp [hlen]) fun k _ => ?_
      rw [bit_drop, bit_drop]
      apply hframe
      rw [covers_iff]
      have hpos := role.rowWidth_pos slots
      omega

/-- The layouts of both roles describe their rows. A publisher row uses four bits of its first byte,
a partner row uses one, and has room for one conversion a slot. -/
theorem rows_described (slots : Nat) :
    Describes .publisher slots 4 (fun _ => True) PublisherRow.values PublisherRow.encode ∧
      Describes .partner slots 1 (fun r => r.conversions.length = slots) PartnerRow.values
        PartnerRow.encode := by
  constructor
  · refine .of_ofBytes PublisherRow.ofBytes ⟨by decide, by decide⟩ (Role.covers_publisher slots)
      PublisherRow.values_ofBytes fun r _ buffer hbuffer => ?_
    obtain ⟨row, hrow, hlen, hvalue, hframe⟩ := r.encode_ok buffer hbuffer
    exact ⟨row, hrow, hlen, hvalue, fun k hk => hframe k fun f hf hc => hk ⟨f, hf, hc⟩⟩
  · refine .of_ofBytes (PartnerRow.ofBytes · slots) ⟨by decide, by decide⟩
      (Role.covers_partner slots) (PartnerRow.values_ofBytes · slots) fun r hr buffer hbuffer => ?_
    subst hr
    exact r.encode_ok buffer hbuffer

end PrivateLift
