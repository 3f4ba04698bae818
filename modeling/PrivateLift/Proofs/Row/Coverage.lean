import PrivateLift.Proofs.Row.Field
import PrivateLift.Row.Layout

/-!
# The bits that a layout uses

The fields of a layout lie inside the row (`layout_fits`) and one behind the other
(`layout_ordered`). They use every bit of a row except some of its first byte: a publisher row keeps
four flags there, a partner row one (`covers_publisher`, `covers_partner`). `cleaned` is a row
without the bits that no field uses, which is all that a record can tell about it.
-/

namespace PrivateLift.Role

open Bytes PrivateLift.Field

/-! ## The fields of a layout -/

theorem mem_layout_partner {slots : Nat} {f : Field} :
    f ∈ partner.layout slots ↔ f ∈ PartnerLayout.fields ∨
      ∃ slot < slots, ∃ g ∈ ConversionLayout.fields,
        g.shifted (ConversionLayout.offset slot) = f := by
  simp only [layout, List.mem_append, List.mem_flatMap, List.mem_range, List.mem_map]

/-- Every field of a layout lies inside the row, and a signed one has a byte that holds its sign. -/
theorem layout_fits (role : Role) (slots : Nat) :
    ∀ f ∈ role.layout slots, f.Fits (role.rowWidth slots) ∧ (f.kind = .signed → f.width ≠ 0) := by
  cases role with
  | publisher =>
    have hall : ∀ f ∈ PublisherLayout.fields, f.Fits 5 ∧ (f.kind = .signed → f.width ≠ 0) := by
      decide
    exact hall
  | partner =>
    have hheader : ∀ f ∈ PartnerLayout.fields, f.Fits 5 ∧ (f.kind = .signed → f.width ≠ 0) := by
      decide
    have hblock : ∀ g ∈ ConversionLayout.fields, g.Fits 20 ∧ (g.kind = .signed → g.width ≠ 0) := by
      decide
    intro f hf
    obtain hf | ⟨slot, hslot, g, hg, rfl⟩ := mem_layout_partner.1 hf
    · obtain ⟨hfits, hsign⟩ := hheader f hf
      have hwidth : 5 ≤ partner.rowWidth slots := Nat.le_add_right _ _
      exact ⟨hfits.mono hwidth, hsign⟩
    · obtain ⟨hfits, hsign⟩ := hblock g hg
      refine ⟨hfits.shifted ?_, hsign⟩
      simp only [ConversionLayout.offset, rowWidth, partnerHeaderWidth, conversionWidth]
      omega

/-- If the width of a partner row fits into 64 bits, so do the places of all its conversions. -/
theorem shift_conversion_ok {slots slot : Nat} {f : Field}
    (hwidth : partner.rowWidth slots < UInt64.size) (hslot : slot < slots)
    (hf : f ∈ ConversionLayout.fields) :
    f.shift (ConversionLayout.offset slot) = .ok (f.shifted (ConversionLayout.offset slot)) := by
  have hmem : f.shifted (ConversionLayout.offset slot) ∈ partner.layout slots :=
    mem_layout_partner.2 (.inr ⟨slot, hslot, f, hf, rfl⟩)
  exact shift_ok hwidth (layout_fits partner slots _ hmem).1

/-- The fields of a layout follow each other: each one ends before the next one starts. -/
theorem layout_ordered (role : Role) (slots : Nat) :
    (role.layout slots).Pairwise fun f g => f.start + f.size ≤ g.start := by
  cases role with
  | publisher =>
    have hall : PublisherLayout.fields.Pairwise fun f g => f.start + f.size ≤ g.start := by decide
    exact hall
  | partner =>
    have hheader : PartnerLayout.fields.Pairwise fun f g => f.start + f.size ≤ g.start := by decide
    have hblock : ConversionLayout.fields.Pairwise fun f g => f.start + f.size ≤ g.start := by
      decide
    have hheaderEnd : ∀ f ∈ PartnerLayout.fields, f.start + f.size ≤ 8 * 5 := by decide
    have hblockEnd : ∀ g ∈ ConversionLayout.fields, g.start + g.size ≤ 8 * 20 := by decide
    rw [layout, List.pairwise_append, List.pairwise_flatMap]
    refine ⟨hheader, ⟨fun slot _ => ?_, ?_⟩, fun f hf g hg => ?_⟩
    · rw [List.pairwise_map]
      refine hblock.imp fun {f g} h => ?_
      simp only [start_shifted, size_shifted]
      omega
    · -- Blocks lie in the order of their slots, each behind the end of those before it.
      refine List.pairwise_lt_range.imp fun {i j} hij f hf g hg => ?_
      obtain ⟨f, hfields, rfl⟩ := List.mem_map.1 hf
      obtain ⟨g, -, rfl⟩ := List.mem_map.1 hg
      have := hblockEnd f hfields
      simp only [start_shifted, size_shifted, ConversionLayout.offset, partnerHeaderWidth,
        conversionWidth]
      omega
    · obtain ⟨slot, -, hg⟩ := List.mem_flatMap.1 hg
      obtain ⟨g, -, rfl⟩ := List.mem_map.1 hg
      have := hheaderEnd f hf
      simp only [start_shifted, ConversionLayout.offset, partnerHeaderWidth]
      omega

theorem layout_disjoint (role : Role) (slots : Nat) :
    (role.layout slots).Pairwise fun f g => ∀ k, ¬(f.Covers k ∧ g.Covers k) := by
  refine (role.layout_ordered slots).imp fun {f g} h k => ?_
  simp only [Field.Covers]
  omega

/-! ## The bits that they use -/

/-- Some field of the layout occupies bit `k` of a row. -/
def Covers (role : Role) (slots k : Nat) : Prop := ∃ f ∈ role.layout slots, f.Covers k

instance (role : Role) (slots k : Nat) : Decidable (role.Covers slots k) :=
  inferInstanceAs (Decidable (∃ f ∈ role.layout slots, f.Covers k))

theorem covers_publisher (slots k : Nat) :
    publisher.Covers slots k ↔ k < 4 ∨ (8 ≤ k ∧ k < 8 * publisher.rowWidth slots) := by
  simp only [Covers, layout, PublisherLayout.fields, List.mem_cons, List.not_mem_nil, or_false,
    exists_eq_or_imp, exists_eq_left, rowWidth, publisherRowWidth]
  simp only [Field.Covers, start, size, PublisherLayout.breakdownId,
    PublisherLayout.controlPopulation, PublisherLayout.validOpportunity, PublisherLayout.testReach,
    PublisherLayout.opportunityTimestamp, flag, unsigned]
  omega

/-- The fields of a conversion block leave no gap. -/
theorem covers_block (k : Nat) :
    (∃ f ∈ ConversionLayout.fields, f.Covers k) ↔ k < 8 * conversionWidth := by
  simp only [ConversionLayout.fields, List.mem_cons, List.not_mem_nil, or_false, exists_eq_or_imp,
    exists_eq_left, conversionWidth]
  simp only [Field.Covers, start, size, ConversionLayout.purchaseTimestamp,
    ConversionLayout.thresholdTimestamp, ConversionLayout.purchaseValue,
    ConversionLayout.purchaseValueSquared, unsigned, signed]
  omega

theorem covers_blocks (slots k : Nat) :
    (∃ slot < slots, ∃ f ∈ ConversionLayout.fields,
      (f.shifted (ConversionLayout.offset slot)).Covers k) ↔
      8 * partnerHeaderWidth ≤ k ∧ k < 8 * partner.rowWidth slots := by
  have hblock : ∀ slot, (∃ f ∈ ConversionLayout.fields,
      (f.shifted (ConversionLayout.offset slot)).Covers k) ↔
      8 * (5 + slot * 20) ≤ k ∧ k - 8 * (5 + slot * 20) < 8 * 20 := by
    intro slot
    simp only [covers_shifted]
    have hcov := covers_block (k - 8 * ConversionLayout.offset slot)
    exact ⟨fun ⟨f, hf, hle, hc⟩ => ⟨hle, hcov.1 ⟨f, hf, hc⟩⟩, fun ⟨hle, hlt⟩ =>
      have ⟨f, hf, hc⟩ := hcov.2 hlt
      ⟨f, hf, hle, hc⟩⟩
  have hwidth : partner.rowWidth slots = 5 + 20 * slots := rfl
  have hheader : partnerHeaderWidth = 5 := rfl
  simp only [hblock, hwidth, hheader]
  constructor
  · rintro ⟨slot, hslot, hle, hlt⟩
    omega
  · rintro ⟨hle, hlt⟩
    exact ⟨(k - 40) / 160, by omega, by omega, by omega⟩

theorem covers_partner (slots k : Nat) :
    partner.Covers slots k ↔ k < 1 ∨ (8 ≤ k ∧ k < 8 * partner.rowWidth slots) := by
  have hheader : (∃ f ∈ PartnerLayout.fields, f.Covers k) ↔ k < 1 ∨ (8 ≤ k ∧ k < 40) := by
    simp only [PartnerLayout.fields, List.mem_cons, List.not_mem_nil, or_false, exists_eq_or_imp,
      exists_eq_left]
    simp only [Field.Covers, start, size, PartnerLayout.anyPurchase, PartnerLayout.cohortGroupId,
      flag, unsigned]
    omega
  have hsplit : partner.Covers slots k ↔ (∃ f ∈ PartnerLayout.fields, f.Covers k) ∨
      ∃ slot < slots, ∃ f ∈ ConversionLayout.fields,
        (f.shifted (ConversionLayout.offset slot)).Covers k := by
    simp only [Covers, mem_layout_partner, or_and_right, exists_or]
    refine or_congr_right ⟨?_, ?_⟩
    · rintro ⟨_, ⟨slot, hslot, f, hf, rfl⟩, hc⟩
      exact ⟨slot, hslot, f, hf, hc⟩
    · rintro ⟨slot, hslot, f, hf, hc⟩
      exact ⟨_, ⟨slot, hslot, f, hf, rfl⟩, hc⟩
  have hwidth : 40 ≤ 8 * partner.rowWidth slots := by
    simp only [rowWidth, partnerHeaderWidth]
    omega
  rw [hsplit, hheader, covers_blocks, partnerHeaderWidth]
  omega

/-! ## Rows without unused bits -/

/-- The bits of the first byte of a row that hold a flag. -/
def flagMask : Role → UInt8
  | publisher => 0x0f
  | partner => 0x01

/-- The first row of a byte string, the unused bits of its first byte cleared. -/
def cleaned (role : Role) (slots : Nat) (bytes : Bytes) : Bytes :=
  let row := bytes.take (role.rowWidth slots)
  row.set 0 (row.getD 0 0 &&& role.flagMask)

theorem rowWidth_pos (role : Role) (slots : Nat) : 0 < role.rowWidth slots := by
  cases role <;> simp [rowWidth, publisherRowWidth, partnerHeaderWidth]

/-- The layout uses the bits of the flags and all bits of the other bytes. -/
theorem covers_iff (role : Role) (slots k : Nat) :
    role.Covers slots k ↔ k < 8 * role.rowWidth slots ∧
      (k < 8 → role.flagMask.toNat.testBit k = true) := by
  have hpos := role.rowWidth_pos slots
  have hmask : ∀ {mask : UInt8} {flags : Nat}, flags ≤ 8 →
      (∀ k < 8, mask.toNat.testBit k = true ↔ k < flags) →
      ((k < flags ∨ (8 ≤ k ∧ k < 8 * role.rowWidth slots)) ↔
        k < 8 * role.rowWidth slots ∧ (k < 8 → mask.toNat.testBit k = true)) := by
    intro mask flags hflags hbits
    by_cases hk : k < 8
    · simp only [hk, hbits k hk, forall_const]
      omega
    · simp only [hk, false_implies, and_true]
      omega
  cases role with
  | publisher =>
    rw [covers_publisher]
    exact hmask (by decide) (by decide)
  | partner =>
    rw [covers_partner]
    exact hmask (by decide) (by decide)

theorem length_cleaned (role : Role) {slots : Nat} {bytes : Bytes}
    (h : role.rowWidth slots ≤ bytes.length) :
    (role.cleaned slots bytes).length = role.rowWidth slots := by
  simp only [cleaned, List.length_set, List.length_take]
  omega

theorem bit_cleaned (role : Role) {slots : Nat} {bytes : Bytes}
    (h : role.rowWidth slots ≤ bytes.length) (k : Nat) :
    (role.cleaned slots bytes).bit k = (decide (role.Covers slots k) && bytes.bit k) := by
  have hpos := role.rowWidth_pos slots
  have hlen : 0 < (bytes.take (role.rowWidth slots)).length := by
    rw [List.length_take]
    omega
  rw [cleaned, bit_set _ hlen, bit_take, Bool.eq_iff_iff]
  by_cases hk : k < 8
  · have hdiv : k / 8 = 0 := by omega
    have hmod : k % 8 = k := by omega
    have hwidth : k < 8 * role.rowWidth slots := by omega
    rw [if_pos hdiv, UInt8.toNat_and, Nat.testBit_and, hmod, testBit_getD _ _ hk, bit_take]
    simp [covers_iff, hk, hwidth, and_comm]
  · have hdiv : k / 8 ≠ 0 := by omega
    rw [if_neg hdiv]
    simp [covers_iff, hk]

/-- Cleaned rows are equal if the bits that the layout uses are. -/
theorem cleaned_eq_iff (role : Role) {slots : Nat} {a b : Bytes}
    (ha : role.rowWidth slots ≤ a.length) (hb : role.rowWidth slots ≤ b.length) :
    role.cleaned slots a = role.cleaned slots b ↔
      ∀ k, role.Covers slots k → a.bit k = b.bit k := by
  constructor
  · intro h k hk
    have hbit := congrArg (Bytes.bit · k) h
    simpa [bit_cleaned, ha, hb, hk] using hbit
  · intro h
    refine ext_bit ((role.length_cleaned ha).trans (role.length_cleaned hb).symm) fun k _ => ?_
    rw [bit_cleaned _ ha, bit_cleaned _ hb]
    by_cases hk : role.Covers slots k
    · rw [h k hk]
    · simp [hk]

end PrivateLift.Role
