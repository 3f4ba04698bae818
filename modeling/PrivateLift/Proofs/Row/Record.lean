import PrivateLift.Proofs.Row.Coverage
import PrivateLift.Row.Record

/-!
# Records and their rows

`ofBytes` is the record that the bytes of a row stand for, whatever they are; decoding a row that is
long enough gives it (`decode_ok`). Encoding writes a row that stands for the record (`encode_ok`)
and keeps all bits that no field uses. Since a record is read bit by bit, the record of an exclusive
or is the fieldwise exclusive or of the records (`ofBytes_xor`): this is why shares of rows can be
decoded like rows.
-/

namespace PrivateLift

open Bytes PrivateLift.Field

/-! ## Publisher rows -/

namespace PublisherRow

/-- The record in the bytes of a row. -/
def ofBytes (row : Bytes) : PublisherRow :=
  ⟨row.bit 0, row.bit 1, row.bit 2, row.bit 3, UInt32.ofNat (row.word 1 4)⟩

/-- The fieldwise exclusive or of two records. -/
def xor (a b : PublisherRow) : PublisherRow :=
  ⟨a.breakdownId ^^ b.breakdownId, a.controlPopulation ^^ b.controlPopulation,
    a.validOpportunity ^^ b.validOpportunity, a.testReach ^^ b.testReach,
    a.opportunityTimestamp ^^^ b.opportunityTimestamp⟩

theorem decode_ok {row : Bytes} (h : publisherRowWidth ≤ row.length) :
    decode row = .ok (ofBytes row) := by
  have hlen : 5 ≤ row.length := h
  have hbyte : 0 < row.length := by omega
  rw [decode, readFlag_ok (f := PublisherLayout.breakdownId) rfl ⟨by decide, hbyte⟩,
    readFlag_ok (f := PublisherLayout.controlPopulation) rfl ⟨by decide, hbyte⟩,
    readFlag_ok (f := PublisherLayout.validOpportunity) rfl ⟨by decide, hbyte⟩,
    readFlag_ok (f := PublisherLayout.testReach) rfl ⟨by decide, hbyte⟩,
    read_unsigned (f := PublisherLayout.opportunityTimestamp) rfl ⟨by decide, hlen⟩]
  simp only [bind, Except.bind, pure, Except.pure, UInt64.toUInt32_ofNat']
  rfl

theorem ofBytes_xor {a b : Bytes} (hlen : a.length = b.length) :
    ofBytes (Bytes.xor a b) = (ofBytes a).xor (ofBytes b) := by
  simp only [ofBytes, xor, bit_xor hlen, word_xor hlen, UInt32.ofNat_xor]

theorem encode_ok (r : PublisherRow) (buffer : Bytes) (h : publisherRowWidth ≤ buffer.length) :
    ∃ row, r.encode buffer = .ok row ∧ row.length = buffer.length ∧ ofBytes row = r ∧
      ∀ k, (∀ f ∈ PublisherLayout.fields, ¬f.Covers k) → row.bit k = buffer.bit k := by
  have hlen : 5 ≤ buffer.length := h
  have hbyte : 0 < buffer.length := by omega
  obtain ⟨row₁, h₁, w₁⟩ := write_ok PublisherLayout.breakdownId buffer
    ⟨by decide, hbyte⟩ r.breakdownId.toUInt64
  obtain ⟨row₂, h₂, w₂⟩ := write_ok PublisherLayout.controlPopulation row₁
    ⟨by decide, w₁.length_eq ▸ hbyte⟩ r.controlPopulation.toUInt64
  have len₂ : row₂.length = buffer.length := w₂.length_eq.trans w₁.length_eq
  obtain ⟨row₃, h₃, w₃⟩ := write_ok PublisherLayout.validOpportunity row₂
    ⟨by decide, len₂ ▸ hbyte⟩ r.validOpportunity.toUInt64
  have len₃ : row₃.length = buffer.length := w₃.length_eq.trans len₂
  obtain ⟨row₄, h₄, w₄⟩ := write_ok PublisherLayout.testReach row₃
    ⟨by decide, len₃ ▸ hbyte⟩ r.testReach.toUInt64
  have len₄ : row₄.length = buffer.length := w₄.length_eq.trans len₃
  obtain ⟨row₅, h₅, w₅⟩ := write_ok PublisherLayout.opportunityTimestamp row₄
    ⟨by decide, len₄ ▸ hlen⟩ r.opportunityTimestamp.toUInt64
  refine ⟨row₅, ?_, w₅.length_eq.trans len₄, ?_, ?_⟩
  · simp only [encode, h₁, h₂, h₃, h₄, h₅, bind, Except.bind]
  · have b0 : row₅.bit 0 = r.breakdownId := by
      rw [w₅.frame 0 (by decide), w₄.frame 0 (by decide), w₃.frame 0 (by decide),
        w₂.frame 0 (by decide), w₁.covered 0 (by decide)]
      cases r.breakdownId <;> rfl
    have b1 : row₅.bit 1 = r.controlPopulation := by
      rw [w₅.frame 1 (by decide), w₄.frame 1 (by decide), w₃.frame 1 (by decide),
        w₂.covered 1 (by decide)]
      cases r.controlPopulation <;> rfl
    have b2 : row₅.bit 2 = r.validOpportunity := by
      rw [w₅.frame 2 (by decide), w₄.frame 2 (by decide), w₃.covered 2 (by decide)]
      cases r.validOpportunity <;> rfl
    have b3 : row₅.bit 3 = r.testReach := by
      rw [w₅.frame 3 (by decide), w₄.covered 3 (by decide)]
      cases r.testReach <;> rfl
    have time : UInt32.ofNat (row₅.word 1 4) = r.opportunityTimestamp :=
      (w₅.uint32 rfl rfl rfl).trans (by simp)
    rw [ofBytes, b0, b1, b2, b3, time]
  · intro k hk
    rw [w₅.frame k (hk _ (by decide)), w₄.frame k (hk _ (by decide)),
      w₃.frame k (hk _ (by decide)), w₂.frame k (hk _ (by decide)), w₁.frame k (hk _ (by decide))]

end PublisherRow

/-! ## Conversion blocks -/

namespace ConversionRow

/-- The conversion in the bytes of a block. -/
def ofBytes (row : Bytes) (slot : Nat) : ConversionRow :=
  let start := ConversionLayout.offset slot
  ⟨UInt32.ofNat (row.word start 4), UInt32.ofNat (row.word (start + 4) 4),
    (UInt32.ofNat (row.word (start + 8) 4)).toInt32,
    (UInt64.ofNat (row.word (start + 12) 8)).toInt64⟩

/-- The fieldwise exclusive or of two conversions. -/
def xor (a b : ConversionRow) : ConversionRow :=
  ⟨a.purchaseTimestamp ^^^ b.purchaseTimestamp, a.thresholdTimestamp ^^^ b.thresholdTimestamp,
    a.purchaseValue ^^^ b.purchaseValue, a.purchaseValueSquared ^^^ b.purchaseValueSquared⟩

/-- The first byte behind the block of a slot. -/
theorem offset_succ (slot : Nat) :
    ConversionLayout.offset (slot + 1) = ConversionLayout.offset slot + conversionWidth := by
  simp only [ConversionLayout.offset, Nat.succ_mul]
  omega

theorem decode_ok {row : Bytes} {slot : Nat} (h : ConversionLayout.offset (slot + 1) ≤ row.length) :
    decode row slot = .ok (ofBytes row slot) := by
  have hlen : ConversionLayout.offset slot + 20 ≤ row.length := offset_succ slot ▸ h
  have fits : ∀ offset width, width ≤ 8 → offset + width ≤ 20 →
      width ≤ 8 ∧ offset + ConversionLayout.offset slot + width ≤ row.length :=
    fun offset width hw ho => ⟨hw, by omega⟩
  rw [decode, read_unsigned (f := ConversionLayout.purchaseTimestamp.shifted _) rfl
      (fits 0 4 (by decide) (by decide)),
    read_unsigned (f := ConversionLayout.thresholdTimestamp.shifted _) rfl
      (fits 4 4 (by decide) (by decide)),
    read_signed (f := ConversionLayout.purchaseValue.shifted _) rfl (Nat.succ_ne_zero _)
      (fits 8 4 (by decide) (by decide)),
    read_signed (f := ConversionLayout.purchaseValueSquared.shifted _) rfl (Nat.succ_ne_zero _)
      (fits 12 8 (by decide) (by decide))]
  have hvalue : (ConversionLayout.purchaseValue.shifted (ConversionLayout.offset slot)).width = 4 :=
    rfl
  have hsquare :
      (ConversionLayout.purchaseValueSquared.shifted (ConversionLayout.offset slot)).width = 8 := rfl
  simp only [bind, Except.bind, pure, Except.pure, UInt64.toUInt32_ofNat', hvalue, hsquare,
    toUInt32_signExtend_four, signExtend_eight]
  simp only [ofBytes, shifted, Nat.add_comm (ConversionLayout.offset slot)]
  simp [ConversionLayout.purchaseTimestamp, ConversionLayout.thresholdTimestamp,
    ConversionLayout.purchaseValue, ConversionLayout.purchaseValueSquared, unsigned, signed]

theorem ofBytes_xor {a b : Bytes} (hlen : a.length = b.length) (slot : Nat) :
    ofBytes (Bytes.xor a b) slot = (ofBytes a slot).xor (ofBytes b slot) := by
  simp only [ofBytes, xor, word_xor hlen, UInt32.ofNat_xor, UInt64.ofNat_xor, UInt32.toInt32_xor,
    UInt64.toInt64_xor]

theorem ofBytes_congr {a b : Bytes} {slot : Nat}
    (h : ∀ k, 8 * ConversionLayout.offset slot ≤ k → k < 8 * ConversionLayout.offset (slot + 1) →
      a.bit k = b.bit k) : ofBytes a slot = ofBytes b slot := by
  rw [offset_succ] at h
  have hword : ∀ offset width, offset + width ≤ conversionWidth →
      a.word (ConversionLayout.offset slot + offset) width =
        b.word (ConversionLayout.offset slot + offset) width := by
    intro offset width ho
    apply word_congr
    intro j hj
    exact h _ (by omega) (by omega)
  have h0 := hword 0 4 (by decide)
  rw [Nat.add_zero] at h0
  simp only [ofBytes, h0, hword 4 4 (by decide), hword 8 4 (by decide), hword 12 8 (by decide)]

theorem encode_ok (c : ConversionRow) {slot : Nat} {row : Bytes}
    (h : ConversionLayout.offset (slot + 1) ≤ row.length) :
    ∃ written, c.encode slot row = .ok written ∧ written.length = row.length ∧
      ofBytes written slot = c ∧
      ∀ k, k < 8 * ConversionLayout.offset slot ∨ 8 * ConversionLayout.offset (slot + 1) ≤ k →
        written.bit k = row.bit k := by
  rw [offset_succ] at h ⊢
  have hlen : ConversionLayout.offset slot + 20 ≤ row.length := h
  have fits : ∀ f : Field, f.Fits 20 → ∀ buffer : Bytes, buffer.length = row.length →
      (f.shifted (ConversionLayout.offset slot)).Fits buffer.length :=
    fun f hf buffer hb => hf.shifted (hb ▸ hlen)
  obtain ⟨row₁, h₁, w₁⟩ := write_ok _ _ (fits ConversionLayout.purchaseTimestamp (by decide) row rfl)
    c.purchaseTimestamp.toUInt64
  have len₁ : row₁.length = row.length := w₁.length_eq
  obtain ⟨row₂, h₂, w₂⟩ :=
    write_ok _ _ (fits ConversionLayout.thresholdTimestamp (by decide) row₁ len₁)
      c.thresholdTimestamp.toUInt64
  have len₂ : row₂.length = row.length := w₂.length_eq.trans len₁
  obtain ⟨row₃, h₃, w₃⟩ := write_ok _ _ (fits ConversionLayout.purchaseValue (by decide) row₂ len₂)
    c.purchaseValue.toInt64.toUInt64
  have len₃ : row₃.length = row.length := w₃.length_eq.trans len₂
  obtain ⟨row₄, h₄, w₄⟩ :=
    write_ok _ _ (fits ConversionLayout.purchaseValueSquared (by decide) row₃ len₃)
      c.purchaseValueSquared.toUInt64
  -- A field keeps the words of the fields before it, because it starts behind them.
  have keep : ∀ {f : Field} {a b : Bytes} {value offset : Nat}, offset + 4 ≤ f.offset →
      f.start = 8 * f.offset →
      (f.shifted (ConversionLayout.offset slot)).Written a value b →
      b.word (ConversionLayout.offset slot + offset) 4 =
        a.word (ConversionLayout.offset slot + offset) 4 := by
    intro f a b value offset hoff hstart w
    apply word_congr
    intro j hj
    apply w.frame
    rw [covers_shifted]
    intro hc
    have := hc.2.1
    omega
  refine ⟨row₄, ?_, w₄.length_eq.trans len₃, ?_, ?_⟩
  · simp only [encode, h₁, h₂, h₃, h₄, bind, Except.bind]
  · have time : UInt32.ofNat (row₄.word (ConversionLayout.offset slot + 0) 4) =
        c.purchaseTimestamp := by
      rw [keep (by decide) rfl w₄, keep (by decide) rfl w₃, keep (by decide) rfl w₂, Nat.add_comm]
      exact (w₁.uint32 rfl rfl rfl).trans (by simp)
    have threshold : UInt32.ofNat (row₄.word (ConversionLayout.offset slot + 4) 4) =
        c.thresholdTimestamp := by
      rw [keep (by decide) rfl w₄, keep (by decide) rfl w₃, Nat.add_comm]
      exact (w₂.uint32 rfl rfl rfl).trans (by simp)
    have value : (UInt32.ofNat (row₄.word (ConversionLayout.offset slot + 8) 4)).toInt32 =
        c.purchaseValue := by
      rw [keep (by decide) rfl w₄, Nat.add_comm]
      have low := w₃.uint32 rfl rfl rfl
      rw [toUInt32_toUInt64_toInt64] at low
      exact congrArg UInt32.toInt32 low
    have square : (UInt64.ofNat (row₄.word (ConversionLayout.offset slot + 12) 8)).toInt64 =
        c.purchaseValueSquared := by
      rw [Nat.add_comm]
      exact congrArg UInt64.toInt64 (w₄.uint64 rfl rfl rfl)
    rw [Nat.add_zero] at time
    rw [ofBytes, time, threshold, value, square]
  · intro k hk
    have hcov : ∀ f : Field, f.start + f.size ≤ 160 →
        ¬(f.shifted (ConversionLayout.offset slot)).Covers k := by
      intro f hf hc
      rw [covers_shifted] at hc
      have h20 : conversionWidth = 20 := rfl
      have := hc.2.2
      omega
    rw [w₄.frame k (hcov _ (by decide)), w₃.frame k (hcov _ (by decide)),
      w₂.frame k (hcov _ (by decide)), w₁.frame k (hcov _ (by decide))]

end ConversionRow

/-! ## Partner rows -/

namespace PartnerRow

/-- The record with `count` conversions in the bytes of a row. -/
def ofBytes (row : Bytes) (count : Nat) : PartnerRow :=
  ⟨row.bit 0, UInt32.ofNat (row.word 1 4), (List.range count).map (ConversionRow.ofBytes row)⟩

/-- The fieldwise exclusive or of two records with the same number of conversions. -/
def xor (a b : PartnerRow) : PartnerRow :=
  ⟨a.anyPurchase ^^ b.anyPurchase, a.cohortGroupId ^^^ b.cohortGroupId,
    List.zipWith ConversionRow.xor a.conversions b.conversions⟩

theorem decodeConversions_ok {row : Bytes} (count slot : Nat)
    (h : ConversionLayout.offset (slot + count) ≤ row.length) :
    decodeConversions row count slot =
      .ok ((List.range' slot count).map (ConversionRow.ofBytes row)) := by
  induction count generalizing slot with
  | zero => rfl
  | succ count ih =>
    have hrest : slot + 1 + count = slot + (count + 1) := by omega
    have hfirst : ConversionLayout.offset (slot + 1) ≤ row.length := by
      simp only [ConversionLayout.offset, conversionWidth] at h ⊢
      omega
    rw [decodeConversions, ConversionRow.decode_ok hfirst]
    simp only [bind, Except.bind, ih (slot + 1) (hrest ▸ h)]
    rfl

theorem rowWidth_eq (count : Nat) : Role.partner.rowWidth count = ConversionLayout.offset count := by
  simp only [Role.rowWidth, ConversionLayout.offset, Nat.mul_comm]

theorem decode_ok {row : Bytes} {count : Nat} (h : Role.partner.rowWidth count ≤ row.length) :
    decode row count = .ok (ofBytes row count) := by
  have hlen : 5 ≤ row.length := Nat.le_trans (Nat.le_add_right _ _) h
  have hbyte : 0 < row.length := by omega
  rw [rowWidth_eq] at h
  rw [decode, decodeConversions_ok count 0 (by rwa [Nat.zero_add]),
    readFlag_ok (f := PartnerLayout.anyPurchase) rfl ⟨by decide, hbyte⟩,
    read_unsigned (f := PartnerLayout.cohortGroupId) rfl ⟨by decide, hlen⟩]
  simp only [bind, Except.bind, pure, Except.pure, UInt64.toUInt32_ofNat', ← List.range_eq_range']
  rfl

theorem ofBytes_xor {a b : Bytes} (hlen : a.length = b.length) (count : Nat) :
    ofBytes (Bytes.xor a b) count = (ofBytes a count).xor (ofBytes b count) := by
  have hblock : ConversionRow.ofBytes (Bytes.xor a b) =
      fun slot => (ConversionRow.ofBytes a slot).xor (ConversionRow.ofBytes b slot) :=
    funext (ConversionRow.ofBytes_xor hlen)
  simp only [ofBytes, xor, bit_xor hlen, word_xor hlen, UInt32.ofNat_xor, List.zipWith_map,
    List.zipWith_self, hblock]

theorem encodeConversions_ok (cs : List ConversionRow) (slot : Nat) (row : Bytes)
    (h : ConversionLayout.offset (slot + cs.length) ≤ row.length) :
    ∃ written, encodeConversions cs slot row = .ok written ∧ written.length = row.length ∧
      (List.range' slot cs.length).map (ConversionRow.ofBytes written) = cs ∧
      ∀ k, k < 8 * ConversionLayout.offset slot ∨
        8 * ConversionLayout.offset (slot + cs.length) ≤ k → written.bit k = row.bit k := by
  induction cs generalizing slot row with
  | nil => exact ⟨row, rfl, rfl, rfl, fun _ _ => rfl⟩
  | cons c cs ih =>
    have hrest : slot + 1 + cs.length = slot + (c :: cs).length := by
      rw [List.length_cons]
      omega
    have hfirst : ConversionLayout.offset (slot + 1) ≤ row.length := by
      rw [← hrest] at h
      simp only [ConversionLayout.offset, conversionWidth] at h ⊢
      omega
    obtain ⟨one, hone, lenOne, valueOne, frameOne⟩ := c.encode_ok hfirst
    obtain ⟨all, hall, lenAll, valueAll, frameAll⟩ :=
      ih (slot + 1) one (by rw [hrest, lenOne]; exact h)
    refine ⟨all, ?_, lenAll.trans lenOne, ?_, ?_⟩
    · simp only [encodeConversions, hone, hall, bind, Except.bind]
    · -- The later blocks do not touch the first one.
      have hhead : ConversionRow.ofBytes all slot = c := by
        rw [← valueOne]
        apply ConversionRow.ofBytes_congr
        intro k _ hk
        exact frameAll k (.inl hk)
      rw [List.length_cons, List.range'_succ, List.map_cons, hhead, valueAll]
    · intro k hk
      rw [← hrest] at hk
      have hstart : ConversionLayout.offset slot ≤ ConversionLayout.offset (slot + 1) := by
        simp only [ConversionLayout.offset, conversionWidth]
        omega
      have hfinish : ConversionLayout.offset (slot + 1) ≤
          ConversionLayout.offset (slot + 1 + cs.length) := by
        simp only [ConversionLayout.offset, conversionWidth]
        omega
      rw [frameAll k (by omega), frameOne k (by omega)]

theorem encode_ok (r : PartnerRow) (buffer : Bytes)
    (h : Role.partner.rowWidth r.conversions.length ≤ buffer.length) :
    ∃ row, r.encode buffer = .ok row ∧ row.length = buffer.length ∧
      ofBytes row r.conversions.length = r ∧
      ∀ k, ¬Role.partner.Covers r.conversions.length k → row.bit k = buffer.bit k := by
  have hlen : 5 ≤ buffer.length := Nat.le_trans (Nat.le_add_right _ _) h
  have hbyte : 0 < buffer.length := by omega
  rw [rowWidth_eq] at h
  have hheader : 5 ≤ ConversionLayout.offset r.conversions.length := Nat.le_add_right _ _
  obtain ⟨row₁, h₁, w₁⟩ := write_ok PartnerLayout.anyPurchase buffer
    ⟨by decide, hbyte⟩ r.anyPurchase.toUInt64
  obtain ⟨row₂, h₂, w₂⟩ := write_ok PartnerLayout.cohortGroupId row₁
    ⟨by decide, w₁.length_eq ▸ hlen⟩ r.cohortGroupId.toUInt64
  have len₂ : row₂.length = buffer.length := w₂.length_eq.trans w₁.length_eq
  obtain ⟨row₃, h₃, len₃, value₃, frame₃⟩ := encodeConversions_ok r.conversions 0 row₂
    (by rw [Nat.zero_add, len₂]; exact h)
  rw [Nat.zero_add] at frame₃
  have hstart : ConversionLayout.offset 0 = 5 := rfl
  refine ⟨row₃, ?_, len₃.trans len₂, ?_, ?_⟩
  · simp only [encode, h₁, h₂, h₃, bind, Except.bind]
  · have any : row₃.bit 0 = r.anyPurchase := by
      rw [frame₃ 0 (.inl (by decide)), w₂.frame 0 (by decide), w₁.covered 0 (by decide)]
      cases r.anyPurchase <;> rfl
    have cohort : UInt32.ofNat (row₃.word 1 4) = r.cohortGroupId := by
      have hword : row₃.word 1 4 = row₂.word 1 4 := by
        apply word_congr
        intro j hj
        exact frame₃ _ (.inl (by omega))
      rw [hword]
      exact (w₂.uint32 rfl rfl rfl).trans (by simp)
    rw [ofBytes, any, cohort, List.range_eq_range', value₃]
  · intro k hk
    have hheaderField : ∀ f ∈ PartnerLayout.fields, ¬f.Covers k :=
      fun f hf hc => hk ⟨f, List.mem_append_left _ hf, hc⟩
    have hblocks : k < 8 * ConversionLayout.offset 0 ∨
        8 * ConversionLayout.offset r.conversions.length ≤ k := by
      rw [Role.covers_partner, rowWidth_eq] at hk
      omega
    rw [frame₃ k hblocks, w₂.frame k (hheaderField _ (by decide)),
      w₁.frame k (hheaderField _ (by decide))]

end PartnerRow

end PrivateLift
