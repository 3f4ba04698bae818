import PrivateLift.Proofs.Row.Field

/-!
# Laws of reading and writing

A write is determined by the bits that it leaves (`Written.unique`), and a read by the bits of the
field (`value_congr`). So reading after writing gives what the field keeps of the value, writing
what was read changes nothing, and fields without a common bit do not disturb each other. A shifted
field does in a row what the field does in the rest of the row. `access_laws` states all of this for
every field that lies inside a row.
-/

namespace PrivateLift.Field

open Bytes

variable {f g : Field} {row : Bytes}

/-- The field lies inside a row of the given length, and a signed integer has a byte that holds its
sign. -/
structure Accessible (f : Field) (length : Nat) : Prop where
  fits : f.Fits length
  sign : f.kind = .signed → f.width ≠ 0

/-- No bit belongs to both fields. -/
def Apart (f g : Field) : Prop := ∀ k, ¬(f.Covers k ∧ g.Covers k)

/-- What a field keeps of a value: the lowest bit, or the remainder modulo the range of its bytes,
which a signed field extends by its sign. -/
def kept (f : Field) (value : UInt64) : UInt64 :=
  match f.kind with
  | .flag _ => .ofNat (value.toNat % 2)
  | .unsigned => .ofNat (value.toNat % 2 ^ (8 * f.width))
  | .signed => ⟨(BitVec.ofNat (8 * f.width) value.toNat).signExtend 64⟩

/-! ## Writes and reads as bits -/

theorem Written.unique {value : Nat} {a b : Bytes} (ha : f.Written row value a)
    (hb : f.Written row value b) : a = b := by
  refine ext_bit (ha.length_eq.trans hb.length_eq.symm) fun k _ => ?_
  by_cases hk : f.Covers k
  · rw [ha.covered k hk, hb.covered k hk]
  · rw [ha.frame k hk, hb.frame k hk]

/-- What is read depends on the bits of the field only. -/
theorem value_congr {a b : Bytes} (h : ∀ k, f.Covers k → a.bit k = b.bit k) :
    f.value a = f.value b := by
  have hword : f.start = 8 * f.offset → f.size = 8 * f.width →
      a.word f.offset f.width = b.word f.offset f.width := by
    intro hstart hsize
    refine word_congr fun j hj => h _ ?_
    simp only [Covers, hstart, hsize]
    omega
  rw [value, value]
  cases hkind : f.kind with
  | flag position =>
    have hbit := h f.start ⟨Nat.le_refl _, by simp [size, hkind]⟩
    simp only [hbit]
  | unsigned => simp only [hword (by simp [start, hkind]) (by simp [size, hkind])]
  | signed => simp only [hword (by simp [start, hkind]) (by simp [size, hkind])]

theorem testBit_signExtend {width : Nat} (hpos : 0 < width) (hle : width ≤ 8) (word : UInt64)
    {j : Nat} (hj : j < 8 * width) :
    (signExtend width word).toNat.testBit j = word.toNat.testBit j := by
  have hj64 : j < 64 := by omega
  rw [← UInt64.toNat_toBitVec, ← UInt64.toNat_toBitVec, BitVec.testBit_toNat, BitVec.testBit_toNat,
    toBitVec_signExtend hpos hle, BitVec.getLsbD_signExtend, BitVec.getLsbD_setWidth]
  simp [hj, hj64]

theorem toNat_ofNat_word (row : Bytes) (offset : Nat) {width : Nat} (hle : width ≤ 8) :
    (UInt64.ofNat (row.word offset width)).toNat = row.word offset width := by
  have hrange : 2 ^ (8 * width) ≤ 2 ^ 64 := Nat.pow_le_pow_right Nat.two_pos (by omega)
  exact UInt64.toNat_ofNat_of_lt' (Nat.lt_of_lt_of_le (word_lt row offset rfl) hrange)

/-- The bits of a field are the low bits of what is read. -/
theorem bit_eq_value (h : f.Accessible row.length) {k : Nat} (hk : f.Covers k) :
    row.bit k = (f.value row).toNat.testBit (k - f.start) := by
  obtain ⟨hle, hlt⟩ := hk
  have hfits := h.fits
  have hsign := h.sign
  -- An integer holds the bits of its word.
  have hword : f.width ≤ 8 → f.start = 8 * f.offset → f.size = 8 * f.width →
      (UInt64.ofNat (row.word f.offset f.width)).toNat.testBit (k - f.start) = row.bit k := by
    intro hwidth hstart hsize
    have hbit : 8 * f.offset + (k - f.start) = k := by omega
    have hinside : k - f.start < 8 * f.width := by omega
    rw [toNat_ofNat_word row f.offset hwidth, testBit_word, hbit, decide_eq_true hinside,
      Bool.true_and]
  rw [value]
  cases hkind : f.kind with
  | flag position =>
    obtain rfl : k = f.start := by
      simp only [size, hkind] at hlt
      omega
    simp only [Nat.sub_self]
    cases row.bit f.start <;> rfl
  | unsigned =>
    simp only [Fits, hkind] at hfits
    exact (hword hfits.1 (by simp [start, hkind]) (by simp [size, hkind])).symm
  | signed =>
    simp only [Fits, hkind] at hfits
    have hsize : f.size = 8 * f.width := by simp [size, hkind]
    have hpos := Nat.pos_of_ne_zero (hsign hkind)
    simp only
    rw [testBit_signExtend hpos hfits.1 _ (by omega), hword hfits.1 (by simp [start, hkind]) hsize]

/-- A written field reads as what it keeps of the value. -/
theorem Written.value_eq {value : UInt64} {written : Bytes} (hsign : f.kind = .signed → f.width ≠ 0)
    (hfits : f.Fits row.length) (h : f.Written row value.toNat written) :
    f.value written = f.kept value := by
  have h256 : 256 ^ f.width = 2 ^ (8 * f.width) := by rw [Nat.pow_mul]
  rw [Field.value, kept]
  cases hkind : f.kind with
  | flag position =>
    have hbit := h.covered f.start ⟨Nat.le_refl _, by simp [size, hkind]⟩
    rw [Nat.sub_self, Nat.testBit_zero] at hbit
    simp only [hbit]
    obtain heven | hodd := Nat.mod_two_eq_zero_or_one value.toNat
    · rw [heven]
      rfl
    · rw [hodd]
      rfl
  | unsigned =>
    simp only [h.word (by simp [start, hkind]) (by simp [size, hkind]), h256]
  | signed =>
    simp only [Fits, hkind] at hfits
    apply UInt64.toBitVec_inj.1
    simp only
    rw [toBitVec_signExtend (Nat.pos_of_ne_zero (hsign hkind)) hfits.1,
      h.word (by simp [start, hkind]) (by simp [size, hkind]), h256, UInt64.toBitVec_ofNat',
      BitVec.setWidth_ofNat_of_le (by omega), ← BitVec.toNat_ofNat, BitVec.ofNat_toNat,
      BitVec.setWidth_eq]

/-! ## Writing and reading back -/

theorem write_value (h : f.Accessible row.length) : f.write row (f.value row) = .ok row := by
  obtain ⟨written, hwrite, hwritten⟩ := write_ok f row h.fits (f.value row)
  have hrow : f.Written row (f.value row).toNat row :=
    ⟨rfl, fun _ hk => bit_eq_value h hk, fun _ _ => rfl⟩
  rw [hwrite, hwritten.unique hrow]

theorem read_write (h : f.Accessible row.length) {value : UInt64} {written : Bytes}
    (hwritten : f.Written row value.toNat written) : f.read written = .ok (f.kept value) := by
  have hread := read_ok (hwritten.length_eq ▸ h.fits) h.sign
  rw [hread, hwritten.value_eq h.sign h.fits]

/-! ## Two fields without a common bit -/

theorem Apart.symm (h : f.Apart g) : g.Apart f := fun k hk => h k hk.symm

theorem Written.value_apart {value : Nat} {written : Bytes} (h : f.Written row value written)
    (hapart : f.Apart g) : g.value written = g.value row :=
  value_congr fun k hk => h.frame k fun hf => hapart k ⟨hf, hk⟩

/-- The row that two writes leave does not depend on which of them comes first. -/
theorem Written.comm {v w : Nat} {one other both : Bytes} (hapart : f.Apart g)
    (hone : f.Written row v one) (hother : g.Written row w other) (hboth : g.Written one w both) :
    f.Written other v both where
  length_eq := by rw [hboth.length_eq, hone.length_eq, hother.length_eq]
  covered k hk := by rw [hboth.frame k fun hg => hapart k ⟨hk, hg⟩, hone.covered k hk]
  frame k hk := by
    by_cases hg : g.Covers k
    · rw [hboth.covered k hg, hother.covered k hg]
    · rw [hboth.frame k hg, hone.frame k hk, hother.frame k hg]

/-- Both orders of two writes succeed with the same row, and neither write is seen by the other
field. -/
theorem write_comm (hf : f.Accessible row.length) (hg : g.Accessible row.length)
    (hapart : f.Apart g) (v w : UInt64) : ∃ one other both,
      f.write row v = .ok one ∧ g.write row w = .ok other ∧
      g.write one w = .ok both ∧ f.write other v = .ok both ∧
      f.read other = f.read row ∧ g.read one = g.read row := by
  obtain ⟨one, hwriteOne, hone⟩ := write_ok f row hf.fits v
  obtain ⟨other, hwriteOther, hother⟩ := write_ok g row hg.fits w
  have hgOne : g.Accessible one.length := hone.length_eq ▸ hg
  have hfOther : f.Accessible other.length := hother.length_eq ▸ hf
  obtain ⟨both, hwriteBoth, hboth⟩ := write_ok g one hgOne.fits w
  obtain ⟨both', hwriteBoth', hboth'⟩ := write_ok f other hfOther.fits v
  obtain rfl : both' = both := hboth'.unique (hone.comm hapart hother hboth)
  refine ⟨one, other, both', hwriteOne, hwriteOther, hwriteBoth, hwriteBoth', ?_, ?_⟩
  · rw [read_ok hfOther.fits hf.sign, read_ok hf.fits hf.sign, hother.value_apart hapart.symm]
  · rw [read_ok hgOne.fits hg.sign, read_ok hg.fits hg.sign, hone.value_apart hapart]

/-! ## Shifted fields -/

theorem fits_shifted_iff {k : Nat} (hk : k ≤ row.length) :
    (f.shifted k).Fits row.length ↔ f.Fits (row.drop k).length := by
  rw [List.length_drop]
  cases hkind : f.kind <;> simp only [Fits, Field.shifted, hkind] <;> omega

/-- A shifted field reads in a row what the field reads after the first bytes of the row. -/
theorem read_shifted {k : Nat} (hk : k ≤ row.length) :
    (f.shifted k).read row = f.read (row.drop k) := by
  have hgetD : row.getD (f.offset + k) 0 = (row.drop k).getD f.offset 0 := by
    rw [List.getD_eq_getElem?_getD, List.getD_eq_getElem?_getD, List.getElem?_drop, Nat.add_comm]
  have hraw : (f.shifted k).raw row = f.raw (row.drop k) := by
    simp only [raw, shifted, List.drop_drop, Nat.add_comm]
  by_cases hfits : f.Fits (row.drop k).length
  · rw [read, read, if_pos hfits, if_pos ((fits_shifted_iff hk).2 hfits), hraw]
    cases hkind : f.kind <;> simp only [shifted, hkind, hgetD]
  · rw [read, read, if_neg hfits, if_neg fun h => hfits ((fits_shifted_iff hk).1 h)]

theorem Written.prepend {k value : Nat} {rest : Bytes} (hk : k ≤ row.length)
    (h : f.Written (row.drop k) value rest) :
    (f.shifted k).Written row value (row.take k ++ rest) := by
  have htake : (row.take k).length = k := List.length_take_of_le hk
  refine ⟨?_, ?_, ?_⟩
  · rw [List.length_append, htake, h.length_eq, List.length_drop]
    omega
  · intro j hj
    obtain ⟨hle, hcovers⟩ := (covers_shifted f k j).1 hj
    rw [bit_append, htake, if_neg (by omega), h.covered _ hcovers, start_shifted, Nat.sub_sub]
  · intro j hj
    rw [covers_shifted] at hj
    rw [bit_append, htake]
    split
    · next hlt => simp [bit_take, hlt]
    · next hge =>
      have hback : 8 * k + (j - 8 * k) = j := by omega
      rw [h.frame _ fun hcovers => hj ⟨by omega, hcovers⟩, bit_drop, hback]

/-- A shifted field writes into a row what the field writes after the first bytes of the row. -/
theorem write_shifted {k : Nat} (hk : k ≤ row.length) (value : UInt64) :
    (f.shifted k).write row value = (f.write (row.drop k) value).map (row.take k ++ ·) := by
  by_cases hfits : f.Fits (row.drop k).length
  · obtain ⟨rest, hrest, hwrittenRest⟩ := write_ok f (row.drop k) hfits value
    obtain ⟨written, hwrite, hwritten⟩ :=
      write_ok (f.shifted k) row ((fits_shifted_iff hk).2 hfits) value
    rw [hwrite, hrest, hwritten.unique (hwrittenRest.prepend hk)]
    rfl
  · rw [write, write, if_neg hfits, if_neg fun h => hfits ((fits_shifted_iff hk).1 h)]
    rfl

/-- Writing a field of a row always succeeds, changes no bit outside the field, and reading then
gives what the field keeps of the value. Writing what was read changes nothing. Writes to fields
without a common bit commute and leave each other's reads alone. A field shifted by `k` bytes does
in the row what the field does in the row without its first `k` bytes. -/
theorem access_laws {f : Field} {row : Bytes} (h : f.Accessible row.length) :
    (∀ value, ∃ written, f.write row value = .ok written ∧
      f.read written = .ok (f.kept value) ∧
      written.length = row.length ∧ ∀ k, ¬f.Covers k → written.bit k = row.bit k) ∧
    (∃ value, f.read row = .ok value ∧ f.write row value = .ok row) ∧
    (∀ g : Field, g.Accessible row.length → f.Apart g → ∀ v w, ∃ one other both,
      f.write row v = .ok one ∧ g.write row w = .ok other ∧
      g.write one w = .ok both ∧ f.write other v = .ok both ∧
      f.read other = f.read row ∧ g.read one = g.read row) ∧
    (∀ k ≤ row.length,
      (row.length < UInt64.size → (f.shifted k).Fits row.length → f.shift k = .ok (f.shifted k)) ∧
      (f.shifted k).read row = f.read (row.drop k) ∧
      ∀ value, (f.shifted k).write row value =
        (f.write (row.drop k) value).map (row.take k ++ ·)) := by
  refine ⟨fun value => ?_, ⟨f.value row, read_ok h.fits h.sign, write_value h⟩, ?_, ?_⟩
  · obtain ⟨written, hwrite, hwritten⟩ := write_ok f row h.fits value
    exact ⟨written, hwrite, read_write h hwritten, hwritten.length_eq, hwritten.frame⟩
  · exact fun g hg hapart => write_comm h hg hapart
  · exact fun k hk => ⟨shift_ok, read_shifted hk, write_shifted hk⟩

/-- Two bytes hold a negative number; the flag beside them is the highest bit of the byte before. -/
theorem access_laws_signed_beside_flag :
    (∃ written, (Field.signed "value" 1 2).write [5, 0, 0] 0x18001 = .ok written ∧
      (Field.signed "value" 1 2).read written = .ok 0xffffffffffff8001) ∧
    ∃ one other both,
      (Field.signed "value" 1 2).write [5, 0, 0] 0x18001 = .ok one ∧
      (Field.flag "flag" 0 7).write [5, 0, 0] 3 = .ok other ∧
      (Field.flag "flag" 0 7).write one 3 = .ok both ∧
      (Field.signed "value" 1 2).write other 0x18001 = .ok both := by
  have hvalue : (Field.signed "value" 1 2).Accessible 3 := ⟨by decide, by decide⟩
  have hflag : (Field.flag "flag" 0 7).Accessible 3 := ⟨by decide, by decide⟩
  have hapart : (Field.signed "value" 1 2).Apart (Field.flag "flag" 0 7) := by
    intro k hk
    simp only [Covers, start, size, Field.signed, Field.flag] at hk
    omega
  obtain ⟨hwrite, -, hcomm, -⟩ := @access_laws (Field.signed "value" 1 2) [5, 0, 0] hvalue
  obtain ⟨written, hwritten, hread, -⟩ := hwrite 0x18001
  obtain ⟨one, other, both, hone, hother, hboth, hboth', -⟩ :=
    hcomm (Field.flag "flag" 0 7) hflag hapart 0x18001 3
  have hkept : (Field.signed "value" 1 2).kept 0x18001 = 0xffffffffffff8001 := by decide
  exact ⟨⟨written, hwritten, hkept ▸ hread⟩, one, other, both, hone, hother, hboth, hboth'⟩

end PrivateLift.Field
