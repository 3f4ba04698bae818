import PrivateLift.Proofs.Bytes.Bits
import PrivateLift.Row.Field

/-!
# What writing and reading a field does to the bits of a row

A field occupies the bits from `start` to `start + size` of a row. Writing it puts the low bits of
the value there and keeps all others (`write_ok`); reading it gives the number that they stand for
(`read_ok`). Reading a signed field repeats the sign, which the narrowing of a decoded value undoes
(`toUInt32_signExtend_four`).
-/

namespace PrivateLift.Field

open Bytes

/-! ## One bit of a byte -/

theorem testBit_bitMask {bit : Nat} (hbit : bit < 8) (k : Nat) :
    ((1 : UInt8) <<< UInt8.ofNat bit).toNat.testBit k = decide (k = bit) := by
  have hbyte : ∀ bit < 8, ∀ k < 8,
      ((1 : UInt8) <<< UInt8.ofNat bit).toNat.testBit k = decide (k = bit) := by decide
  by_cases hk : k < 8
  · exact hbyte bit hbit k hk
  · rw [testBit_byte_of_le _ (by omega), eq_comm, decide_eq_false_iff_not]
    omega

theorem testBit_not_bitMask {bit : Nat} (hbit : bit < 8) {k : Nat} (hk : k < 8) :
    (~~~((1 : UInt8) <<< UInt8.ofNat bit)).toNat.testBit k = decide (k ≠ bit) := by
  have hbyte : ∀ bit < 8, ∀ k < 8,
      (~~~((1 : UInt8) <<< UInt8.ofNat bit)).toNat.testBit k = decide (k ≠ bit) := by decide
  exact hbyte bit hbit k hk

theorem testBit_putBit (b : UInt8) {bit : Nat} (hbit : bit < 8) (on : Bool) (k : Nat) :
    (putBit b bit on).toNat.testBit k = if k = bit then on else b.toNat.testBit k := by
  cases on with
  | true =>
    simp only [putBit, if_true, UInt8.toNat_or, Nat.testBit_or, testBit_bitMask hbit]
    by_cases hk : k = bit <;> simp [hk]
  | false =>
    simp only [putBit, Bool.false_eq_true, if_false, UInt8.toNat_and, Nat.testBit_and]
    by_cases hk : k < 8
    · rw [testBit_not_bitMask hbit hk]
      by_cases hkb : k = bit <;> simp [hkb]
    · have hne : k ≠ bit := by omega
      rw [testBit_byte_of_le b (by omega), testBit_byte_of_le _ (by omega)]
      simp [hne]

/-- Replacing a bit of one byte replaces one bit of the byte string. -/
theorem bit_modify_putBit (bs : Bytes) {n : Nat} (h : n / 8 < bs.length) (on : Bool) (k : Nat) :
    bit (bs.modify (n / 8) (putBit · (n % 8) on)) k = if k = n then on else bit bs k := by
  rw [bit_modify bs h, testBit_putBit _ (Nat.mod_lt n (by decide))]
  by_cases hbyte : k / 8 = n / 8
  · have hbit : k % 8 = n % 8 ↔ k = n := by omega
    rw [if_pos hbyte, testBit_getD _ _ (Nat.mod_lt k (by decide)), ← hbyte, Nat.div_add_mod]
    simp only [hbit]
  · have hne : k ≠ n := fun e => hbyte (e ▸ rfl)
    rw [if_neg hbyte, if_neg hne]

/-! ## The bits of a field -/

/-- The first bit of a row that a field occupies. -/
def start (f : Field) : Nat :=
  match f.kind with
  | .flag position => 8 * f.offset + position
  | .unsigned | .signed => 8 * f.offset

/-- Number of bits that a field occupies. -/
def size (f : Field) : Nat :=
  match f.kind with
  | .flag _ => 1
  | .unsigned | .signed => 8 * f.width

/-- The field occupies bit `k` of a row. -/
def Covers (f : Field) (k : Nat) : Prop := f.start ≤ k ∧ k < f.start + f.size

/-- `written` is `row` with the low bits of a value in the place of the field. -/
structure Written (f : Field) (row : Bytes) (value : Nat) (written : Bytes) : Prop where
  length_eq : written.length = row.length
  covered : ∀ k, f.Covers k → written.bit k = value.testBit (k - f.start)
  frame : ∀ k, ¬f.Covers k → written.bit k = row.bit k

instance (f : Field) (k : Nat) : Decidable (f.Covers k) := by
  unfold Covers; infer_instance

theorem Fits.mono {f : Field} {length row : Nat} (h : f.Fits length) (hrow : length ≤ row) :
    f.Fits row := by
  cases hkind : f.kind <;> simp only [Fits, hkind] at h ⊢ <;> omega

theorem Fits.shifted {f : Field} {length shift row : Nat} (h : f.Fits length)
    (hrow : shift + length ≤ row) : (f.shifted shift).Fits row := by
  cases hkind : f.kind <;> simp only [Fits, Field.shifted, hkind] at h ⊢ <;> omega

/-- The offset of a field that fits after shifting is a position of the row. -/
theorem shift_ok {f : Field} {k length : Nat} (hlength : length < UInt64.size)
    (hfits : (f.shifted k).Fits length) : f.shift k = .ok (f.shifted k) := by
  have hoffset : f.offset + k < UInt64.size := by
    cases hkind : f.kind <;> simp only [Fits, Field.shifted, hkind] at hfits <;> omega
  rw [shift, checkSize_ok hoffset]
  rfl

@[simp] theorem start_shifted (f : Field) (shift : Nat) :
    (f.shifted shift).start = 8 * shift + f.start := by
  cases hkind : f.kind <;> simp only [start, Field.shifted, hkind] <;> omega

@[simp] theorem size_shifted (f : Field) (shift : Nat) : (f.shifted shift).size = f.size := rfl

theorem Fits.end_le {f : Field} {length : Nat} (h : f.Fits length) :
    f.start + f.size ≤ 8 * length := by
  cases hkind : f.kind <;> simp only [Fits, hkind] at h <;> simp only [start, size, hkind] <;> omega

theorem covers_shifted (f : Field) (shift k : Nat) :
    (f.shifted shift).Covers k ↔ 8 * shift ≤ k ∧ f.Covers (k - 8 * shift) := by
  simp only [Covers, start_shifted, size_shifted]
  omega

/-! ## Writing -/

theorem written_flag {f : Field} {row : Bytes} {position : Nat} (hkind : f.kind = .flag position)
    (hpos : position < 8) (hoff : f.offset < row.length) (value : Nat) :
    f.Written row value
      (row.set f.offset (putBit (row.getD f.offset 0) position (value.testBit 0))) := by
  have hcov : ∀ k, f.Covers k ↔ k / 8 = f.offset ∧ k % 8 = position := by
    intro k
    simp only [Covers, start, size, hkind]
    omega
  refine ⟨by simp, ?_, ?_⟩
  · intro k hk
    have hstart : k - f.start = 0 := by
      have := hk.2
      simp only [size, hkind] at this
      omega
    obtain ⟨hdiv, hmod⟩ := (hcov k).1 hk
    rw [bit_set row hoff, if_pos hdiv, testBit_putBit _ hpos, if_pos hmod, hstart]
  · intro k hk
    rw [bit_set row hoff]
    by_cases hdiv : k / 8 = f.offset
    · have hmod : k % 8 ≠ position := fun hmod => hk ((hcov k).2 ⟨hdiv, hmod⟩)
      rw [if_pos hdiv, testBit_putBit _ hpos, if_neg hmod, bit, hdiv]
    · rw [if_neg hdiv]

theorem written_bytes {f : Field} {row : Bytes} (hstart : f.start = 8 * f.offset)
    (hsize : f.size = 8 * f.width) (hlen : f.offset + f.width ≤ row.length) (value : Nat) :
    f.Written row value
      (row.take f.offset ++ Bytes.ofNat f.width value ++ row.drop (f.offset + f.width)) := by
  have htake : (row.take f.offset).length = f.offset := by
    rw [List.length_take]
    omega
  have hbit : ∀ k, bit (row.take f.offset ++ Bytes.ofNat f.width value ++
      row.drop (f.offset + f.width)) k =
      if k < 8 * f.offset then bit row k
      else if k - 8 * f.offset < 8 * f.width then value.testBit (k - 8 * f.offset)
      else bit row k := by
    intro k
    rw [List.append_assoc, bit_append, bit_append, htake, length_ofNat, bit_ofNat, bit_drop,
      bit_take]
    split
    · next h => simp [h]
    · split
      · next h => simp [h]
      · congr 1
        omega
  refine ⟨?_, ?_, ?_⟩
  · rw [List.length_append, List.length_append, htake, length_ofNat, List.length_drop]
    omega
  · intro k hk
    simp only [Covers, hstart, hsize] at hk
    rw [hbit, if_neg (by omega), if_pos (by omega), hstart]
  · intro k hk
    simp only [Covers, hstart, hsize] at hk
    rw [hbit]
    split
    · rfl
    · rw [if_neg (by omega)]

/-- Writing a field that fits succeeds and changes nothing else. -/
theorem write_ok (f : Field) (row : Bytes) (hf : f.Fits row.length) (value : UInt64) :
    ∃ written, f.write row value = .ok written ∧ f.Written row value.toNat written := by
  rw [write, if_pos hf]
  cases hkind : f.kind with
  | flag position =>
    simp only [Fits, hkind] at hf
    exact ⟨_, rfl, written_flag hkind hf.1 hf.2 value.toNat⟩
  | unsigned | signed =>
    simp only [Fits, hkind] at hf
    exact ⟨_, rfl, written_bytes (by simp [start, hkind]) (by simp [size, hkind]) hf.2 value.toNat⟩

theorem Written.word {f : Field} {row written : Bytes} {value : Nat}
    (h : f.Written row value written) (hstart : f.start = 8 * f.offset)
    (hsize : f.size = 8 * f.width) : written.word f.offset f.width = value % 256 ^ f.width := by
  apply word_eq_of_bit
  intro j hj
  have hsub : 8 * f.offset + j - f.start = j := by omega
  rw [h.covered _ ⟨by omega, by omega⟩, hsub]

theorem Written.uint32 {f : Field} {row written : Bytes} {value : UInt64}
    (h : f.Written row value.toNat written) (hstart : f.start = 8 * f.offset)
    (hwidth : f.width = 4) (hsize : f.size = 32) :
    UInt32.ofNat (written.word f.offset 4) = value.toUInt32 := by
  have hword := h.word hstart (by omega)
  rw [hwidth] at hword
  rw [hword]
  apply UInt32.toNat_inj.1
  simp

theorem Written.uint64 {f : Field} {row written : Bytes} {value : UInt64}
    (h : f.Written row value.toNat written) (hstart : f.start = 8 * f.offset)
    (hwidth : f.width = 8) (hsize : f.size = 64) :
    UInt64.ofNat (written.word f.offset 8) = value := by
  have hword := h.word hstart (by omega)
  rw [hwidth] at hword
  rw [hword]
  apply UInt64.toNat_inj.1
  simp

/-! ## Reading -/

/-- What reading a field of a row gives. -/
def value (f : Field) (row : Bytes) : UInt64 :=
  match f.kind with
  | .flag _ => (bit row f.start).toUInt64
  | .unsigned => UInt64.ofNat (row.word f.offset f.width)
  | .signed => signExtend f.width (UInt64.ofNat (row.word f.offset f.width))

/-- Reading a field that fits succeeds; a signed integer must have a byte that holds its sign. -/
theorem read_ok {f : Field} {row : Bytes} (hf : f.Fits row.length)
    (hsign : f.kind = .signed → f.width ≠ 0) : f.read row = .ok (f.value row) := by
  rw [read, if_pos hf, value]
  cases hkind : f.kind with
  | flag position =>
    simp only [Fits, hkind] at hf
    simp only [start, hkind, testBit_getD row f.offset hf.1]
    cases bit row (8 * f.offset + position) <;> rfl
  | unsigned => rfl
  | signed =>
    simp only [if_neg (hsign hkind)]
    rfl

theorem readFlag_ok {f : Field} {row : Bytes} {position : Nat} (hkind : f.kind = .flag position)
    (hf : f.Fits row.length) : f.readFlag row = .ok (bit row f.start) := by
  rw [readFlag, read_ok hf (by simp [hkind]), value]
  simp only [hkind, Except.map]
  cases bit row f.start <;> rfl

theorem read_unsigned {f : Field} {row : Bytes} (hkind : f.kind = .unsigned)
    (hf : f.Fits row.length) :
    f.read row = .ok (UInt64.ofNat (row.word f.offset f.width)) := by
  rw [read_ok hf (by simp [hkind]), value]
  simp only [hkind]

theorem read_signed {f : Field} {row : Bytes} (hkind : f.kind = .signed) (hw : f.width ≠ 0)
    (hf : f.Fits row.length) :
    f.read row = .ok (signExtend f.width (UInt64.ofNat (row.word f.offset f.width))) := by
  rw [read_ok hf fun _ => hw, value]
  simp only [hkind]

/-! ## Signs -/

/-- Shifting a word up and arithmetically down again extends the sign of its low bytes. -/
theorem toBitVec_signExtend {width : Nat} (hpos : 0 < width) (hle : width ≤ 8) (word : UInt64) :
    (signExtend width word).toBitVec = (word.toBitVec.setWidth (8 * width)).signExtend 64 := by
  have hleft : ∀ width ≤ 8, 0 < width →
      UInt64.toBitVec (UInt64.ofNat (64 - 8 * width)) % 64 = BitVec.ofNat 64 (64 - 8 * width) := by
    decide
  have hright : ∀ width ≤ 8, 0 < width →
      (Int64.toBitVec (UInt64.toInt64 (UInt64.ofNat (64 - 8 * width)))).smod 64 =
        BitVec.ofNat 64 (64 - 8 * width) := by
    decide
  have hgap : (BitVec.ofNat 64 (64 - 8 * width)).toNat = 64 - 8 * width := by
    rw [BitVec.toNat_ofNat]
    omega
  rw [signExtend, Int64.toBitVec_toUInt64, Int64.toBitVec_shiftRight, UInt64.toBitVec_toInt64,
    UInt64.toBitVec_shiftLeft, hleft width hle hpos, hright width hle hpos]
  apply BitVec.eq_of_getLsbD_eq
  intro i hi
  rw [BitVec.getLsbD_sshiftRight', BitVec.shiftLeft_eq', hgap, BitVec.getLsbD_signExtend,
    BitVec.msb_setWidth, BitVec.msb_shiftLeft, BitVec.getLsbD_setWidth, BitVec.getLsbD_shiftLeft,
    BitVec.getMsbD]
  have hdown : 64 - 8 * width + i - (64 - 8 * width) = i := by omega
  have hsign : 64 - 1 - (64 - 8 * width) = 8 * width - 1 := by omega
  have hgapLt : 64 - 8 * width < 64 := by omega
  have hwidth : 0 < 8 * width := by omega
  by_cases hlow : i < 8 * width
  · have hsum : 64 - 8 * width + i < 64 := by omega
    have hinside : ¬64 ≤ i := by omega
    simp [hlow, hsum, hinside, hdown, hi]
  · have hsum : ¬64 - 8 * width + i < 64 := by omega
    have hinside : ¬64 ≤ i := by omega
    simp [hlow, hsum, hinside, hsign, hgapLt, hwidth, hi]

theorem signExtend_eight (word : UInt64) : signExtend 8 word = word := by
  apply UInt64.toBitVec_inj.1
  rw [toBitVec_signExtend (by decide) (by decide), BitVec.setWidth_eq, BitVec.signExtend_eq]

/-- Extending the sign of four bytes leaves the low half of the word alone. -/
theorem toUInt32_signExtend_four (word : UInt64) :
    (signExtend 4 word).toUInt32 = word.toUInt32 := by
  apply UInt32.toBitVec_inj.1
  rw [UInt64.toBitVec_toUInt32, toBitVec_signExtend (by decide) (by decide), UInt64.toBitVec_toUInt32]
  apply BitVec.eq_of_getLsbD_eq
  intro i hi
  have hi64 : i < 64 := by omega
  rw [BitVec.getLsbD_setWidth, BitVec.getLsbD_signExtend, BitVec.getLsbD_setWidth]
  simp [hi, hi64]

/-- The sign of a narrow integer is the sign of its low bytes. -/
theorem signExtend_four_ofNat (n : Nat) :
    signExtend 4 (UInt64.ofNat n) = (UInt32.ofNat n).toInt32.toInt64.toUInt64 := by
  apply UInt64.toBitVec_inj.1
  rw [toBitVec_signExtend (by decide) (by decide), UInt64.toBitVec_ofNat', Int64.toBitVec_toUInt64,
    Int32.toBitVec_toInt64, UInt32.toBitVec_toInt32, UInt32.toBitVec_ofNat',
    BitVec.setWidth_ofNat_of_le (by decide)]

/-- The word in four bytes does not change when it is extended to eight. -/
theorem toUInt64_word (row : Bytes) (offset : Nat) :
    (UInt32.ofNat (row.word offset 4)).toUInt64 = UInt64.ofNat (row.word offset 4) := by
  have hlt : row.word offset 4 < 2 ^ 32 := word_lt row offset rfl
  apply UInt64.toNat_inj.1
  rw [UInt32.toNat_toUInt64, UInt32.toNat_ofNat_of_lt' hlt,
    UInt64.toNat_ofNat_of_lt' (Nat.lt_trans hlt (by decide))]

theorem toUInt32_toUInt64_toInt64 (value : Int32) :
    value.toInt64.toUInt64.toUInt32 = value.toUInt32 := by
  apply UInt32.toBitVec_inj.1
  rw [UInt64.toBitVec_toUInt32, Int64.toBitVec_toUInt64, Int32.toBitVec_toInt64,
    Int32.toBitVec_toUInt32]
  apply BitVec.eq_of_getLsbD_eq
  intro i hi
  have hi64 : i < 64 := by omega
  rw [BitVec.getLsbD_setWidth, BitVec.getLsbD_signExtend]
  simp [hi, hi64]

end PrivateLift.Field
