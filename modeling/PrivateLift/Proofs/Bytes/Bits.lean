import PrivateLift.Bytes.Lemmas

/-!
# Byte strings as strings of bits

Every layout of this library is described by bits: a field occupies some bits of a row, a matrix
stores its cells as bits. `testBit_toNat` ties the bits of a byte string to its number, `ext_bit`
says that they determine the string, and the other lemmas say what the operations on byte strings
do to them. A `word` is the number in a few consecutive bytes of a string.
-/

namespace PrivateLift.Bytes

theorem bit_of_length_le {bs : Bytes} {k : Nat} (h : 8 * bs.length ≤ k) : bit bs k = false := by
  have hk : bs.length ≤ k / 8 := by omega
  simp [bit, List.getD_eq_getElem?_getD, List.getElem?_eq_none hk]

theorem testBit_byte_of_le (b : UInt8) {k : Nat} (h : 8 ≤ k) : b.toNat.testBit k = false :=
  Nat.testBit_lt_two_pow (Nat.lt_of_lt_of_le b.toNat_lt (Nat.pow_le_pow_right (by decide) h))

/-- The bits of a byte string are the binary digits of its number. -/
theorem testBit_toNat (bs : Bytes) (k : Nat) : (toNat bs).testBit k = bit bs k := by
  induction bs generalizing k with
  | nil => simp [toNat, bit]
  | cons b bs ih =>
    have hb : b.toNat < 2 ^ 8 := b.toNat_lt
    have hsplit : toNat (b :: bs) = 2 ^ 8 * toNat bs + b.toNat := by
      simp only [toNat]; omega
    rw [hsplit, Nat.testBit_two_pow_mul_add _ hb]
    by_cases hk : k < 8
    · have h0 : k / 8 = 0 := by omega
      have h1 : k % 8 = k := by omega
      simp [hk, bit, h0, h1]
    · have h0 : k / 8 = (k - 8) / 8 + 1 := by omega
      have h1 : k % 8 = (k - 8) % 8 := by omega
      rw [ih]
      simp [hk, bit, h0, h1]

/-- Byte strings of one length are equal if their bits are. -/
theorem ext_bit {a b : Bytes} (hlen : a.length = b.length)
    (h : ∀ k < 8 * a.length, bit a k = bit b k) : a = b := by
  have hnat : toNat a = toNat b := by
    apply Nat.eq_of_testBit_eq
    intro k
    rw [testBit_toNat, testBit_toNat]
    by_cases hk : k < 8 * a.length
    · exact h k hk
    · rw [bit_of_length_le (by omega), bit_of_length_le (by omega)]
  rw [← ofNat_toNat a, ← ofNat_toNat b, hlen, hnat]

theorem bit_drop (bs : Bytes) (n k : Nat) : bit (bs.drop n) k = bit bs (8 * n + k) := by
  have h0 : (8 * n + k) / 8 = n + k / 8 := by omega
  have h1 : (8 * n + k) % 8 = k % 8 := by omega
  simp [bit, List.getD_eq_getElem?_getD, h0, h1]

theorem bit_take (bs : Bytes) (n k : Nat) :
    bit (bs.take n) k = (decide (k < 8 * n) && bit bs k) := by
  by_cases hk : k < 8 * n
  · have h0 : k / 8 < n := by omega
    simp [bit, List.getD_eq_getElem?_getD, h0, hk]
  · have h0 : ¬ k / 8 < n := by omega
    simp [bit, List.getD_eq_getElem?_getD, h0, hk]

theorem bit_append (a b : Bytes) (k : Nat) :
    bit (a ++ b) k = if k < 8 * a.length then bit a k else bit b (k - 8 * a.length) := by
  by_cases hk : k < 8 * a.length
  · have h0 : k / 8 < a.length := by omega
    simp [bit, List.getD_eq_getElem?_getD, List.getElem?_append_left h0, hk]
  · have h0 : a.length ≤ k / 8 := by omega
    have h1 : (k - 8 * a.length) / 8 = k / 8 - a.length := by omega
    have h2 : (k - 8 * a.length) % 8 = k % 8 := by omega
    simp [bit, List.getD_eq_getElem?_getD, List.getElem?_append_right h0, hk, h1, h2]

@[simp] theorem bit_replicate_zero (n k : Nat) : bit (List.replicate n 0) k = false := by
  by_cases hk : k / 8 < n <;> simp [bit, List.getD_eq_getElem?_getD, hk]

theorem bit_ofNat (width n k : Nat) :
    bit (ofNat width n) k = (decide (k < 8 * width) && n.testBit k) := by
  have h256 : 256 ^ width = 2 ^ (8 * width) := by rw [Nat.pow_mul]
  rw [← testBit_toNat, toNat_ofNat, h256, Nat.testBit_mod_two_pow]

@[simp] theorem length_xor (a b : Bytes) : (xor a b).length = min a.length b.length := by
  simp [xor]

theorem xor_comm (a b : Bytes) : xor a b = xor b a :=
  List.zipWith_comm_of_comm UInt8.xor_comm

theorem bit_xor {a b : Bytes} (hlen : a.length = b.length) (k : Nat) :
    bit (xor a b) k = (bit a k ^^ bit b k) := by
  by_cases hk : k / 8 < a.length
  · have hb : k / 8 < b.length := by omega
    simp [bit, xor, List.getD_eq_getElem?_getD, hk, hb]
  · have ha : a.length ≤ k / 8 := by omega
    have hb : b.length ≤ k / 8 := by omega
    simp [bit, xor, List.getD_eq_getElem?_getD, List.getElem?_zipWith, List.getElem?_eq_none ha,
      List.getElem?_eq_none hb]

theorem bit_set (bs : Bytes) {i : Nat} (h : i < bs.length) (b : UInt8) (k : Nat) :
    bit (bs.set i b) k = if k / 8 = i then b.toNat.testBit (k % 8) else bit bs k := by
  by_cases hk : k / 8 = i
  · subst hk
    simp [bit, List.getD_eq_getElem?_getD, h]
  · have hne : i ≠ k / 8 := fun e => hk e.symm
    simp [bit, List.getD_eq_getElem?_getD, hk, List.getElem?_set_ne hne]

theorem bit_modify (bs : Bytes) {i : Nat} (h : i < bs.length) (f : UInt8 → UInt8) (k : Nat) :
    bit (bs.modify i f) k =
      if k / 8 = i then (f (bs.getD i 0)).toNat.testBit (k % 8) else bit bs k := by
  have hset : bs.modify i f = bs.set i (f (bs.getD i 0)) := by
    rw [List.modify_eq_set, List.getD_eq_getElem?_getD]
    rfl
  rw [hset, bit_set bs h]

theorem testBit_getD (bs : Bytes) (i : Nat) {k : Nat} (h : k < 8) :
    (bs.getD i 0).toNat.testBit k = bit bs (8 * i + k) := by
  have h0 : (8 * i + k) / 8 = i := by omega
  have h1 : (8 * i + k) % 8 = k := by omega
  rw [bit, h0, h1]

/-! ## Words -/

/-- The number in `width` bytes of a string from byte `offset` on. -/
def word (bs : Bytes) (offset width : Nat) : Nat := toNat ((bs.drop offset).take width)

theorem testBit_word (bs : Bytes) (offset width j : Nat) :
    (bs.word offset width).testBit j = (decide (j < 8 * width) && bit bs (8 * offset + j)) := by
  rw [word, testBit_toNat, bit_take, bit_drop]

/-- A word is determined by its own bits. -/
theorem word_eq_of_bit {bs : Bytes} {offset width n : Nat}
    (h : ∀ j < 8 * width, bit bs (8 * offset + j) = n.testBit j) :
    bs.word offset width = n % 256 ^ width := by
  have h256 : 256 ^ width = 2 ^ (8 * width) := by rw [Nat.pow_mul]
  apply Nat.eq_of_testBit_eq
  intro j
  rw [testBit_word, h256, Nat.testBit_mod_two_pow]
  by_cases hj : j < 8 * width
  · rw [h j hj]
  · simp [hj]

theorem word_congr {a b : Bytes} {offset width : Nat}
    (h : ∀ j < 8 * width, bit a (8 * offset + j) = bit b (8 * offset + j)) :
    a.word offset width = b.word offset width := by
  apply Nat.eq_of_testBit_eq
  intro j
  rw [testBit_word, testBit_word]
  by_cases hj : j < 8 * width
  · rw [h j hj]
  · simp [hj]

theorem word_xor {a b : Bytes} (hlen : a.length = b.length) (offset width : Nat) :
    (xor a b).word offset width = a.word offset width ^^^ b.word offset width := by
  apply Nat.eq_of_testBit_eq
  intro j
  rw [testBit_word, Nat.testBit_xor, testBit_word, testBit_word, bit_xor hlen]
  cases decide (j < 8 * width) <;> simp

theorem word_lt (bs : Bytes) (offset : Nat) {width exponent : Nat} (hwidth : 8 * width = exponent) :
    bs.word offset width < 2 ^ exponent := by
  apply Nat.lt_pow_two_of_testBit
  intro j hj
  have hle : ¬j < 8 * width := by omega
  simp [testBit_word, hle]

/-- A word tells its bits. -/
theorem bit_eq_of_word {a b : Bytes} {offset width : Nat}
    (h : a.word offset width = b.word offset width) {k : Nat} (hle : 8 * offset ≤ k)
    (hlt : k < 8 * (offset + width)) : a.bit k = b.bit k := by
  have hj : k - 8 * offset < 8 * width := by omega
  have hk : 8 * offset + (k - 8 * offset) = k := by omega
  have hbit := congrArg (Nat.testBit · (k - 8 * offset)) h
  simpa [testBit_word, hj, hk] using hbit

theorem word_eq_of_uint32 {a b : Bytes} {offset : Nat}
    (h : UInt32.ofNat (a.word offset 4) = UInt32.ofNat (b.word offset 4)) :
    a.word offset 4 = b.word offset 4 := by
  have hnat := congrArg UInt32.toNat h
  rwa [UInt32.toNat_ofNat_of_lt' (word_lt a offset rfl),
    UInt32.toNat_ofNat_of_lt' (word_lt b offset rfl)] at hnat

theorem word_eq_of_uint64 {a b : Bytes} {offset : Nat}
    (h : UInt64.ofNat (a.word offset 8) = UInt64.ofNat (b.word offset 8)) :
    a.word offset 8 = b.word offset 8 := by
  have hnat := congrArg UInt64.toNat h
  rwa [UInt64.toNat_ofNat_of_lt' (word_lt a offset rfl),
    UInt64.toNat_ofNat_of_lt' (word_lt b offset rfl)] at hnat

end PrivateLift.Bytes
