import PrivateLift.BitMatrix.Transpose
import PrivateLift.Proofs.BitMatrix.Storage

/-!
# The block transposition transposes

A column of a block is the string of the bits that its sixteen bytes have at one position
(`Block.testBit_column`). Every stored byte of the result is one half of such a column, which makes
`bit_transposeStorage` a computation with positions. The result has as many bytes as the transposed
dimensions demand, whatever the storage was, and is well-formed if the matrix was
(`wellFormed_transpose`).
-/

namespace PrivateLift

/-! ## Blocks -/

namespace Block

theorem topBits_fold (word : UInt64) (n : Nat) :
    (List.range n).foldl
        (fun bits i => if word.toNat.testBit (8 * i + 7) then bits + 1 <<< i else bits) 0 < 2 ^ n ∧
      ∀ i, ((List.range n).foldl
        (fun bits i => if word.toNat.testBit (8 * i + 7) then bits + 1 <<< i else bits) 0).testBit i =
          (decide (i < n) && word.toNat.testBit (8 * i + 7)) := by
  induction n with
  | zero => simp
  | succ n ih =>
    obtain ⟨hlt, hbit⟩ := ih
    rw [List.range_succ, List.foldl_append]
    simp only [List.foldl_cons, List.foldl_nil]
    generalize (List.range n).foldl
      (fun bits i => if word.toNat.testBit (8 * i + 7) then bits + 1 <<< i else bits) 0 = bits at *
    by_cases htop : word.toNat.testBit (8 * n + 7) = true
    · -- The new top bit is set above all collected ones.
      have hsum : bits + 1 <<< n = 2 ^ n * 1 + bits := by
        rw [Nat.one_shiftLeft, Nat.mul_one, Nat.add_comm]
      rw [if_pos htop, hsum]
      refine ⟨by rw [Nat.pow_succ]; omega, ?_⟩
      intro i
      rw [Nat.testBit_two_pow_mul_add _ hlt]
      by_cases hi : i < n
      · have hi' : i < n + 1 := by omega
        simp [hi, hi', hbit]
      · by_cases heq : i = n
        · subst heq
          simp [htop]
        · have hi' : ¬i < n + 1 := by omega
          have hone : Nat.testBit 1 (i - n) = false := by
            rw [Bool.eq_false_iff, ne_eq, Nat.testBit_one_eq_true_iff_self_eq_zero]
            omega
          simp [hi, hi', hone]
    · rw [if_neg htop]
      refine ⟨by rw [Nat.pow_succ]; omega, ?_⟩
      intro i
      rw [hbit]
      by_cases heq : i = n
      · subst heq
        simp [htop]
      · have hiff : decide (i < n) = decide (i < n + 1) := by
          rw [decide_eq_decide]
          omega
        rw [hiff]

theorem topBits_lt (word : UInt64) : topBits word < 256 := (topBits_fold word 8).1

theorem testBit_topBits (word : UInt64) (i : Nat) :
    (topBits word).testBit i = (decide (i < 8) && word.toNat.testBit (8 * i + 7)) :=
  (topBits_fold word 8).2 i

theorem testBit_moveMask (b : Block) {i : Nat} (hi : i < 16) :
    b.moveMask.toNat.testBit i =
      if i < 8 then b.lo.toNat.testBit (8 * i + 7) else b.hi.toNat.testBit (8 * (i - 8) + 7) := by
  have hlo := topBits_lt b.lo
  have hhi := topBits_lt b.hi
  have hnat : b.moveMask.toNat = 2 ^ 8 * topBits b.hi + topBits b.lo := by
    rw [moveMask, UInt16.toNat_ofNat']
    omega
  rw [hnat, Nat.testBit_two_pow_mul_add _ hlo]
  by_cases h8 : i < 8
  · simp [h8, testBit_topBits]
  · have hsub : i - 8 < 8 := by omega
    simp [h8, testBit_topBits, hsub]

theorem testBit_shiftLeft_one (word : UInt64) {j : Nat} (hj : j < 63) :
    (word <<< 1).toNat.testBit (j + 1) = word.toNat.testBit j := by
  have hj64 : j + 1 < 64 := by omega
  have hone : UInt64.toNat 1 % 64 = 1 := by decide
  rw [UInt64.toNat_shiftLeft, hone, Nat.testBit_mod_two_pow, Nat.testBit_shiftLeft]
  simp [hj64]

theorem testBit_shiftLeftBy (b : Block) (k : Nat) {j : Nat} (hj : j + k < 64) :
    (b.shiftLeftBy k).lo.toNat.testBit (j + k) = b.lo.toNat.testBit j ∧
      (b.shiftLeftBy k).hi.toNat.testBit (j + k) = b.hi.toNat.testBit j := by
  induction k with
  | zero => exact ⟨rfl, rfl⟩
  | succ k ih =>
    obtain ⟨hlo, hhi⟩ := ih (by omega)
    have hstep : j + k < 63 := by omega
    exact ⟨(testBit_shiftLeft_one _ hstep).trans hlo, (testBit_shiftLeft_one _ hstep).trans hhi⟩

theorem testBit_ofBytes_lo (bytes : Bytes) {j : Nat} (hj : j < 64) :
    (ofBytes bytes).lo.toNat.testBit j = Bytes.bit bytes j := by
  rw [ofBytes, UInt64.toNat_ofNat', Nat.testBit_mod_two_pow, Bytes.testBit_toNat, Bytes.bit_take]
  simp [hj]

theorem testBit_ofBytes_hi (bytes : Bytes) {j : Nat} (hj : j < 64) :
    (ofBytes bytes).hi.toNat.testBit j = Bytes.bit bytes (64 + j) := by
  rw [ofBytes, UInt64.toNat_ofNat', Nat.testBit_mod_two_pow, Bytes.testBit_toNat, Bytes.bit_take,
    Bytes.bit_drop]
  simp [hj]

/-- A column collects the bits at one position of the sixteen bytes. -/
theorem testBit_column (bytes : Bytes) {c i : Nat} (hc : c < 8) (hi : i < 16) :
    ((ofBytes bytes).column c).toNat.testBit i = Bytes.bit bytes (8 * i + c) := by
  rw [column, testBit_moveMask _ hi]
  by_cases h8 : i < 8
  · have hmove : 8 * i + 7 = 8 * i + c + (7 - c) := by omega
    rw [if_pos h8, hmove, (testBit_shiftLeftBy _ _ (by omega)).1,
      testBit_ofBytes_lo _ (by omega)]
  · have hmove : 8 * (i - 8) + 7 = 8 * (i - 8) + c + (7 - c) := by omega
    have hback : 64 + (8 * (i - 8) + c) = 8 * i + c := by omega
    rw [if_neg h8, hmove, (testBit_shiftLeftBy _ _ (by omega)).2,
      testBit_ofBytes_hi _ (by omega), hback]

end Block

/-! ## Storage -/

namespace BitMatrix

theorem bit_loadBlock (data : Bytes) (stride r c : Nat) {i k : Nat} (hi : i < 16) (hk : k < 8) :
    ((loadBlock data.toArray stride r c).column k).toNat.testBit i =
      Bytes.bit data (8 * ((16 * r + i) * stride) + 8 * c + k) := by
  have hdiv : (8 * i + k) / 8 = i := by omega
  have hmod : (8 * i + k) % 8 = k := by omega
  have hdiv' : (8 * ((16 * r + i) * stride) + 8 * c + k) / 8 = (16 * r + i) * stride + c := by omega
  have hmod' : (8 * ((16 * r + i) * stride) + 8 * c + k) % 8 = k := by omega
  rw [loadBlock, Block.testBit_column _ hk hi, Bytes.bit, Bytes.bit, hdiv, hmod, hdiv', hmod']
  simp [List.getD_eq_getElem?_getD, hi]

theorem loadBlocks_getD (data : Bytes) (rows cols r c : Nat) (hr : r < rows / 16)
    (hc : c < cols / 8) :
    (loadBlocks data rows cols).toArray.getD (r * (cols / 8) + c) default =
      loadBlock data.toArray (cols / 8) r c := by
  have hpos : 0 < cols / 8 := by omega
  have hlt : r * (cols / 8) + c < rows / 16 * (cols / 8) := by
    have := Nat.mul_le_mul_right (cols / 8) (Nat.succ_le_of_lt hr)
    rw [Nat.succ_mul] at this
    omega
  have hdiv : (r * (cols / 8) + c) / (cols / 8) = r := by
    rw [Nat.mul_comm, Nat.mul_add_div hpos, Nat.div_eq_of_lt hc, Nat.add_zero]
  have hmod : (r * (cols / 8) + c) % (cols / 8) = c := by
    rw [Nat.mul_comm, Nat.mul_add_mod, Nat.mod_eq_of_lt hc]
  simp [loadBlocks, Array.getD_eq_getD_getElem?, hlt, hdiv, hmod]

@[simp] theorem length_transposeStorage (data : Bytes) (rows cols : Nat) :
    (transposeStorage data rows cols).length = cols * (rows / 8) := by
  simp [transposeStorage]

/-- Byte `k` of row `c` of the transposed storage is one half of a column of a block. -/
theorem getElem?_transposeStorage (data : Bytes) {rows cols c k : Nat} (hrows : rows % 16 = 0)
    (hcols : cols % 16 = 0) (hc : c < cols) (hk : k < rows / 8) :
    (transposeStorage data rows cols)[c * (rows / 8) + k]? =
      some (if k % 2 = 0 then
          ((loadBlock data.toArray (cols / 8) (k / 2) (c / 8)).column (c % 8)).toUInt8
        else ((loadBlock data.toArray (cols / 8) (k / 2) (c / 8)).column (c % 8) >>> 8).toUInt8) := by
  have hpos : 0 < rows / 8 := by omega
  have hlt : c * (rows / 8) + k < cols * (rows / 8) := by
    have := Nat.mul_le_mul_right (rows / 8) (Nat.succ_le_of_lt hc)
    rw [Nat.succ_mul] at this
    omega
  have hrow : (c * (rows / 8) + k) / (rows / 8) = c := by
    rw [Nat.mul_comm, Nat.mul_add_div hpos, Nat.div_eq_of_lt hk, Nat.add_zero]
  have hbyte : (c * (rows / 8) + k) % (rows / 8) = k := by
    rw [Nat.mul_comm, Nat.mul_add_mod, Nat.mod_eq_of_lt hk]
  have hblock := loadBlocks_getD data rows cols (k / 2) (c / 8) (by omega) (by omega)
  simp only [transposeStorage, List.getElem?_map, List.getElem?_range hlt, Option.map_some, hrow,
    hbyte, hblock]

/-- The bit at row `c` and position `r` of the transposed storage is the one at row `r` and position
`c` of the storage. -/
theorem bit_transposeStorage (data : Bytes) {rows cols r c : Nat} (hrows : rows % 16 = 0)
    (hcols : cols % 16 = 0) (hr : r < rows) (hc : c < cols) :
    Bytes.bit (transposeStorage data rows cols) (8 * (c * (rows / 8)) + r) =
      Bytes.bit data (8 * (r * (cols / 8)) + c) := by
  have hdiv : (8 * (c * (rows / 8)) + r) / 8 = c * (rows / 8) + r / 8 := by omega
  have hmod : (8 * (c * (rows / 8)) + r) % 8 = r % 8 := by omega
  have hstored := getElem?_transposeStorage data (k := r / 8) hrows hcols hc (by omega)
  -- Bit `r % 16` of the column is the bit of row `r`; the two bytes of the column are its halves.
  have hcolumn : ((loadBlock data.toArray (cols / 8) (r / 8 / 2) (c / 8)).column (c % 8)).toNat.testBit
      (r % 16) = Bytes.bit data (8 * (r * (cols / 8)) + c) := by
    have hsum : 16 * (r / 8 / 2) + r % 16 = r := by omega
    have hpos' : 8 * (r * (cols / 8)) + 8 * (c / 8) + c % 8 = 8 * (r * (cols / 8)) + c := by omega
    rw [bit_loadBlock data _ _ _ (by omega) (by omega), hsum, hpos']
  rw [Bytes.bit, hdiv, hmod, ← hcolumn, List.getD_eq_getElem?_getD, hstored, Option.getD_some]
  have h8 : r % 8 < 8 := by omega
  by_cases heven : r / 8 % 2 = 0
  · have hhalf : r % 16 = r % 8 := by omega
    rw [if_pos heven, hhalf, UInt16.toNat_toUInt8, Nat.testBit_mod_two_pow]
    simp [h8]
  · have hhalf : r % 16 = 8 + r % 8 := by omega
    have height : UInt16.toNat 8 % 16 = 8 := by decide
    rw [if_neg heven, hhalf, UInt16.toNat_toUInt8, Nat.testBit_mod_two_pow,
      UInt16.toNat_shiftRight, height, Nat.testBit_shiftRight]
    simp [h8]

/-! ## Matrices -/

theorem length_transpose (m : BitMatrix) :
    m.transpose.data.length = storageSize m.transpose.rows m.transpose.cols := by
  rw [storageSize_eq]
  exact length_transposeStorage _ _ _

theorem bit_transpose (m : BitMatrix) {r c : Nat} (hr : r < padded m.rows)
    (hc : c < padded m.cols) : m.transpose.bit c r = m.bit r c := by
  rw [bit_eq, bit_eq]
  exact bit_transposeStorage m.data (padded_mod _) (padded_mod _) hr hc

theorem wellFormed_transpose {m : BitMatrix} (h : m.WellFormed) : m.transpose.WellFormed := by
  refine ⟨length_transpose m, ?_⟩
  intro c hc r hr houtside
  rw [bit_transpose m hr hc]
  exact h.bit_outside r hr c hc houtside.symm

end BitMatrix

end PrivateLift
