import Mathlib.Data.Nat.Factorial.Basic
import PrivateLift.Permutation

/-!
# The range of the drawn indices

The `i`-th index is at most `i`, whatever the words are (`drawIndices_le`). A chunk that still
covers `k` indices, the first of them below `n`, is below `n * (n + 1) * … * (n + k - 1)`, which is
`n.ascFactorial k`: it is drawn below this product, and an index takes away the first factor. When
one index is left, the chunk is below the bound of that index and may be taken as it is.
-/

namespace PrivateLift.Permutation

/-- The high half of the product is below the bound, and it is `bound - 1` only where the low half
is too small for a carry. -/
theorem drawBelow_lt {bound : Nat} (h : 0 < bound) (s : WordStream) :
    (drawBelow bound s).1 < bound := by
  have hword : (s.next.1.toNat + 1) * bound ≤ UInt32.size * bound :=
    Nat.mul_le_mul_right bound (UInt32.toNat_lt s.next.1)
  rw [Nat.succ_mul] at hword
  have hhalves := Nat.div_add_mod (s.next.1.toNat * bound) UInt32.size
  simp only [drawBelow, UInt32.size] at *
  split
  · dsimp only
    split <;> omega
  · dsimp only
    omega

theorem growProduct_eq (n steps : Nat) {factor : Nat} (h : n ≤ factor) :
    ∃ factor', factor ≤ factor' ∧ growProduct steps (n.ascFactorial (factor - n)) factor =
      (n.ascFactorial (factor' - n), factor') := by
  induction steps generalizing factor with
  | zero => exact ⟨factor, le_rfl, rfl⟩
  | succ steps ih =>
    have hnext : n.ascFactorial (factor - n) * factor = n.ascFactorial (factor + 1 - n) := by
      have hfactor : n + (factor - n) = factor := by omega
      rw [Nat.succ_sub h, Nat.ascFactorial_succ, hfactor, Nat.mul_comm]
    rw [growProduct, hnext]
    split
    · obtain ⟨factor', hle, heq⟩ := ih (Nat.le_succ_of_le h)
      exact ⟨factor', by omega, heq⟩
    · exact ⟨factor, le_rfl, rfl⟩

/-- A chunk is drawn below the product of the bounds of all indices that it covers. -/
theorem chunkBound_eq (n : Nat) :
    ∃ covered, 0 < covered ∧ chunkBound n = (n.ascFactorial covered, covered) := by
  have hone : n.ascFactorial (n + 1 - n) = n := by
    simp [Nat.ascFactorial_succ, Nat.ascFactorial_zero]
  obtain ⟨factor, hle, heq⟩ := growProduct_eq n 32 (Nat.le_succ n)
  rw [hone] at heq
  exact ⟨factor - n, by omega, by simp only [chunkBound, heq]⟩

namespace Draws

/-- The chunk is below the product of the bounds of the indices that it still covers. -/
def Bounded (d : Draws) : Prop := 0 < d.remaining → d.chunk < (d.count + 1).ascFactorial d.remaining

theorem bounded_start : Bounded {} := by
  intro _
  decide

/-- Splitting the next index off a chunk. -/
theorem split_chunk {n chunk left : Nat} (hn : 0 < n) (h : chunk < n.ascFactorial (left + 1)) :
    chunk % n < n ∧ chunk / n < (n + 1).ascFactorial left := by
  refine ⟨Nat.mod_lt _ hn, Nat.div_lt_of_lt_mul ?_⟩
  rwa [Nat.succ_ascFactorial, ← Nat.ascFactorial_succ]

theorem next_bounded {d : Draws} (h : d.Bounded) (s : WordStream) :
    (d.next s).1 ≤ d.count ∧ (d.next s).2.1.count = d.count + 1 ∧ (d.next s).2.1.Bounded := by
  -- Old or new, the chunk covers this index and `left` further ones.
  have hchunk : ∃ chunk left s', chunk < (d.count + 1).ascFactorial (left + 1) ∧
      d.next s = if left = 0 then (chunk, ⟨d.count + 1, chunk, 0⟩, s')
        else (chunk % (d.count + 1), ⟨d.count + 1, chunk / (d.count + 1), left⟩, s') := by
    by_cases hremaining : d.remaining = 0
    · obtain ⟨covered, hpos, hbound⟩ := chunkBound_eq (d.count + 1)
      refine ⟨_, covered - 1, _, ?_, by simp only [next, if_pos hremaining, hbound]; rfl⟩
      rw [Nat.sub_add_cancel hpos]
      exact drawBelow_lt (Nat.ascFactorial_pos _ _) s
    · have hpos := Nat.pos_of_ne_zero hremaining
      refine ⟨d.chunk, d.remaining - 1, s, ?_, by simp only [next, if_neg hremaining]⟩
      rw [Nat.sub_add_cancel hpos]
      exact h hpos
  obtain ⟨chunk, left, s', hlt, heq⟩ := hchunk
  rw [heq]
  split
  next hleft =>
    subst hleft
    rw [Nat.ascFactorial_succ, Nat.ascFactorial_zero, Nat.mul_one] at hlt
    exact ⟨Nat.lt_succ_iff.1 hlt, rfl, fun hpos => absurd hpos (Nat.lt_irrefl 0)⟩
  next =>
    obtain ⟨hindex, hrest⟩ := split_chunk (Nat.succ_pos _) hlt
    exact ⟨Nat.lt_succ_iff.1 hindex, rfl, fun _ => hrest⟩

end Draws

@[simp] theorem length_drawIndices (n : Nat) (d : Draws) (s : WordStream) :
    (drawIndices n d s).1.length = n := by
  induction n generalizing d s with
  | zero => rfl
  | succ n ih => exact congrArg (· + 1) (ih _ _)

theorem drawIndices_le_of_bounded (n : Nat) {d : Draws} (h : d.Bounded) (s : WordStream)
    {i index : Nat} (hindex : (drawIndices n d s).1[i]? = some index) : index ≤ d.count + i := by
  induction n generalizing d s i with
  | zero => cases hindex
  | succ n ih =>
    obtain ⟨hle, hcount, hbounded⟩ := d.next_bounded h s
    cases i with
    | zero =>
      obtain rfl : (d.next s).1 = index := Option.some.inj hindex
      exact hle
    | succ i =>
      have := ih hbounded _ hindex
      omega

/-- The index drawn for a position is at most the position. -/
theorem drawIndices_le {n : Nat} {s : WordStream} {i index : Nat}
    (hindex : (drawIndices n {} s).1[i]? = some index) : index ≤ i := by
  have := drawIndices_le_of_bounded n Draws.bounded_start s hindex
  rwa [Nat.zero_add] at this

end PrivateLift.Permutation
