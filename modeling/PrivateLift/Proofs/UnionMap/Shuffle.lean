import PrivateLift.Proofs.Party.Calls
import PrivateLift.Proofs.Permutation
import PrivateLift.Proofs.UnionMap.Positions

/-!
# Shuffled unions

`shuffleRows_valid`: a party draws one permutation of its rows, which depends on the number of rows
and the words only, and its union map numbers the real rows in the order of this permutation.
-/

namespace PrivateLift

namespace IndexMap

/-- The map numbers the rows that are not dummies in the order of a permutation of all rows. -/
structure UnionMapOf (dummyRows : List Bool) (permutation : List Nat) (map : IndexMap) : Prop where
  length_eq : map.length = dummyRows.length
  /-- Exactly the dummy rows have the entry -1. -/
  unset_iff : ∀ row < dummyRows.length, map[row]? = some unset ↔ dummyRows[row]? = some true
  /-- The other entries are `0, …, k - 1`, each once. -/
  set_perm : (map.filter (· ≠ unset)).Perm
    ((List.range (dummyRows.countP (!·))).map Int32.ofNat)
  /-- The other entries ascend along the permutation. -/
  ascending : (permutation.map fun row => map.getD row unset).filter (· ≠ unset) =
    (List.range (dummyRows.countP (!·))).map Int32.ofNat
  validate_eq : map.validate = .ok (dummyRows.countP (!·))

theorem unionMapOf_ofPermutation {dummyRows : List Bool} {permutation : List Nat}
    (hlen : dummyRows.length ≤ maxUnion)
    (hperm : permutation.Perm (List.range dummyRows.length)) :
    UnionMapOf dummyRows permutation (ofPermutation dummyRows permutation) := by
  have hpositions : dummyRows.countP (!·) ≤ maxUnion + 1 :=
    Nat.le_succ_of_le (Nat.le_trans List.countP_le_length hlen)
  have hnumbers := ofPermutation_numbers hpositions hperm
  have hcount := length_realRows hperm
  refine ⟨length_ofPermutation dummyRows permutation,
    fun _ hrow => ofPermutation_unset_iff hpositions hperm hrow, ?_, ?_, ?_⟩
  · rw [← hcount]
    exact hnumbers.filter_perm
  · have hfilter : (permutation.filter fun row =>
        decide ((ofPermutation dummyRows permutation).getD row unset ≠ unset)) =
        realRows dummyRows permutation := by
      apply List.filter_congr
      intro row hrow
      have hlt : row < dummyRows.length := List.mem_range.1 (hperm.mem_iff.1 hrow)
      rw [Bool.eq_iff_iff, decide_eq_true_eq, ne_eq, hnumbers.getD_eq_unset_iff,
        Classical.not_not, mem_realRows hperm, Bool.not_eq_true']
      exact and_iff_right hlt
    rw [List.filter_map, ← hcount, ← hnumbers.map_getD, ← hfilter]
    rfl
  · rw [← hcount]
    exact hnumbers.validate_ok

end IndexMap

open IndexMap PartyStep

theorem ends_shuffleRows {ε : Type} {dummyRows : List Bool} (h : dummyRows.length ≤ maxUnion)
    (s : WordStream) (calls : List (Call ε)) (o : Outcome (PartyError ε) (IndexMap × WordStream)) :
    Ends (shuffleRows dummyRows s) calls o ↔ calls = [] ∧ o = .ok (shuffled dummyRows s) := by
  rw [shuffleRows, if_neg (Nat.not_lt.2 h)]
  exact ends_note_bind.trans ends_pure

/-- Every index is drawn in range, so that the swaps give a permutation of all rows, which is the
same for all dummy flags. The shuffle ends with the union map of the real rows in its order. -/
theorem shuffleRows_valid {ε : Type} {n : Nat} (hn : n ≤ maxUnion) (s : WordStream) :
    ∃ (indices permutation : List Nat) (s' : WordStream),
      Permutation.drawIndices n {} s = (indices, s') ∧
      indices.length = n ∧
      (∀ i index : Nat, indices[i]? = some index → index ≤ i) ∧
      permutation = (Permutation.applySwaps indices (Array.range n)).toList ∧
      permutation.Perm (List.range n) ∧
      ∀ dummyRows : List Bool, dummyRows.length = n →
        ∃ map, UnionMapOf dummyRows permutation map ∧
          ∀ (calls : List (Call ε)) o,
            Ends (shuffleRows dummyRows s) calls o ↔ calls = [] ∧ o = .ok (map, s') := by
  refine ⟨(Permutation.drawIndices n {} s).1, (Permutation.random n s).1,
    (Permutation.drawIndices n {} s).2, rfl, Permutation.length_drawIndices n {} s,
    fun _ _ => Permutation.drawIndices_le, rfl, Permutation.random_perm n s, ?_⟩
  rintro dummyRows rfl
  exact ⟨(shuffled dummyRows s).1, unionMapOf_ofPermutation hn (Permutation.random_perm _ s),
    ends_shuffleRows hn s⟩

theorem shuffleRows_valid_two_dummies :
    5 ≤ maxUnion ∧ ∃ s',
      Permutation.drawIndices 5 {} (.cyclic #[0xb7e15162]) = ([0, 1, 0, 0, 1], s') ∧
      UnionMapOf [false, true, false, false, true] [3, 4, 0, 2, 1] [1, -1, 2, 0, -1] ∧
      Ends (ε := Unit) (shuffleRows [false, true, false, false, true] (.cyclic #[0xb7e15162])) []
        (.ok ([1, -1, 2, 0, -1], s')) := by
  obtain ⟨indices, permutation, s', hdraw, -, -, rfl, -, hmaps⟩ :=
    shuffleRows_valid (ε := Unit) (by decide : 5 ≤ maxUnion) (.cyclic #[0xb7e15162])
  obtain ⟨map, hmap, hends⟩ := hmaps [false, true, false, false, true] rfl
  have hindices : [0, 1, 0, 0, 1] = (Permutation.drawIndices 5 {} (.cyclic #[0xb7e15162])).1 := by
    decide
  have hmap' : [1, -1, 2, 0, -1] =
      (shuffled [false, true, false, false, true] (.cyclic #[0xb7e15162])).1 := by
    decide
  have hshuffled := ((hends [] _).1 ((ends_shuffleRows (by decide) _ _ _).2 ⟨rfl, rfl⟩)).2
  obtain rfl := hindices.trans (congrArg Prod.fst hdraw)
  obtain rfl := hmap'.trans (congrArg Prod.fst (Except.ok.inj hshuffled))
  exact ⟨by decide, s', hdraw, hmap, (hends [] _).2 ⟨rfl, rfl⟩⟩

end PrivateLift
