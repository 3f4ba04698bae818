import Mathlib.Data.List.Permutation
import Mathlib.Probability.Distributions.Uniform
import PrivateLift.Proofs.UnionMap.Positions

/-!
# Union maps without bias

A shuffled union map keeps of the order of all rows only the order of the real ones. Two orders of
the real rows are kept of equally many orders of all rows: exchanging the members of one for those
of the other, place by place, is a one-to-one map between them (`relabel`, `card_ordersAlong_mul`).
With `n` rows, `k` of them real, these are `n! / k!` orders of all rows for each of the `k!` orders
of the real rows, and a uniform order of all rows gives a uniform union map
(`ofPermutation_unbiased`).
-/

namespace PrivateLift

/-! ## Orders that agree on a part of a list -/

section Orders

variable {α : Type} [DecidableEq α] {l source target : List α}

/-- Replaces every member of `source` by the member of `target` at the same place. -/
def relabel (source target : List α) (x : α) : α :=
  if x ∈ source then target.getD (source.idxOf x) x else x

theorem relabel_of_notMem {x : α} (h : x ∉ source) : relabel source target x = x := if_neg h

theorem relabel_getElem (hnodup : source.Nodup) (hlen : source.length = target.length) {i : Nat}
    (hi : i < source.length) : relabel source target source[i] = target[i] := by
  rw [relabel, if_pos (List.getElem_mem hi), hnodup.idxOf_getElem i hi,
    List.getD_eq_getElem _ _ (hlen ▸ hi)]

theorem map_relabel (hnodup : source.Nodup) (hlen : source.length = target.length) :
    source.map (relabel source target) = target := by
  apply List.ext_getElem
  · rw [List.length_map, hlen]
  intro i hi _
  rw [List.length_map] at hi
  rw [List.getElem_map, relabel_getElem hnodup hlen hi]

theorem relabel_mem (hnodup : source.Nodup) (hperm : source.Perm target) {x : α} :
    relabel source target x ∈ source ↔ x ∈ source := by
  constructor
  · intro h
    by_contra hx
    rw [relabel_of_notMem hx] at h
    exact hx h
  · intro h
    have hmap := List.mem_map_of_mem (f := relabel source target) h
    rw [map_relabel hnodup hperm.length_eq] at hmap
    exact hperm.mem_iff.2 hmap

theorem relabel_injective (hnodup : source.Nodup) (hperm : source.Perm target) :
    Function.Injective (relabel source target) := by
  intro x y hxy
  by_cases hx : x ∈ source
  · have hy : y ∈ source := (relabel_mem hnodup hperm).1 (hxy ▸ (relabel_mem hnodup hperm).2 hx)
    have hinj := List.inj_on_of_nodup_map (f := relabel source target) (l := source)
      (by rw [map_relabel hnodup hperm.length_eq]; exact hperm.nodup_iff.1 hnodup)
    exact hinj hx hy hxy
  · have hy : y ∉ source := fun hy =>
      hx ((relabel_mem hnodup hperm).1 (hxy ▸ (relabel_mem hnodup hperm).2 hy))
    rwa [relabel_of_notMem hx, relabel_of_notMem hy] at hxy

/-- The orders of a list. -/
def orders (l : List α) : Finset (List α) := l.permutations.toFinset

theorem mem_orders {order : List α} : order ∈ orders l ↔ order.Perm l := by
  rw [orders, List.mem_toFinset, List.mem_permutations]

theorem card_orders (hl : l.Nodup) : (orders l).card = l.length.factorial := by
  rw [orders, List.toFinset_card_of_nodup (List.nodup_permutations l hl), List.length_permutations]

theorem orders_nonempty (l : List α) : (orders l).Nonempty :=
  ⟨l, mem_orders.2 (List.Perm.refl l)⟩

/-- The orders of a list in which the chosen members stand in the order `part`. -/
def ordersAlong (l : List α) (p : α → Bool) (part : List α) : Finset (List α) :=
  (orders l).filter fun order => order.filter p = part

theorem card_ordersAlong_le (hl : l.Nodup) {p : α → Bool} (hsource : source.Perm (l.filter p))
    (htarget : target.Perm (l.filter p)) :
    (ordersAlong l p source).card ≤ (ordersAlong l p target).card := by
  have hnodup : source.Nodup := hsource.nodup_iff.2 (hl.filter p)
  have hperm : source.Perm target := hsource.trans htarget.symm
  have hinj := relabel_injective hnodup hperm
  have hmem : ∀ x, x ∈ source ↔ x ∈ l ∧ p x = true := fun x => by
    rw [hsource.mem_iff, List.mem_filter]
  refine Finset.card_le_card_of_injOn (List.map (relabel source target)) ?_
    (hinj.list_map.injOn)
  intro order horder
  rw [Finset.mem_coe, ordersAlong, Finset.mem_filter, mem_orders] at horder ⊢
  obtain ⟨horder, hpart⟩ := horder
  constructor
  · have hsub : order.map (relabel source target) ⊆ l := by
      intro y hy
      obtain ⟨x, hx, rfl⟩ := List.mem_map.1 hy
      by_cases hxs : x ∈ source
      · exact ((hmem _).1 ((relabel_mem hnodup hperm).2 hxs)).1
      · rw [relabel_of_notMem hxs]
        exact horder.mem_iff.1 hx
    have hnodup' := (horder.nodup_iff.2 hl).map hinj
    refine (List.subperm_of_subset hnodup' hsub).perm_of_length_le ?_
    rw [List.length_map, horder.length_eq]
  · -- The members that are not chosen stay where they are.
    have hkeep : ∀ x ∈ order, (p ∘ relabel source target) x = p x := by
      intro x hx
      have hxl := horder.mem_iff.1 hx
      by_cases hxs : x ∈ source
      · rw [((hmem x).1 hxs).2]
        exact ((hmem _).1 ((relabel_mem hnodup hperm).2 hxs)).2
      · rw [Function.comp_apply, relabel_of_notMem hxs]
    rw [List.filter_map, List.filter_congr hkeep, hpart, map_relabel hnodup hperm.length_eq]

/-- All orders of the chosen members are taken by equally many orders of the list. -/
theorem card_ordersAlong_mul (hl : l.Nodup) {p : α → Bool} {part : List α}
    (hpart : part.Perm (l.filter p)) :
    (ordersAlong l p part).card * part.length.factorial = l.length.factorial := by
  have hsame : ∀ part' ∈ orders (l.filter p),
      (ordersAlong l p part').card = (ordersAlong l p part).card := fun part' hpart' =>
    Nat.le_antisymm (card_ordersAlong_le hl (mem_orders.1 hpart') hpart)
      (card_ordersAlong_le hl hpart (mem_orders.1 hpart'))
  have hmaps : Set.MapsTo (List.filter p) (orders l : Set (List α)) (orders (l.filter p)) :=
    fun order horder => mem_orders.2 ((mem_orders.1 horder).filter p)
  calc (ordersAlong l p part).card * part.length.factorial
      = (orders (l.filter p)).card * (ordersAlong l p part).card := by
        rw [card_orders (hl.filter p), hpart.length_eq, Nat.mul_comm]
    _ = ∑ part' ∈ orders (l.filter p), (ordersAlong l p part').card :=
        (Finset.sum_const_nat hsame).symm
    _ = (orders l).card := (Finset.card_eq_sum_card_fiberwise hmaps).symm
    _ = l.length.factorial := card_orders hl

end Orders

/-! ## Union maps -/

namespace IndexMap

/-- The map is -1 exactly at the dummy rows, and its other entries are `0, …, k - 1`, each once. -/
structure OrdersReal (dummyRows : List Bool) (map : IndexMap) : Prop where
  length_eq : map.length = dummyRows.length
  unset_iff : ∀ row < dummyRows.length, map[row]? = some unset ↔ dummyRows[row]? = some true
  set_perm : ((map.filter (· ≠ unset)).map Int32.toInt).Perm
    ((List.range (dummyRows.countP (!·))).map Int.ofNat)

variable {dummyRows : List Bool} {map : IndexMap} {permutation : List Nat}

namespace OrdersReal

/-- The entries of such a map leave no room for more real rows. -/
theorem count_le (h : OrdersReal dummyRows map) : dummyRows.countP (!·) ≤ maxUnion + 1 := by
  cases hk : dummyRows.countP (!·) with
  | zero => exact Nat.zero_le _
  | succ p =>
    have hmem : Int.ofNat p ∈ (map.filter (· ≠ unset)).map Int32.toInt :=
      h.set_perm.mem_iff.2 (List.mem_map_of_mem (List.mem_range.2 (by omega)))
    obtain ⟨entry, -, hentry⟩ := List.mem_map.1 hmem
    have hlt := entry.toInt_lt
    rw [hentry, Int.ofNat_eq_natCast] at hlt
    rw [maxUnion]
    omega

theorem filter_perm (h : OrdersReal dummyRows map) :
    (map.filter (· ≠ unset)).Perm ((List.range (dummyRows.countP (!·))).map Int32.ofNat) := by
  refine (List.map_perm_map_iff (f := Int32.toInt) fun _ _ => Int32.toInt_inj.1).1 ?_
  rw [map_toInt_ofNat h.count_le]
  exact h.set_perm

theorem numbers (h : OrdersReal dummyRows map) :
    Numbers map (byPosition map (dummyRows.countP (!·))) := by
  refine numbers_byPosition (fun p hp => ?_) h.count_le ?_
  · have hmem := h.filter_perm.mem_iff.2 (List.mem_map_of_mem (List.mem_range.2 hp))
    exact List.mem_of_mem_filter hmem
  · rw [← setCount_eq, setCount, List.countP_eq_length_filter, h.filter_perm.length_eq,
      List.length_map, List.length_range]

theorem byPosition_perm (h : OrdersReal dummyRows map) :
    (byPosition map (dummyRows.countP (!·))).Perm
      (realRows dummyRows (List.range dummyRows.length)) := by
  refine (List.perm_ext_iff_of_nodup h.numbers.nodup (List.nodup_range.filter _)).2 fun row => ?_
  rw [← realRows, mem_realRows (List.Perm.refl _)]
  by_cases hrow : row < dummyRows.length
  · have hentry := List.getElem?_eq_getElem (h.length_eq.symm ▸ hrow)
    have hunset := h.unset_iff row hrow
    rw [hentry, List.getElem?_eq_getElem hrow, Option.some_inj, Option.some_inj] at hunset
    rw [← h.numbers.entry_ne_unset_iff hentry, ne_eq, hunset, List.getD_eq_getElem _ _ hrow]
    simp [hrow]
  · exact iff_of_false (fun hmem => hrow (h.length_eq ▸ h.numbers.lt_of_mem hmem))
      fun hreal => hrow hreal.1

end OrdersReal

/-- Whatever the order of the rows is, the real rows among them are ordered. -/
theorem ordersReal_ofPermutation (hcount : dummyRows.countP (!·) ≤ maxUnion + 1)
    (hperm : permutation.Perm (List.range dummyRows.length)) :
    OrdersReal dummyRows (ofPermutation dummyRows permutation) := by
  have hset := (ofPermutation_numbers hcount hperm).filter_perm.map Int32.toInt
  rw [length_realRows hperm, map_toInt_ofNat hcount] at hset
  exact ⟨length_ofPermutation dummyRows permutation,
    fun _ hrow => ofPermutation_unset_iff hcount hperm hrow, hset⟩

theorem ofPermutation_eq_iff (h : OrdersReal dummyRows map)
    (hperm : permutation.Perm (List.range dummyRows.length)) :
    ofPermutation dummyRows permutation = map ↔
      realRows dummyRows permutation = byPosition map (dummyRows.countP (!·)) := by
  have hnumbers := ofPermutation_numbers h.count_le hperm
  constructor
  · intro heq
    rw [heq] at hnumbers
    exact hnumbers.owners_unique h.numbers
  · intro heq
    rw [heq] at hnumbers
    exact hnumbers.map_unique h.numbers ((length_ofPermutation _ _).trans h.length_eq.symm)

theorem card_ofPermutation_mul (h : OrdersReal dummyRows map) :
    ((orders (List.range dummyRows.length)).filter (ofPermutation dummyRows · = map)).card *
      (dummyRows.countP (!·)).factorial = dummyRows.length.factorial := by
  have hfilter : (orders (List.range dummyRows.length)).filter (ofPermutation dummyRows · = map) =
      ordersAlong (List.range dummyRows.length) (fun row => !dummyRows.getD row true)
        (byPosition map (dummyRows.countP (!·))) :=
    Finset.filter_congr fun _ hmem => ofPermutation_eq_iff h (mem_orders.1 hmem)
  have hcard := card_ordersAlong_mul List.nodup_range h.byPosition_perm
  rwa [length_byPosition, List.length_range, ← hfilter] at hcard

theorem card_ofPermutation_ne_zero (h : OrdersReal dummyRows map) :
    ((orders (List.range dummyRows.length)).filter (ofPermutation dummyRows · = map)).card ≠ 0 := by
  intro hzero
  have hmul := card_ofPermutation_mul h
  rw [hzero, Nat.zero_mul] at hmul
  exact Nat.factorial_ne_zero _ hmul.symm

theorem exists_ofPermutation_eq (h : OrdersReal dummyRows map) :
    ∃ permutation ∈ orders (List.range dummyRows.length),
      ofPermutation dummyRows permutation = map := by
  obtain ⟨permutation, hmem⟩ := Finset.card_ne_zero.1 (card_ofPermutation_ne_zero h)
  exact ⟨permutation, Finset.mem_filter.1 hmem⟩

/-- The uniform distribution of the orders of all rows. -/
noncomputable def uniformOrder (rows : Nat) : PMF (List Nat) :=
  .uniformOfFinset _ (orders_nonempty (List.range rows))

theorem map_uniformOrder_apply (rows : Nat) (f : List Nat → IndexMap) (map : IndexMap) :
    (uniformOrder rows).map f map =
      ((orders (List.range rows)).filter (f · = map)).card / (rows.factorial : ENNReal) := by
  rw [uniformOrder, ← PMF.toOuterMeasure_apply_singleton, PMF.toOuterMeasure_map_apply,
    PMF.toOuterMeasure_uniformOfFinset_apply, card_orders List.nodup_range, List.length_range]
  congr 3
  ext order
  simp

/-- As many orders of all rows lead to any one order of the real rows as to any other. So the union
map is uniform if the order of all rows is, and no order of the real rows is left out. -/
theorem ofPermutation_unbiased (h : OrdersReal dummyRows map) :
    ((orders (List.range dummyRows.length)).filter (ofPermutation dummyRows · = map)).card =
        dummyRows.length.factorial / (dummyRows.countP (!·)).factorial ∧
      (uniformOrder dummyRows.length).map (ofPermutation dummyRows) map =
        ((dummyRows.countP (!·)).factorial : ENNReal)⁻¹ ∧
      ((uniformOrder dummyRows.length).map (ofPermutation dummyRows)).support =
        {map | OrdersReal dummyRows map} := by
  have hmul := card_ofPermutation_mul h
  refine ⟨?_, ?_, ?_⟩
  · rw [← hmul, Nat.mul_div_cancel _ (Nat.factorial_pos _)]
  · have hcard : (((orders (List.range dummyRows.length)).filter
        (ofPermutation dummyRows · = map)).card : ENNReal) ≠ 0 :=
      Nat.cast_ne_zero.2 (card_ofPermutation_ne_zero h)
    have hfinite := ENNReal.natCast_ne_top ((orders (List.range dummyRows.length)).filter
      (ofPermutation dummyRows · = map)).card
    rw [map_uniformOrder_apply, ← hmul, Nat.cast_mul, ENNReal.div_eq_inv_mul,
      ENNReal.mul_inv (.inl hcard) (.inl hfinite), mul_right_comm,
      ENNReal.inv_mul_cancel hcard hfinite, one_mul]
  · ext other
    rw [PMF.support_map, uniformOrder, PMF.support_uniformOfFinset, Set.mem_image]
    constructor
    · rintro ⟨permutation, hmem, rfl⟩
      exact ordersReal_ofPermutation h.count_le (mem_orders.1 hmem)
    · exact fun hother => exists_ofPermutation_eq hother

/-- Two real rows and a dummy row: three of the six orders put the last row first. -/
theorem ofPermutation_unbiased_one_dummy :
    OrdersReal [false, true, false] [1, -1, 0] ∧
      ((orders (List.range 3)).filter (ofPermutation [false, true, false] · = [1, -1, 0])).card =
        3 ∧
      (uniformOrder 3).map (ofPermutation [false, true, false]) [1, -1, 0] = (2 : ENNReal)⁻¹ := by
  have h : OrdersReal [false, true, false] [1, -1, 0] := ⟨rfl, by decide, by decide⟩
  obtain ⟨hcard, hprob, -⟩ := ofPermutation_unbiased h
  exact ⟨h, hcard, hprob⟩

end IndexMap

end PrivateLift
