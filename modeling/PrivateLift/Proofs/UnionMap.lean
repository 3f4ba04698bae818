import PrivateLift.Proofs.Fault
import PrivateLift.UnionMap

/-!
# Which rows a map numbers

`Numbers map owners` says that a map gives its positions to the rows of a list, in the order of the
list, and leaves all other rows unset. A shuffled union numbers the real rows in the order of its
permutation (`shuffled_numbers`). The relation is all that the users of a map rely on: such a map is
valid, its inverse is the list, and the intersection of two such maps is set for the common rows.
-/

namespace PrivateLift

/-! ## Permutations -/

namespace Permutation

theorem swapIfInBounds_perm (a : Array Nat) (i j : Nat) :
    (a.swapIfInBounds i j).toList.Perm a.toList := by
  unfold Array.swapIfInBounds
  split
  · split
    · exact Array.perm_iff_toList_perm.1 (Array.swap_perm _ _)
    · exact List.Perm.refl _
  · exact List.Perm.refl _

theorem applySwaps_perm (indices : List Nat) (start : Array Nat) :
    (applySwaps indices start).toList.Perm start.toList := by
  rw [applySwaps]
  generalize indices.zipIdx = swaps
  induction swaps generalizing start with
  | nil => exact List.Perm.refl _
  | cons swap swaps ih => exact (ih _).trans (swapIfInBounds_perm start _ _)

/-- A drawn permutation contains every row once, whatever the words are. -/
theorem random_perm (n : Nat) (s : WordStream) : (random n s).1.Perm (List.range n) := by
  have h := applySwaps_perm (drawIndices n {} s).1 (Array.range n)
  rwa [Array.toList_range] at h

end Permutation

namespace IndexMap

/-! ## Entries -/

theorem toInt_ofNat {p : Nat} (h : p ≤ maxUnion) : (Int32.ofNat p).toInt = p :=
  Int32.toInt_ofNat_of_lt (by
    rw [maxUnion] at h
    omega)

theorem position?_ofNat {p : Nat} (h : p ≤ maxUnion) : position? (.ofNat p) = some p := by
  rw [position?, toInt_ofNat h, if_pos (Int.natCast_nonneg p), Int.toNat_natCast]

theorem ofNat_ne_unset {p : Nat} (h : p ≤ maxUnion) : Int32.ofNat p ≠ unset := by
  intro heq
  have hnone : position? unset = none := by decide
  rw [← heq, position?_ofNat h] at hnone
  cases hnone

/-- The map gives the positions `0, 1, …` to the owners in order and none to the other rows. -/
structure Numbers (map : IndexMap) (owners : List Nat) : Prop where
  /-- An entry can express every position. -/
  positions_le : owners.length ≤ maxUnion + 1
  nodup : owners.Nodup
  position : ∀ p row, owners[p]? = some row → map[row]? = some (Int32.ofNat p)
  unset : ∀ row < map.length, row ∉ owners → map[row]? = some unset

namespace Numbers

variable {map : IndexMap} {owners : List Nat}

theorem lt_of_mem (h : Numbers map owners) {row : Nat} (hrow : row ∈ owners) :
    row < map.length := by
  obtain ⟨p, hp⟩ := List.getElem?_of_mem hrow
  exact (List.getElem?_eq_some_iff.1 (h.position p row hp)).1

theorem length_owners_le (h : Numbers map owners) : owners.length ≤ map.length := by
  have hsub : owners ⊆ List.range map.length := fun row hrow => List.mem_range.2 (h.lt_of_mem hrow)
  have := h.nodup.length_le_of_subset hsub
  rwa [List.length_range] at this

theorem position_le (h : Numbers map owners) {p row : Nat} (hp : owners[p]? = some row) :
    p < map.length ∧ p ≤ maxUnion := by
  have hlt : p < owners.length := (List.getElem?_eq_some_iff.1 hp).1
  have := h.length_owners_le
  have := h.positions_le
  omega

/-- An entry is unset or the position of its row. -/
theorem entry_cases (h : Numbers map owners) {row : Nat} {entry : Int32}
    (hentry : map[row]? = some entry) :
    (row ∉ owners ∧ entry = IndexMap.unset) ∨
      ∃ p, owners[p]? = some row ∧ entry = .ofNat p ∧ p < map.length ∧ p ≤ maxUnion := by
  by_cases hrow : row ∈ owners
  · obtain ⟨p, hp⟩ := List.getElem?_of_mem hrow
    refine .inr ⟨p, hp, ?_, h.position_le hp⟩
    rw [h.position p row hp] at hentry
    exact (Option.some.inj hentry).symm
  · have hlt := (List.getElem?_eq_some_iff.1 hentry).1
    rw [h.unset row hlt hrow] at hentry
    exact .inl ⟨hrow, (Option.some.inj hentry).symm⟩

theorem entry_ne_unset_iff (h : Numbers map owners) {row : Nat} {entry : Int32}
    (hentry : map[row]? = some entry) : entry ≠ IndexMap.unset ↔ row ∈ owners := by
  rcases h.entry_cases hentry with ⟨hrow, rfl⟩ | ⟨p, hp, rfl, -, hle⟩
  · simp [hrow]
  · simp [ofNat_ne_unset hle, List.mem_of_getElem? hp]

end Numbers

/-! ## Shuffled unions -/

/-- Gives consecutive positions from `first` on to the owners. -/
def place (owners : List Nat) (first : Nat) (start : Array Int32) : Array Int32 :=
  (owners.zipIdx first).foldl
    (fun map (row, position) => map.setIfInBounds row (.ofNat position)) start

theorem place_cons (owner : Nat) (owners : List Nat) (first : Nat) (start : Array Int32) :
    place (owner :: owners) first start =
      place owners (first + 1) (start.setIfInBounds owner (.ofNat first)) := rfl

@[simp] theorem size_place (owners : List Nat) (first : Nat) (start : Array Int32) :
    (place owners first start).size = start.size := by
  induction owners generalizing first start with
  | nil => rfl
  | cons owner owners ih => rw [place_cons, ih, Array.size_setIfInBounds]

theorem place_of_notMem {owners : List Nat} {row : Nat} (hrow : row ∉ owners) (first : Nat)
    (start : Array Int32) : (place owners first start)[row]? = start[row]? := by
  induction owners generalizing first start with
  | nil => rfl
  | cons owner owners ih =>
    rw [List.mem_cons, not_or] at hrow
    rw [place_cons, ih hrow.2, Array.getElem?_setIfInBounds_ne (Ne.symm hrow.1)]

theorem place_getElem {owners : List Nat} (hnodup : owners.Nodup) {p row : Nat}
    (hp : owners[p]? = some row) (first : Nat) {start : Array Int32} (hrow : row < start.size) :
    (place owners first start)[row]? = some (Int32.ofNat (first + p)) := by
  induction owners generalizing p first start with
  | nil => cases hp
  | cons owner owners ih =>
    obtain ⟨hnot, hnodup⟩ := List.nodup_cons.1 hnodup
    rw [place_cons]
    cases p with
    | zero =>
      obtain rfl : owner = row := Option.some.inj hp
      rw [place_of_notMem hnot, Array.getElem?_setIfInBounds_self_of_lt hrow]
      rfl
    | succ p =>
      have hnext : first + (p + 1) = first + 1 + p := by omega
      rw [hnext]
      exact ih hnodup hp (first + 1) (by rwa [Array.size_setIfInBounds])

/-- The real rows of a union in the order of a permutation. -/
def realRows (dummyRows : List Bool) (permutation : List Nat) : List Nat :=
  permutation.filter fun row => !dummyRows.getD row true

theorem mem_realRows {dummyRows : List Bool} {permutation : List Nat}
    (hperm : permutation.Perm (List.range dummyRows.length)) {row : Nat} :
    row ∈ realRows dummyRows permutation ↔
      row < dummyRows.length ∧ dummyRows.getD row true = false := by
  rw [realRows, List.mem_filter, hperm.mem_iff, List.mem_range, Bool.not_eq_true']

theorem ofPermutation_eq (dummyRows : List Bool) (permutation : List Nat) :
    ofPermutation dummyRows permutation =
      (place (realRows dummyRows permutation) 0 (Array.replicate dummyRows.length unset)).toList :=
  rfl

theorem length_ofPermutation (dummyRows : List Bool) (permutation : List Nat) :
    (ofPermutation dummyRows permutation).length = dummyRows.length := by
  rw [ofPermutation_eq, Array.length_toList, size_place, Array.size_replicate]

/-- Every row that is not a dummy is once in a permutation of all rows. -/
theorem length_realRows {dummyRows : List Bool} {permutation : List Nat}
    (hperm : permutation.Perm (List.range dummyRows.length)) :
    (realRows dummyRows permutation).length = dummyRows.countP (!·) := by
  have hflags : dummyRows = (List.range dummyRows.length).map (dummyRows.getD · true) := by
    apply List.ext_getElem (by simp)
    intro row hrow _
    simp [List.getD_eq_getElem?_getD, hrow]
  rw [realRows, ← List.countP_eq_length_filter, hperm.countP_eq]
  conv =>
    rhs
    rw [hflags, List.countP_map]
  rfl

theorem ofPermutation_numbers {dummyRows : List Bool} {permutation : List Nat}
    (hcount : dummyRows.countP (!·) ≤ maxUnion + 1)
    (hperm : permutation.Perm (List.range dummyRows.length)) :
    Numbers (ofPermutation dummyRows permutation) (realRows dummyRows permutation) := by
  have hnodup : (realRows dummyRows permutation).Nodup :=
    (hperm.nodup_iff.2 List.nodup_range).filter _
  have hlt : ∀ row ∈ realRows dummyRows permutation, row < dummyRows.length :=
    fun row hrow => ((mem_realRows hperm).1 hrow).1
  have hmap := length_ofPermutation dummyRows permutation
  refine ⟨length_realRows hperm ▸ hcount, hnodup, ?_, ?_⟩
  · intro p row hp
    have hrow := hlt row (List.mem_of_getElem? hp)
    have hsize : row < (Array.replicate dummyRows.length unset).size := by
      rwa [Array.size_replicate]
    rw [ofPermutation_eq, Array.getElem?_toList, place_getElem hnodup hp 0 hsize, Nat.zero_add]
  · intro row hrow hnot
    rw [hmap] at hrow
    rw [ofPermutation_eq, Array.getElem?_toList, place_of_notMem hnot,
      Array.getElem?_replicate, if_pos hrow]

/-- Exactly the dummy rows have no position. -/
theorem ofPermutation_unset_iff {dummyRows : List Bool} {permutation : List Nat}
    (hcount : dummyRows.countP (!·) ≤ maxUnion + 1)
    (hperm : permutation.Perm (List.range dummyRows.length)) {row : Nat}
    (hrow : row < dummyRows.length) :
    (ofPermutation dummyRows permutation)[row]? = some unset ↔ dummyRows[row]? = some true := by
  have hmap := length_ofPermutation dummyRows permutation
  have hentry := List.getElem?_eq_getElem (hmap.symm ▸ hrow)
  have hreal := (ofPermutation_numbers hcount hperm).entry_ne_unset_iff hentry
  rw [mem_realRows hperm, List.getD_eq_getElem?_getD, List.getElem?_eq_getElem hrow,
    Option.getD_some] at hreal
  rw [hentry, List.getElem?_eq_getElem hrow, Option.some_inj, Option.some_inj,
    ← Classical.not_not (a := _ = unset), ← ne_eq, hreal]
  simp [hrow]

theorem shuffled_numbers {dummyRows : List Bool} (hlen : dummyRows.length ≤ maxUnion)
    (s : WordStream) :
    Numbers (shuffled dummyRows s).1
      (realRows dummyRows (Permutation.random dummyRows.length s).1) :=
  ofPermutation_numbers (Nat.le_succ_of_le (Nat.le_trans List.countP_le_length hlen))
    (Permutation.random_perm _ s)

/-! ## Validation -/

/-- The state of the validation before row `row`: the positions of the earlier rows are marked, and
they have been counted. -/
structure Marked (owners : List Nat) (size row : Nat) (seen : Array Bool) (count : Nat) : Prop where
  size_eq : seen.size = size
  seen_iff : ∀ p < size, seen[p]? = some (decide (∃ r, owners[p]? = some r ∧ r < row))
  count_eq : count = owners.countP (· < row)

theorem countP_succ {owners : List Nat} (hnodup : owners.Nodup) (row : Nat) :
    owners.countP (· < row + 1) = owners.countP (· < row) + if row ∈ owners then 1 else 0 := by
  induction owners with
  | nil => rfl
  | cons owner owners ih =>
    obtain ⟨hnot, hnodup⟩ := List.nodup_cons.1 hnodup
    rw [List.countP_cons, List.countP_cons, ih hnodup]
    by_cases hrow : row = owner
    · subst hrow
      simp [hnot]
    · have hiff : (owner < row + 1) ↔ owner < row := by omega
      simp only [List.mem_cons, hrow, false_or, decide_eq_true_eq, hiff]
      omega

namespace Marked

variable {map : IndexMap} {owners : List Nat} {size row count : Nat} {seen : Array Bool}

theorem skip (h : Marked owners size row seen count) (hnodup : owners.Nodup)
    (hrow : row ∉ owners) : Marked owners size (row + 1) seen count := by
  refine ⟨h.size_eq, ?_, ?_⟩
  · intro p hp
    have hiff : (∃ r, owners[p]? = some r ∧ r < row + 1) ↔ ∃ r, owners[p]? = some r ∧ r < row := by
      constructor
      · rintro ⟨r, hr, hlt⟩
        have : r ≠ row := fun heq => hrow (heq ▸ List.mem_of_getElem? hr)
        exact ⟨r, hr, by omega⟩
      · rintro ⟨r, hr, hlt⟩
        exact ⟨r, hr, by omega⟩
    simp only [h.seen_iff p hp, hiff]
  · rw [countP_succ hnodup, if_neg hrow]
    exact h.count_eq

theorem step (h : Marked owners size row seen count) (hnodup : owners.Nodup) {p : Nat}
    (hp : owners[p]? = some row) (hsize : p < size) :
    Marked owners size (row + 1) (seen.setIfInBounds p true) (count + 1) := by
  refine ⟨(Array.size_setIfInBounds ..).trans h.size_eq, ?_, ?_⟩
  · intro q hq
    by_cases hqp : p = q
    · subst hqp
      have hex : ∃ r, owners[p]? = some r ∧ r < row + 1 := ⟨row, hp, Nat.lt_succ_self row⟩
      rw [Array.getElem?_setIfInBounds_self_of_lt (h.size_eq ▸ hsize)]
      simp only [hex, decide_true]
    · have hiff : (∃ r, owners[q]? = some r ∧ r < row + 1) ↔
          ∃ r, owners[q]? = some r ∧ r < row := by
        constructor
        · rintro ⟨r, hr, hlt⟩
          -- The owner of another position is another row.
          have : r ≠ row := by
            intro heq
            have hlt := (List.getElem?_eq_some_iff.1 hp).1
            exact hqp ((List.getElem?_inj hlt hnodup).1 (hp.trans (heq ▸ hr).symm))
          exact ⟨r, hr, by omega⟩
        · rintro ⟨r, hr, hlt⟩
          exact ⟨r, hr, by omega⟩
      rw [Array.getElem?_setIfInBounds_ne hqp]
      simp only [h.seen_iff q hq, hiff]
  · rw [countP_succ hnodup, if_pos (List.mem_of_getElem? hp), h.count_eq]

end Marked

theorem mark_ok {map : IndexMap} {owners : List Nat} (h : Numbers map owners) (rest : IndexMap)
    {row count : Nat} {seen : Array Bool} (hrest : map.drop row = rest)
    (hinv : Marked owners map.length row seen count) :
    ∃ seen' count', mark row rest seen count = .ok (seen', count') ∧
      Marked owners map.length (row + rest.length) seen' count' := by
  induction rest generalizing row seen count with
  | nil => exact ⟨seen, count, rfl, hinv⟩
  | cons entry rest ih =>
    have hentry : map[row]? = some entry := by
      rw [← List.head?_drop, hrest]
      rfl
    have hdrop : map.drop (row + 1) = rest := by
      rw [← List.tail_drop, hrest]
      rfl
    have hlen : row + (entry :: rest).length = row + 1 + rest.length := by
      rw [List.length_cons]
      omega
    rw [hlen]
    rcases h.entry_cases hentry with ⟨hrow, rfl⟩ | ⟨p, hp, rfl, hlt, hle⟩
    · rw [mark, if_pos rfl]
      exact ih hdrop (hinv.skip h.nodup hrow)
    · have hseen : seen[p]? = some false := by
        rw [hinv.seen_iff p hlt]
        have hnot : ¬∃ r, owners[p]? = some r ∧ r < row := by
          rintro ⟨r, hr, hrlt⟩
          rw [hp] at hr
          cases hr
          omega
        simp only [hnot, decide_false]
      rw [mark, if_neg (ofNat_ne_unset hle), position?_ofNat hle]
      simp only [hseen]
      exact ih hdrop (hinv.step h.nodup hp hlt)

/-- A map that numbers its rows is a valid union map. -/
theorem Numbers.validate_ok {map : IndexMap} {owners : List Nat} (h : Numbers map owners) :
    map.validate = .ok owners.length := by
  have hstart : Marked owners map.length 0 (Array.replicate map.length false) 0 := by
    refine ⟨Array.size_replicate, ?_, ?_⟩
    · intro p hp
      simp [hp]
    · simp
  obtain ⟨seen, count, hmark, hend⟩ := mark_ok h map List.drop_zero hstart
  rw [Nat.zero_add] at hend
  have hcount : count = owners.length := by
    rw [hend.count_eq, List.countP_eq_length]
    intro row hrow
    exact decide_eq_true (h.lt_of_mem hrow)
  have hall : (seen.toList.take count).all id = true := by
    rw [List.all_eq_true]
    intro b hb
    obtain ⟨p, hp, rfl⟩ := List.getElem_of_mem hb
    rw [List.length_take] at hp
    have hlt : p < owners.length := by omega
    have hsize : p < map.length := Nat.lt_of_lt_of_le hlt h.length_owners_le
    have hex : ∃ r, owners[p]? = some r ∧ r < map.length :=
      ⟨owners[p], List.getElem?_eq_getElem hlt, h.lt_of_mem (List.getElem_mem hlt)⟩
    have hseen := hend.seen_iff p hsize
    rw [decide_eq_true hex] at hseen
    rw [List.getElem_take]
    exact Option.some.inj ((List.getElem?_eq_getElem _).symm.trans
      ((Array.getElem?_toList).trans hseen))
  rw [validate, hmark]
  simp only [bind, Except.bind]
  rw [if_pos hall, hcount]

/-! ## Intersections -/

/-- The rows that a map sets, in ascending order. -/
def setRows (map : IndexMap) : List Nat :=
  (List.range map.length).filter fun row => map.getD row unset ≠ unset

theorem eq_map_getD (map : IndexMap) :
    map = (List.range map.length).map fun row => map.getD row unset := by
  apply List.ext_getElem
  · simp
  intro row hrow _
  simp [List.getD_eq_getElem?_getD, hrow]

theorem setCount_cons (entry : Int32) (map : IndexMap) :
    setCount (entry :: map) = setCount map + if entry ≠ unset then 1 else 0 := by
  simp only [setCount, List.countP_cons, decide_eq_true_eq]

theorem setCount_eq (map : IndexMap) : map.setCount = (setRows map).length := by
  rw [setCount, setRows, ← List.countP_eq_length_filter]
  conv =>
    lhs
    rw [eq_map_getD map]
  rw [List.countP_map]
  rfl

theorem Numbers.getD_eq_unset_iff {map : IndexMap} {owners : List Nat} (h : Numbers map owners)
    {row : Nat} : map.getD row IndexMap.unset = IndexMap.unset ↔ row ∉ owners := by
  by_cases hrow : row < map.length
  · have hentry := List.getElem?_eq_getElem hrow
    rw [← h.entry_ne_unset_iff hentry, List.getD_eq_getElem?_getD, hentry, Option.getD_some,
      Classical.not_not]
  · rw [List.getD_eq_getElem?_getD, List.getElem?_eq_none (Nat.le_of_not_lt hrow)]
    exact iff_of_true rfl fun hmem => hrow (h.lt_of_mem hmem)

theorem nodup_setRows (map : IndexMap) : (setRows map).Nodup := List.nodup_range.filter _

theorem Numbers.mem_setRows {map : IndexMap} {owners : List Nat} (h : Numbers map owners)
    {row : Nat} : row ∈ setRows map ↔ row ∈ owners := by
  rw [setRows, List.mem_filter, List.mem_range, decide_eq_true_eq, ne_eq, h.getD_eq_unset_iff,
    Classical.not_not, and_iff_right_iff_imp]
  exact h.lt_of_mem

theorem Numbers.setRows_perm {map : IndexMap} {owners : List Nat} (h : Numbers map owners) :
    (setRows map).Perm owners :=
  (List.perm_ext_iff_of_nodup (nodup_setRows map) h.nodup).2 fun _ => h.mem_setRows

theorem Numbers.setCount_eq {map : IndexMap} {owners : List Nat} (h : Numbers map owners) :
    map.setCount = owners.length :=
  (IndexMap.setCount_eq map).trans h.setRows_perm.length_eq

@[simp] theorem length_intersectFrom (next : Nat) (a b : IndexMap) :
    (intersectFrom next a b).length = min a.length b.length := by
  induction a generalizing next b with
  | nil => simp [intersectFrom]
  | cons x a ih =>
    cases b with
    | nil => simp [intersectFrom]
    | cons y b =>
      rw [intersectFrom]
      split
      · rw [List.length_cons, ih, List.length_cons, List.length_cons, Nat.succ_min_succ]
      · rw [List.length_cons, ih, List.length_cons, List.length_cons, Nat.succ_min_succ]

theorem length_intersect (a b : IndexMap) : (intersect a b).length = min a.length b.length :=
  length_intersectFrom 0 a b

theorem intersectFrom_unset_iff (next : Nat) {a b : IndexMap} (hlen : a.length = b.length)
    (hnext : next + a.setCount ≤ maxUnion + 1) (row : Nat) :
    (intersectFrom next a b).getD row unset = unset ↔
      a.getD row unset = unset ∨ b.getD row unset = unset := by
  induction a generalizing next b row with
  | nil => simp [intersectFrom]
  | cons x a ih =>
    cases b with
    | nil => cases hlen
    | cons y b =>
      have hlen' : a.length = b.length := Nat.succ.inj hlen
      rw [setCount_cons] at hnext
      rw [intersectFrom]
      by_cases hxy : x = unset ∨ y = unset
      · rw [if_pos hxy]
        cases row with
        | zero => exact iff_of_true rfl hxy
        | succ row => exact ih _ hlen' (by omega) row
      · rw [if_pos fun hx => hxy (.inl hx)] at hnext
        rw [if_neg hxy]
        cases row with
        | zero => exact iff_of_false (ofNat_ne_unset (by omega)) hxy
        | succ row => exact ih _ hlen' (by omega) row

/-- The intersection sets the rows that both maps set. -/
theorem Numbers.setRows_intersect_eq {a b : IndexMap} {owners : List Nat} (ha : Numbers a owners)
    (hlen : a.length = b.length) :
    setRows (intersect a b) =
      (List.range a.length).filter fun row =>
        a.getD row IndexMap.unset ≠ IndexMap.unset ∧ b.getD row IndexMap.unset ≠ IndexMap.unset := by
  have hcount : 0 + a.setCount ≤ maxUnion + 1 := by
    rw [Nat.zero_add, ha.setCount_eq]
    exact ha.positions_le
  rw [setRows, length_intersect, ← hlen, Nat.min_self, intersect]
  apply List.filter_congr
  intro row _
  rw [decide_eq_decide, ne_eq, intersectFrom_unset_iff 0 hlen hcount row, not_or]

/-- The intersection of two maps that number their rows sets the rows that both number. -/
theorem setRows_intersect {a b : IndexMap} {owners owners' : List Nat} (ha : Numbers a owners)
    (hb : Numbers b owners') (hlen : a.length = b.length) :
    setRows (intersect a b) =
      (List.range a.length).filter fun row => row ∈ owners ∧ row ∈ owners' := by
  rw [ha.setRows_intersect_eq hlen]
  apply List.filter_congr
  intro row _
  rw [decide_eq_decide, ne_eq, ne_eq, ha.getD_eq_unset_iff, hb.getD_eq_unset_iff,
    Classical.not_not, Classical.not_not]

/-- The rows of the owner that an intersection of its map sets, in union order. -/
theorem selectRows_ok {union intersection : IndexMap} {owners : List Nat} (h : Numbers union owners)
    (hlen : intersection.length = union.length)
    (hset : ∀ i ∈ setRows intersection, i ∈ owners) {rows : List Bytes} {row : Nat → Bytes}
    (hrows : rows = owners.map row) :
    selectRows rows union intersection = .ok ((setRows intersection).map row) := by
  have hzip : (intersection.zip union).filter (fun pair => pair.1 ≠ unset) =
      (setRows intersection).map fun i => (intersection.getD i unset, union.getD i unset) := by
    have hpairs : intersection.zip union = (List.range intersection.length).map fun i =>
        (intersection.getD i unset, union.getD i unset) := by
      conv =>
        lhs
        rw [eq_map_getD intersection, eq_map_getD union, ← hlen]
      rw [List.zip_map']
    rw [hpairs, List.filter_map, setRows]
    rfl
  change ((intersection.zip union).filter fun pair => pair.1 ≠ unset).mapM _ = _
  rw [hzip, List.mapM_map]
  apply mapM_map_ok
  intro i hi
  obtain ⟨p, hp⟩ := List.getElem?_of_mem (hset i hi)
  have hslot : union.getD i unset = Int32.ofNat p := by
    rw [List.getD_eq_getElem?_getD, h.position p i hp, Option.getD_some]
  have hrow : rows[p]? = some (row i) := by
    rw [hrows, List.getElem?_map, hp]
    rfl
  simp only [Function.comp_apply, hslot, position?_ofNat (h.position_le hp).2, Option.bind_some,
    hrow]

end IndexMap

end PrivateLift
