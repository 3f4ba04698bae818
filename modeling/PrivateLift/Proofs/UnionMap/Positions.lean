import Mathlib.Data.List.GetD
import Mathlib.Data.List.Nodup
import Mathlib.Data.List.Perm.Subperm
import PrivateLift.Proofs.UnionMap

/-!
# The positions of a map

The set entries of a map that numbers `k` rows are `0, …, k - 1`, each once
(`Numbers.filter_perm`). Validation accepts no other maps: the entries of an accepted map are -1 or
one of `0, …, k - 1`, each once, so that it numbers the rows in the order of their positions
(`numbers_of_validate`). The intersection of two maps numbers its rows in ascending order
(`Numbers.intersect`).
-/

namespace PrivateLift.IndexMap

/-! ## The entries of a numbering map -/

theorem ofNat_inj {p q : Nat} (hp : p ≤ maxUnion) (hq : q ≤ maxUnion)
    (h : Int32.ofNat p = Int32.ofNat q) : p = q := by
  have hpos := position?_ofNat hp
  rw [h, position?_ofNat hq] at hpos
  exact (Option.some.inj hpos).symm

theorem map_toInt_ofNat {k : Nat} (hk : k ≤ maxUnion + 1) :
    ((List.range k).map Int32.ofNat).map Int32.toInt = (List.range k).map Int.ofNat := by
  rw [List.map_map]
  apply List.map_congr_left
  intro p hp
  exact toInt_ofNat (Nat.le_of_lt_succ (Nat.lt_of_lt_of_le (List.mem_range.1 hp) hk))

theorem filter_eq_setRows (map : IndexMap) :
    map.filter (· ≠ unset) = (setRows map).map fun row => map.getD row unset := by
  conv =>
    lhs
    rw [eq_map_getD map]
  rw [List.filter_map]
  rfl

namespace Numbers

variable {map : IndexMap} {owners : List Nat}

/-- The owners have the positions `0, 1, …` in their order. -/
theorem map_getD (h : Numbers map owners) :
    owners.map (fun row => map.getD row IndexMap.unset) =
      (List.range owners.length).map Int32.ofNat := by
  apply List.ext_getElem (by simp)
  intro p hp _
  rw [List.length_map] at hp
  rw [List.getElem_map, List.getElem_map, List.getElem_range, List.getD_eq_getElem?_getD,
    h.position p _ (List.getElem?_eq_getElem hp), Option.getD_some]

/-- A map numbers its rows in one order only. -/
theorem owners_unique (h : Numbers map owners) {owners' : List Nat} (h' : Numbers map owners') :
    owners = owners' := by
  apply List.ext_getElem (h.setCount_eq.symm.trans h'.setCount_eq)
  intro p hp hp'
  have hentry := h'.position p _ (List.getElem?_eq_getElem hp')
  have howned : owners'[p] ∈ owners :=
    h.mem_setRows.1 (h'.mem_setRows.2 (List.getElem_mem hp'))
  obtain ⟨q, hq⟩ := List.getElem?_of_mem howned
  rw [h.position q _ hq, Option.some_inj] at hentry
  have hpq : q = p := ofNat_inj (h.position_le hq).2
    (h'.position_le (List.getElem?_eq_getElem hp')).2 hentry
  subst hpq
  exact (List.getElem?_eq_some_iff.1 hq).2

theorem map_unique (h : Numbers map owners) {map' : IndexMap} (h' : Numbers map' owners)
    (hlen : map.length = map'.length) : map = map' := by
  apply List.ext_getElem? fun row => ?_
  by_cases hlt : row < map.length
  · by_cases hrow : row ∈ owners
    · obtain ⟨p, hp⟩ := List.getElem?_of_mem hrow
      rw [h.position p row hp, h'.position p row hp]
    · rw [h.unset row hlt hrow, h'.unset row (hlen ▸ hlt) hrow]
  · rw [List.getElem?_eq_none (by omega), List.getElem?_eq_none (by omega)]

/-- The set entries are the positions of the owners, each once. -/
theorem filter_perm (h : Numbers map owners) :
    (map.filter (· ≠ IndexMap.unset)).Perm ((List.range owners.length).map Int32.ofNat) := by
  rw [filter_eq_setRows, ← h.map_getD]
  exact h.setRows_perm.map _

end Numbers

/-! ## Accepted maps -/

/-- The positions of the entries, in union order. -/
def positions (map : IndexMap) : List Nat := map.filterMap position?

theorem eq_ofNat_of_position? {entry : Int32} {p : Nat} (h : position? entry = some p) :
    entry = .ofNat p := by
  unfold position? at h
  split at h
  next hpos =>
    cases h
    rw [← Int32.ofInt_eq_ofNat, Int.toNat_of_nonneg hpos, Int32.ofInt_toInt]
  next => cases h

theorem ne_unset_of_position? {entry : Int32} {p : Nat} (h : position? entry = some p) :
    entry ≠ unset := by
  rintro rfl
  have hnone : position? unset = none := by decide
  rw [hnone] at h
  cases h

theorem mem_positions {map : IndexMap} {p : Nat} (hp : p ∈ positions map) :
    Int32.ofNat p ∈ map := by
  obtain ⟨entry, hentry, heq⟩ := List.mem_filterMap.1 hp
  exact eq_ofNat_of_position? heq ▸ hentry

/-- The state of the validation after the entries `past`: each of them was acceptable, their
positions are marked, and the positions have been counted. -/
structure Examined (size : Nat) (past : IndexMap) (seen : Array Bool) (count : Nat) : Prop where
  size_eq : seen.size = size
  entry : ∀ e ∈ past, e = unset ∨ ∃ p < size, position? e = some p
  seen_iff : ∀ p < size, seen[p]? = some (decide (p ∈ positions past))
  nodup : (positions past).Nodup
  count_eq : count = (positions past).length

namespace Examined

variable {size count : Nat} {past : IndexMap} {seen : Array Bool}

theorem start (size : Nat) : Examined size [] (Array.replicate size false) 0 := by
  refine ⟨Array.size_replicate, by simp, ?_, List.nodup_nil, rfl⟩
  intro p hp
  simp [hp, positions]

theorem skip (h : Examined size past seen count) : Examined size (past ++ [unset]) seen count := by
  have hpast : positions (past ++ [unset]) = positions past := by
    have hnone : position? unset = none := by decide
    simp [positions, hnone]
  refine ⟨h.size_eq, ?_, hpast ▸ h.seen_iff, hpast ▸ h.nodup, hpast ▸ h.count_eq⟩
  intro e he
  rw [List.mem_append, List.mem_singleton] at he
  exact he.elim (h.entry e) .inl

theorem mark (h : Examined size past seen count) {e : Int32} {p : Nat} (hp : position? e = some p)
    (hseen : seen[p]? = some false) :
    Examined size (past ++ [e]) (seen.setIfInBounds p true) (count + 1) := by
  have hlt : p < size := h.size_eq ▸ (Array.getElem?_eq_some_iff.1 hseen).1
  have hnew : p ∉ positions past := by
    rw [h.seen_iff p hlt] at hseen
    exact of_decide_eq_false (Option.some.inj hseen)
  have hpast : positions (past ++ [e]) = positions past ++ [p] := by simp [positions, hp]
  refine ⟨(Array.size_setIfInBounds ..).trans h.size_eq, ?_, ?_, ?_, ?_⟩
  · intro e' he'
    rw [List.mem_append, List.mem_singleton] at he'
    rcases he' with he' | rfl
    · exact h.entry e' he'
    · exact .inr ⟨p, hlt, hp⟩
  · intro q hq
    rw [hpast]
    by_cases hqp : p = q
    · subst hqp
      rw [Array.getElem?_setIfInBounds_self_of_lt (h.size_eq ▸ hlt)]
      simp
    · rw [Array.getElem?_setIfInBounds_ne hqp, h.seen_iff q hq]
      simp [Ne.symm hqp]
  · rw [hpast]
    exact h.nodup.append (List.nodup_singleton p) (by simpa using hnew)
  · rw [hpast, h.count_eq, List.length_append, List.length_singleton]

end Examined

theorem examined_of_mark {size : Nat} (rest : IndexMap) {row count count' : Nat} {past : IndexMap}
    {seen seen' : Array Bool} (h : Examined size past seen count)
    (hmark : mark row rest seen count = .ok (seen', count')) :
    Examined size (past ++ rest) seen' count' := by
  -- Each entry that is scanned moves from the rest to the end of the past.
  induction rest generalizing row past seen count with
  | nil =>
    cases hmark
    rwa [List.append_nil]
  | cons e rest ih =>
    rw [mark] at hmark
    rw [← List.singleton_append, ← List.append_assoc]
    split at hmark
    next hunset =>
      subst hunset
      exact ih h.skip hmark
    next =>
      split at hmark
      next => cases hmark
      next p hp =>
        split at hmark
        next => cases hmark
        next => cases hmark
        next hseen => exact ih (h.mark hp hseen) hmark

/-- No more positions are counted than there are marks. -/
theorem Examined.count_le {size count : Nat} {past : IndexMap} {seen : Array Bool}
    (h : Examined size past seen count) : count ≤ size := by
  have hsub : positions past ⊆ List.range size := by
    intro p hp
    obtain ⟨e, he, heq⟩ := List.mem_filterMap.1 hp
    rcases h.entry e he with rfl | ⟨q, hq, heq'⟩
    · exact absurd rfl (ne_unset_of_position? heq)
    · rw [heq] at heq'
      obtain rfl : p = q := Option.some.inj heq'
      exact List.mem_range.2 hq
  have hle := h.nodup.length_le_of_subset hsub
  rwa [List.length_range, ← h.count_eq] at hle

/-- The marks are at `0, …, count - 1` only where these are all positions. -/
theorem Examined.positions_perm {size count : Nat} {past : IndexMap} {seen : Array Bool}
    (h : Examined size past seen count) (hall : (seen.toList.take count).all id = true) :
    (positions past).Perm (List.range count) := by
  have hle := h.count_le
  have hmarked : List.range count ⊆ positions past := by
    intro p hp
    have hpcount : p < count := List.mem_range.1 hp
    have hpsize : p < seen.size := h.size_eq ▸ Nat.lt_of_lt_of_le hpcount hle
    have hpseen := h.seen_iff p (h.size_eq ▸ hpsize)
    rw [Array.getElem?_eq_getElem hpsize] at hpseen
    have htrue : seen[p] = true := by
      refine List.all_eq_true.1 hall _ (List.mem_iff_getElem.2 ⟨p, ?_, ?_⟩)
      · rw [List.length_take, Array.length_toList]
        omega
      · rw [List.getElem_take, Array.getElem_toList]
    rw [htrue] at hpseen
    exact of_decide_eq_true (Option.some.inj hpseen).symm
  refine ((List.subperm_of_subset List.nodup_range hmarked).perm_of_length_le ?_).symm
  simp [h.count_eq]

/-- The entries of an accepted map: -1, or the positions `0, …, k - 1`, each once. -/
theorem positions_of_validate {map : IndexMap} {k : Nat} (h : map.validate = .ok k) :
    (∀ e ∈ map, e = unset ∨ ∃ p < map.length, position? e = some p) ∧
      (positions map).Perm (List.range k) := by
  unfold validate at h
  cases hmark : mark 0 map (Array.replicate map.length false) 0 with
  | error e =>
    rw [hmark] at h
    cases h
  | ok result =>
    obtain ⟨seen, count⟩ := result
    rw [hmark] at h
    have hend := examined_of_mark map (Examined.start map.length) hmark
    rw [List.nil_append] at hend
    simp only [bind, Except.bind] at h
    split at h
    next hall =>
      cases h
      exact ⟨hend.entry, hend.positions_perm hall⟩
    next => cases h

theorem setCount_eq_positions {map : IndexMap}
    (h : ∀ e ∈ map, e = unset ∨ ∃ p < map.length, position? e = some p) :
    map.setCount = (positions map).length := by
  rw [setCount, positions, List.length_filterMap_eq_countP]
  apply List.countP_congr
  intro e he
  rcases h e he with rfl | ⟨p, -, hp⟩
  · decide
  · simp [ne_unset_of_position? hp, hp]

/-- The rows in the order of their positions `0, …, k - 1`. -/
def byPosition (map : IndexMap) (k : Nat) : List Nat :=
  (List.range k).map fun p => map.idxOf (Int32.ofNat p)

theorem getElem?_of_byPosition {map : IndexMap} {k p row : Nat}
    (hmem : ∀ p < k, Int32.ofNat p ∈ map) (hrow : (byPosition map k)[p]? = some row) :
    map[row]? = some (Int32.ofNat p) := by
  rw [byPosition, List.getElem?_map] at hrow
  obtain ⟨q, hq, rfl⟩ := Option.map_eq_some_iff.1 hrow
  obtain ⟨hlt, rfl⟩ := List.getElem?_eq_some_iff.1 hq
  rw [List.length_range] at hlt
  rw [List.getElem_range]
  exact List.getElem?_idxOf (hmem p hlt)

theorem nodup_byPosition {map : IndexMap} {k : Nat} (hmem : ∀ p < k, Int32.ofNat p ∈ map)
    (hmax : k ≤ maxUnion + 1) : (byPosition map k).Nodup := by
  refine List.Nodup.map_on ?_ List.nodup_range
  intro p hp q hq heq
  rw [List.mem_range] at hp hq
  exact ofNat_inj (by omega) (by omega) ((List.idxOf_inj (hmem p hp)).1 heq)

theorem byPosition_perm {map : IndexMap} {k : Nat} (hmem : ∀ p < k, Int32.ofNat p ∈ map)
    (hmax : k ≤ maxUnion + 1) (hk : (setRows map).length = k) :
    (byPosition map k).Perm (setRows map) := by
  have hset : byPosition map k ⊆ setRows map := by
    intro row hrow
    obtain ⟨p, hp⟩ := List.getElem?_of_mem hrow
    have hentry := getElem?_of_byPosition hmem hp
    have hlt := (List.getElem?_eq_some_iff.1 hp).1
    rw [byPosition, List.length_map, List.length_range] at hlt
    refine List.mem_filter.2 ⟨List.mem_range.2 (List.getElem?_eq_some_iff.1 hentry).1, ?_⟩
    simpa [List.getD_eq_getElem?_getD, hentry] using ofNat_ne_unset (by omega : p ≤ maxUnion)
  -- There are as many set rows as positions, so that no set row is left out.
  refine (List.subperm_of_subset (nodup_byPosition hmem hmax) hset).perm_of_length_le ?_
  simp [hk, byPosition]

/-- A map whose set entries are `0, …, k - 1`, each once, numbers its rows in the order of their
positions. -/
theorem numbers_byPosition {map : IndexMap} {k : Nat} (hmem : ∀ p < k, Int32.ofNat p ∈ map)
    (hmax : k ≤ maxUnion + 1) (hk : (setRows map).length = k) :
    Numbers map (byPosition map k) := by
  refine ⟨by simpa [byPosition] using hmax, nodup_byPosition hmem hmax, ?_, ?_⟩
  · exact fun p row hp => getElem?_of_byPosition hmem hp
  · intro row hrow hnot
    rw [(byPosition_perm hmem hmax hk).mem_iff, setRows, List.mem_filter, not_and] at hnot
    have hunset := hnot (List.mem_range.2 hrow)
    rw [decide_eq_true_eq, Classical.not_not, List.getD_eq_getElem _ _ hrow] at hunset
    rw [List.getElem?_eq_getElem hrow, hunset]

/-- An entry cannot express a position beyond the largest union. -/
theorem position?_le {entry : Int32} {p : Nat} (h : position? entry = some p) : p ≤ maxUnion := by
  have hlt := entry.toInt_lt
  unfold position? at h
  split at h
  next hpos =>
    obtain rfl := Option.some.inj h
    rw [maxUnion]
    omega
  next => cases h

/-- An accepted map numbers its real rows, in the order of their positions. -/
theorem numbers_of_validate {map : IndexMap} {k : Nat} (h : map.validate = .ok k) :
    Numbers map (byPosition map k) := by
  obtain ⟨hentries, hperm⟩ := positions_of_validate h
  have hmem : ∀ p < k, Int32.ofNat p ∈ map := fun p hp =>
    mem_positions (hperm.mem_iff.2 (List.mem_range.2 hp))
  have hk : (setRows map).length = k := by
    rw [← setCount_eq, setCount_eq_positions hentries, hperm.length_eq, List.length_range]
  have hmax : k ≤ maxUnion + 1 := by
    cases k with
    | zero => exact Nat.zero_le _
    | succ p =>
      have hlast := hperm.mem_iff.2 (List.mem_range.2 (Nat.lt_succ_self p))
      obtain ⟨entry, -, hentry⟩ := List.mem_filterMap.1 hlast
      exact Nat.succ_le_succ (position?_le hentry)
  exact numbers_byPosition hmem hmax hk

@[simp] theorem length_byPosition (map : IndexMap) (k : Nat) : (byPosition map k).length = k := by
  simp [byPosition]

/-- Validation counts the real rows. -/
theorem setCount_of_validate {map : IndexMap} {k : Nat} (h : map.validate = .ok k) :
    k = map.setCount := by
  rw [(numbers_of_validate h).setCount_eq, length_byPosition]

/-! ## Intersections are union maps -/

theorem intersectFrom_comm (next : Nat) (a b : IndexMap) :
    intersectFrom next a b = intersectFrom next b a := by
  induction a generalizing next b with
  | nil => cases b <;> simp [intersectFrom]
  | cons x a ih =>
    cases b with
    | nil => simp [intersectFrom]
    | cons y b => simp only [intersectFrom, ih, or_comm]

theorem setRows_cons (entry : Int32) (map : IndexMap) :
    setRows (entry :: map) =
      (if entry = unset then [] else [0]) ++ (setRows map).map (· + 1) := by
  have hrest : ((List.range map.length).map Nat.succ).filter
      (fun row => (entry :: map).getD row unset ≠ unset) = (setRows map).map (· + 1) := by
    rw [List.filter_map]
    rfl
  rw [setRows, List.length_cons, List.range_succ_eq_map, List.filter_cons, hrest]
  by_cases hentry : entry = unset
  · simp [hentry]
  · simp [hentry]

/-- The rows that an intersection sets are numbered from `next` on. -/
theorem intersectFrom_position (next : Nat) {a b : IndexMap}
    (hnext : next + setCount a ≤ maxUnion + 1) {p row : Nat}
    (hrow : (setRows (intersectFrom next a b))[p]? = some row) :
    (intersectFrom next a b)[row]? = some (Int32.ofNat (next + p)) := by
  induction a generalizing next b p row with
  | nil => simp [intersectFrom, setRows] at hrow
  | cons x a ih =>
    cases b with
    | nil => simp [intersectFrom, setRows] at hrow
    | cons y b =>
      rw [setCount_cons] at hnext
      rw [intersectFrom] at hrow ⊢
      by_cases hxy : x = unset ∨ y = unset
      · rw [if_pos hxy] at hrow ⊢
        rw [setRows_cons, if_pos rfl, List.nil_append, List.getElem?_map] at hrow
        obtain ⟨r, hr, rfl⟩ := Option.map_eq_some_iff.1 hrow
        exact ih next (by omega) hr
      · rw [if_pos fun hx => hxy (.inl hx)] at hnext
        rw [if_neg hxy] at hrow ⊢
        rw [setRows_cons, if_neg (ofNat_ne_unset (by omega))] at hrow
        cases p with
        | zero =>
          obtain rfl : 0 = row := Option.some.inj hrow
          rfl
        | succ p =>
          rw [List.singleton_append, List.getElem?_cons_succ, List.getElem?_map] at hrow
          obtain ⟨r, hr, rfl⟩ := Option.map_eq_some_iff.1 hrow
          have hstep : next + (p + 1) = next + 1 + p := by omega
          rw [hstep]
          exact ih (next + 1) (by omega) hr

namespace Numbers

variable {a b map : IndexMap} {owners : List Nat}

/-- The intersection numbers the rows that it sets in ascending order. -/
theorem intersect (ha : Numbers a owners) (hlen : a.length = b.length) :
    Numbers (IndexMap.intersect a b) (setRows (IndexMap.intersect a b)) := by
  have hcount : 0 + setCount a ≤ maxUnion + 1 := by
    rw [Nat.zero_add, ha.setCount_eq]
    exact ha.positions_le
  refine ⟨?_, nodup_setRows _, ?_, ?_⟩
  · have hsub : setRows (IndexMap.intersect a b) ⊆ setRows a := by
      intro row hrow
      rw [ha.setRows_intersect_eq hlen, List.mem_filter, decide_eq_true_eq] at hrow
      exact List.mem_filter.2 ⟨hrow.1, decide_eq_true hrow.2.1⟩
    have hle := (nodup_setRows _).length_le_of_subset hsub
    rw [← IndexMap.setCount_eq a] at hle
    omega
  · intro p row hrow
    have hposition := intersectFrom_position 0 hcount hrow
    rwa [Nat.zero_add] at hposition
  · intro row hlt hrow
    rw [setRows, List.mem_filter, List.mem_range, not_and, decide_eq_true_eq,
      Classical.not_not] at hrow
    have hunset := hrow hlt
    rw [List.getD_eq_getElem?_getD, List.getElem?_eq_getElem hlt, Option.getD_some] at hunset
    rw [List.getElem?_eq_getElem hlt, hunset]

/-- Every entry that is set is a position. -/
theorem nonneg_iff (h : Numbers map owners) {entry : Int32} (hentry : entry ∈ map) :
    0 ≤ entry.toInt ↔ entry ≠ IndexMap.unset := by
  obtain ⟨row, hrow⟩ := List.getElem?_of_mem hentry
  rcases h.entry_cases hrow with ⟨-, rfl⟩ | ⟨p, -, rfl, -, hle⟩
  · decide
  · exact iff_of_true (toInt_ofNat hle ▸ Int.natCast_nonneg p) (ofNat_ne_unset hle)

/-- The row of an entry that is a position has this position. -/
theorem getElem?_owners (h : Numbers map owners) {row : Nat} {entry : Int32}
    (hentry : map[row]? = some entry) (hset : 0 ≤ entry.toInt) :
    owners[entry.toInt.toNat]? = some row := by
  rcases h.entry_cases hentry with ⟨-, rfl⟩ | ⟨p, hp, rfl, -, hle⟩
  · exact absurd hset (by decide)
  · rw [toInt_ofNat hle, Int.toNat_natCast, hp]

/-- The set entries are `0, 1, …` where the rows are numbered in ascending order. -/
theorem map_toInt (h : Numbers map (setRows map)) :
    (map.filter (0 ≤ ·.toInt)).map Int32.toInt = (List.range map.setCount).map Int.ofNat := by
  have hset : map.filter (0 ≤ ·.toInt) = map.filter (· ≠ IndexMap.unset) :=
    List.filter_congr fun entry hentry => decide_eq_decide.2 (h.nonneg_iff hentry)
  rw [hset, filter_eq_setRows, h.map_getD, map_toInt_ofNat h.positions_le,
    IndexMap.setCount_eq]

end Numbers

end PrivateLift.IndexMap
