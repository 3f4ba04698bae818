import PrivateLift.Proofs.Party.Ending
import PrivateLift.Proofs.UnionMap.Unbiased

/-!
# What validation accepts and what it reports

The maps that some order of all rows leads to are those whose set entries are consecutive from 0
(`ordersReal_dummies_iff`), and exactly these are valid. A map is refused for its first flaw, an
entry that is out of range or occurred before. Up to there the entries are acceptable (`Examined`),
so none of them is a flaw. Where no entry is one, the positions are distinct and within the union,
and all that can be wrong is that they leave a gap. `validate_exact` puts this together.
-/

namespace PrivateLift

namespace IndexMap

variable {map : IndexMap}

/-- The entries other than -1 are `0, …, k - 1`, each once. -/
def Consecutive (map : IndexMap) (k : Nat) : Prop :=
  ((map.filter (· ≠ unset)).map Int32.toInt).Perm ((List.range k).map Int.ofNat)

/-- The entry of a row is not acceptable after the entries of the earlier rows, and the error names
it. -/
inductive Flaw (map : IndexMap) (row : Nat) : Error → Prop where
  /-- The entry is neither -1 nor a row number of the union. -/
  | stray {entry : Int32} (entry_eq : map[row]? = some entry)
      (outside : entry.toInt < -1 ∨ map.length ≤ entry.toInt) : Flaw map row (.strayEntry row entry)
  /-- An earlier row has the same position. -/
  | repeated {earlier : Nat} {entry : Int32} (entry_eq : map[row]? = some entry)
      (isSet : entry ≠ unset) (lt : earlier < row) (same : map[earlier]? = some entry) :
      Flaw map row (.repeatedPosition entry)

/-- The error names the first entry that is not acceptable. -/
def FirstFlaw (map : IndexMap) (e : Error) : Prop :=
  ∃ row, Flaw map row e ∧ ∀ earlier < row, ∀ e', ¬Flaw map earlier e'

/-! ## Maps of the shuffled unions -/

/-- The rows without a position, as dummy flags. -/
def dummies (map : IndexMap) : List Bool := map.map fun entry => decide (entry = unset)

@[simp] theorem length_dummies (map : IndexMap) : map.dummies.length = map.length :=
  List.length_map _

theorem countP_dummies (map : IndexMap) : map.dummies.countP (!·) = map.setCount := by
  rw [dummies, List.countP_map, setCount]
  congr 1
  funext entry
  simp

theorem dummies_getElem? (map : IndexMap) {row : Nat} :
    map[row]? = some unset ↔ map.dummies[row]? = some true := by
  simp [dummies]

theorem ordersReal_dummies_iff (map : IndexMap) :
    OrdersReal map.dummies map ↔ map.setCount ≤ maxUnion + 1 ∧
      ∃ permutation, permutation.Perm (List.range map.length) ∧
        ofPermutation map.dummies permutation = map := by
  constructor
  · intro h
    obtain ⟨permutation, hmem, heq⟩ := exists_ofPermutation_eq h
    refine ⟨countP_dummies map ▸ h.count_le, permutation, ?_, heq⟩
    rw [mem_orders, length_dummies] at hmem
    exact hmem
  · rintro ⟨hcount, permutation, hperm, heq⟩
    rw [← countP_dummies] at hcount
    rw [← length_dummies] at hperm
    have h := ordersReal_ofPermutation hcount hperm
    rwa [heq] at h

theorem consecutive_iff {k : Nat} :
    map.Consecutive k ↔ k = map.setCount ∧ OrdersReal map.dummies map := by
  constructor
  · intro h
    have hcount : k = map.setCount := by
      have hlength := h.length_eq
      rw [List.length_map, List.length_map, List.length_range] at hlength
      rw [setCount, List.countP_eq_length_filter, hlength]
    refine ⟨hcount, (length_dummies map).symm, fun _ _ => dummies_getElem? map, ?_⟩
    rw [countP_dummies, ← hcount]
    exact h
  · rintro ⟨rfl, h⟩
    have hset := h.set_perm
    rwa [countP_dummies] at hset

theorem validate_eq_ok_iff {k : Nat} : map.validate = .ok k ↔ map.Consecutive k := by
  constructor
  · intro h
    have hnumbers := numbers_of_validate h
    have hset := hnumbers.filter_perm.map Int32.toInt
    rwa [map_toInt_ofNat hnumbers.positions_le, length_byPosition] at hset
  · intro h
    obtain ⟨rfl, horders⟩ := consecutive_iff.1 h
    have hvalid := horders.numbers.validate_ok
    rwa [length_byPosition, countP_dummies] at hvalid

/-! ## The first flaw -/

theorem position?_eq_some_iff {entry : Int32} {p : Nat} :
    position? entry = some p ↔ entry.toInt = p := by
  rw [position?]
  split
  · rw [Option.some_inj]
    omega
  · simp only [reduceCtorEq, false_iff]
    omega

theorem position?_eq_none_iff {entry : Int32} : position? entry = none ↔ entry.toInt < 0 := by
  rw [position?]
  split
  · simp only [reduceCtorEq, false_iff]
    omega
  · simp only [true_iff]
    omega

theorem toInt_ne_of_ne_unset {entry : Int32} (h : entry ≠ unset) : entry.toInt ≠ -1 :=
  fun heq => h (Int32.toInt_inj.1 heq)

/-- Only one error names the first flaw. An entry that is out of range and occurred before is not
the first one. -/
theorem FirstFlaw.unique {e e' : Error} (h : FirstFlaw map e) (h' : FirstFlaw map e') : e = e' := by
  obtain ⟨row, hflaw, hfirst⟩ := h
  obtain ⟨row', hflaw', hfirst'⟩ := h'
  obtain hlt | rfl | hlt := Nat.lt_trichotomy row row'
  · exact absurd hflaw (hfirst' row hlt e)
  · cases hflaw with
    | stray hentry hout =>
      cases hflaw' with
      | stray hentry' =>
        obtain rfl := Option.some.inj (hentry.symm.trans hentry')
        rfl
      | repeated hentry' _ hlt hsame =>
        obtain rfl := Option.some.inj (hentry.symm.trans hentry')
        exact absurd (.stray hsame hout) (hfirst _ hlt _)
    | repeated hentry _ hlt hsame =>
      cases hflaw' with
      | stray hentry' hout =>
        obtain rfl := Option.some.inj (hentry.symm.trans hentry')
        exact absurd (.stray hsame hout) (hfirst _ hlt _)
      | repeated hentry' =>
        obtain rfl := Option.some.inj (hentry.symm.trans hentry')
        rfl
  · exact absurd hflaw' (hfirst row' hlt e')

/-- None of the examined entries is a flaw. -/
theorem Examined.flawless {past rest : IndexMap} {seen : Array Bool} {count : Nat}
    (h : Examined map.length past seen count) (hmap : map = past ++ rest) {row : Nat}
    (hrow : row < past.length) (e : Error) : ¬Flaw map row e := by
  have hget : ∀ r < past.length, map[r]? = past[r]? := by
    intro r hr
    rw [hmap, List.getElem?_append_left hr]
  intro hflaw
  cases hflaw with
  | @stray entry hentry hout =>
    rw [hget row hrow] at hentry
    obtain rfl | ⟨p, hp, hposition⟩ := h.entry entry (List.mem_of_getElem? hentry)
    · have hunset : unset.toInt = -1 := rfl
      omega
    · rw [position?_eq_some_iff] at hposition
      omega
  | @repeated earlier entry hentry hset hlt hsame =>
    rw [hget row hrow, List.getElem?_eq_getElem hrow, Option.some_inj] at hentry
    have hearlier : earlier < past.length := Nat.lt_trans hlt hrow
    rw [hget earlier hearlier, List.getElem?_eq_getElem hearlier, Option.some_inj] at hsame
    obtain hunset | ⟨p, -, hposition⟩ := h.entry entry (hentry ▸ List.getElem_mem hrow)
    · exact hset hunset
    · -- The position would be counted for both rows.
      have hnodup := h.nodup
      rw [positions, List.Nodup, List.pairwise_filterMap, List.pairwise_iff_getElem] at hnodup
      exact hnodup earlier row hearlier hrow hlt p (hsame ▸ hposition) p (hentry ▸ hposition) rfl

/-- Marking examines all entries, or stops at the first flaw. -/
theorem mark_cases (rest : IndexMap) {past : IndexMap} {seen : Array Bool} {count : Nat}
    (hmap : map = past ++ rest) (h : Examined map.length past seen count) :
    (∃ seen' count', mark past.length rest seen count = .ok (seen', count') ∧
      Examined map.length map seen' count') ∨
    ∃ e, mark past.length rest seen count = .error e ∧ FirstFlaw map e := by
  induction rest generalizing past seen count with
  | nil =>
    rw [List.append_nil] at hmap
    exact .inl ⟨seen, count, rfl, hmap ▸ h⟩
  | cons entry rest ih =>
    have hentry : map[past.length]? = some entry := by simp [hmap]
    have hfirst : ∀ earlier < past.length, ∀ e, ¬Flaw map earlier e :=
      fun _ hlt e => h.flawless hmap hlt e
    have hnext : map = past ++ [entry] ++ rest := by simp [hmap]
    have hlen : past.length + 1 = (past ++ [entry]).length := by simp
    rw [mark, hlen]
    split
    next hunset =>
      subst hunset
      exact ih hnext h.skip
    next hset =>
      have hminus := toInt_ne_of_ne_unset hset
      cases hp : position? entry with
      | none =>
        rw [position?_eq_none_iff] at hp
        exact .inr ⟨_, rfl, past.length, .stray hentry (.inl (by omega)), hfirst⟩
      | some p =>
        have hvalue := position?_eq_some_iff.1 hp
        simp only
        cases hseen : seen[p]? with
        | none =>
          rw [Array.getElem?_eq_none_iff, h.size_eq] at hseen
          exact .inr ⟨_, rfl, past.length, .stray hentry (.inr (by omega)), hfirst⟩
        | some marked =>
          have hlt : p < map.length := h.size_eq ▸ (Array.getElem?_eq_some_iff.1 hseen).1
          cases marked with
          | false => exact ih hnext (h.mark hp hseen)
          | true =>
            -- The mark was set for an earlier entry.
            rw [h.seen_iff p hlt, Option.some_inj, decide_eq_true_eq] at hseen
            obtain ⟨earlier, hearlier⟩ := List.getElem?_of_mem (mem_positions hseen)
            rw [← eq_ofNat_of_position? hp] at hearlier
            have hbound := (List.getElem?_eq_some_iff.1 hearlier).1
            have hsame : map[earlier]? = some entry := by
              rw [hmap, List.getElem?_append_left hbound, hearlier]
            exact .inr ⟨_, rfl, past.length, .repeated hentry hset hbound hsame, hfirst⟩

theorem examined_or_refused (map : IndexMap) :
    (∃ seen count, mark 0 map (Array.replicate map.length false) 0 = .ok (seen, count) ∧
      Examined map.length map seen count) ∨
    ∃ e, mark 0 map (Array.replicate map.length false) 0 = .error e ∧ FirstFlaw map e :=
  mark_cases map (List.nil_append map).symm (Examined.start map.length)

theorem Examined.not_flaw {seen : Array Bool} {count : Nat}
    (h : Examined map.length map seen count) (row : Nat) (e : Error) : ¬Flaw map row e := by
  by_cases hrow : row < map.length
  · exact h.flawless (List.append_nil map).symm hrow e
  · have hnone : map[row]? = none := List.getElem?_eq_none (Nat.not_lt.1 hrow)
    intro hflaw
    cases hflaw with
    | stray hentry => simp [hnone] at hentry
    | repeated hentry => simp [hnone] at hentry

/-- A map is refused for its first flaw, and for a gap only where it has none. -/
theorem validate_eq_error_iff {e : Error} :
    map.validate = .error e ↔ FirstFlaw map e ∨
      (e = .gap ∧ (∀ row e', ¬Flaw map row e') ∧ ∀ k, ¬map.Consecutive k) := by
  obtain ⟨seen, count, hmark, hend⟩ | ⟨first, hmark, hfirst⟩ := examined_or_refused map
  · have hflawless := hend.not_flaw
    have hnone : ¬FirstFlaw map e := fun ⟨row, hflaw, _⟩ => hflawless row e hflaw
    have hvalidate : map.validate =
        if (seen.toList.take count).all id then .ok count else .error .gap := by
      rw [validate, hmark]
      rfl
    split at hvalidate
    next =>
      refine iff_of_false (by simp [hvalidate]) ?_
      rintro (he | ⟨-, -, hgap⟩)
      · exact hnone he
      · exact hgap count (validate_eq_ok_iff.1 hvalidate)
    next =>
      have hgap : ∀ k, ¬map.Consecutive k := by
        intro k hk
        rw [validate_eq_ok_iff.2 hk] at hvalidate
        cases hvalidate
      rw [hvalidate, Except.error.injEq, or_iff_right hnone]
      exact ⟨fun he => ⟨he.symm, hflawless, hgap⟩, fun he => he.1.symm⟩
  · have herror : map.validate = .error first := by
      rw [validate, hmark]
      rfl
    rw [herror, Except.error.injEq]
    constructor
    · rintro rfl
      exact .inl hfirst
    · rintro (he | ⟨-, hflawless, -⟩)
      · exact hfirst.unique he
      · obtain ⟨row, hflaw, -⟩ := hfirst
        exact absurd hflaw (hflawless row first)

/-! ## Marks in range -/

/-- The validation with its access to the first `count` marks checked. -/
def validateStepwise (map : IndexMap) : Outcome Error Nat := do
  let (seen, count) ← Outcome.ofError id (mark 0 map (Array.replicate map.length false) 0)
  let used ← Outcome.ofFault <|
    if count ≤ seen.size then .ok (seen.toList.take count) else .error .outOfRange
  if used.all id then return count else throw (.error .gap)

theorem validateStepwise_eq (map : IndexMap) :
    map.validateStepwise = Outcome.ofError id map.validate := by
  obtain ⟨seen, count, hmark, hend⟩ | ⟨e, hmark, -⟩ := examined_or_refused map
  · have hle : count ≤ seen.size := hend.size_eq ▸ hend.count_le
    simp only [validateStepwise, validate, hmark, Outcome.ofError, if_pos hle, Outcome.ofFault, bind,
      Except.bind]
    split <;> rfl
  · simp only [validateStepwise, validate, hmark, Outcome.ofError, bind, Except.bind]

open PartyStep

/-- Validation accepts the maps that an order of all rows leads to, and no others. The orders of a
union with more real rows than entries can express do not count. Otherwise it reports the first
flaw, or a gap where there is none; no mark is out of range. An accepted map is handed to the
adapter as it is, and the adapter decides how the alignment ends; any other map is not handed
over. -/
theorem validate_exact {ε : Type} (map : IndexMap) :
    (∀ k, map.validate = .ok k ↔ map.Consecutive k) ∧
    (∀ k, map.validate = .ok k ↔ k = map.setCount ∧ k ≤ maxUnion + 1 ∧
      ∃ permutation, permutation.Perm (List.range map.length) ∧
        ofPermutation map.dummies permutation = map) ∧
    (∀ e, map.validate = .error e ↔ FirstFlaw map e ∨
      (e = .gap ∧ (∀ row e', ¬Flaw map row e') ∧ ∀ k, ¬map.Consecutive k)) ∧
    map.validateStepwise = Outcome.ofError id map.validate ∧
    ∀ (calls : List (Call ε)) o, Ends (align map) calls o ↔
      match map.validate with
      | .ok _ => ∃ reply, calls = [⟨.adapt map, reply⟩] ∧ o = Outcome.ofError .adapter reply
      | .error e => calls = [] ∧ o = .error (.error (.unionMap e)) := by
  refine ⟨fun k => validate_eq_ok_iff, fun k => ?_, fun e => validate_eq_error_iff,
    validateStepwise_eq map, fun calls o => ?_⟩
  · rw [validate_eq_ok_iff, consecutive_iff, ordersReal_dummies_iff]
    constructor
    · rintro ⟨rfl, h⟩
      exact ⟨rfl, h⟩
    · rintro ⟨rfl, h⟩
      exact ⟨rfl, h⟩
  · split
    next k hvalid => exact isCall_align hvalid calls o
    next e herror => exact ends_align_error herror

/-- Row 1 is reported although the positions leave a gap as well. -/
example : validate [3, 3, -1, -1] = .error (.repeatedPosition 3) := by decide

end IndexMap

end PrivateLift
