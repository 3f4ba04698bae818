import PrivateLift.Proofs.Packing
import PrivateLift.Proofs.UnionMap.Positions

/-!
# What validation admits, packing keeps

Padding cuts whatever is too long, without a word. Validation bounds the columns by the union, the
timestamps of a user by the slots, and the other lists of the user only by these timestamps, of
which a row may have none. Together this bounds every list (`Follows.length_le`), so that padding
the columns of a valid input only adds entries (`RowSource.Extends`), and a packed row is decoded to
every value that the input has for the row (`LocalInput.ReadBack`). Inputs that disagree about such
a value are therefore packed differently (`RowSource.pack_keeps`).
-/

namespace PrivateLift

/-! ## Padding -/

section Padding

variable {α : Type} {values : List α} {lists : List (List α)} {length inner : Nat}

theorem pad_eq_append (h : values.length ≤ length) (default : α) :
    pad values length default = values ++ List.replicate (length - values.length) default := by
  rw [pad, List.take_of_length_le h]

theorem prefix_pad (h : values.length ≤ length) (default : α) :
    values <+: pad values length default := by
  rw [pad_eq_append h]
  exact List.prefix_append _ _

theorem pad_eq_map (values : List α) (length : Nat) (default : α) :
    pad values length default = (List.range length).map (values.getD · default) := by
  apply List.ext_getElem (by simp)
  intro i hi _
  rw [length_pad] at hi
  rw [List.getElem_map, List.getElem_range]
  exact (List.getElem?_eq_some_iff.1 (pad_getElem? values default hi)).2

/-- Slots filled from a list are its entries, and behind them the default. -/
theorem map_range_getD {β : Type} (f : α → β) (default : α) (h : values.length ≤ length) :
    (List.range length).map (fun slot => f (values.getD slot default)) =
      values.map f ++ List.replicate (length - values.length) (f default) := by
  rw [← List.map_replicate, ← List.map_append, ← pad_eq_append h, pad_eq_map, List.map_map]
  rfl

theorem getD_of_getElem? {i : Nat} {value : α} (h : values[i]? = some value) (default : α) :
    values.getD i default = value := by
  rw [List.getD_eq_getElem?_getD, h, Option.getD_some]

/-- Every list is the beginning of the list in its place. -/
def NestedPrefix (lists padded : List (List α)) : Prop :=
  ∀ (i : Nat) list, lists[i]? = some list → ∃ longer, padded[i]? = some longer ∧ list <+: longer

theorem nestedPrefix_padNested (houter : lists.length ≤ length)
    (hinner : ∀ i, (lists.getD i []).length ≤ inner) (default : α) :
    NestedPrefix lists (padNested lists length inner default) := by
  intro i list hlist
  have hi : i < length := Nat.lt_of_lt_of_le (List.getElem?_eq_some_iff.1 hlist).1 houter
  have hpadded := padNested_getElem? lists inner default hi
  have hbound := hinner i
  rw [getD_of_getElem? hlist] at hpadded hbound
  exact ⟨_, hpadded, prefix_pad hbound default⟩

end Padding

/-- A purchase list is no longer than the timestamps of its row, also where there are none. -/
theorem PartnerInput.Follows.length_le {values : List (List Int64)} {timestamps : List (List UInt32)}
    (h : Follows values timestamps) (i : Nat) :
    (values.getD i []).length ≤ (timestamps.getD i []).length := by
  by_cases hi : i < values.length
  · exact (h i hi).le
  · rw [List.getD_eq_default _ _ (Nat.not_lt.1 hi)]
    exact Nat.zero_le _

/-! ## Padded columns -/

/-- The columns begin with the columns of the input. -/
structure PublisherColumns.Extend (columns : PublisherColumns) (p : PublisherInput) : Prop where
  opportunityTimestamps : p.opportunityTimestamps <+: columns.opportunityTimestamps
  controlPopulation : p.controlPopulation <+: columns.controlPopulation
  testPopulation : p.testPopulation <+: columns.testPopulation
  impressions : p.impressions <+: columns.impressions
  breakdownIds : p.breakdownIds <+: columns.breakdownIds

/-- The columns, and the lists in them, begin with those of the input. -/
structure PartnerColumns.Extend (columns : PartnerColumns) (q : PartnerInput) : Prop where
  cohortGroupIds : q.cohortGroupIds <+: columns.cohortGroupIds
  purchaseTimestamps : NestedPrefix q.purchaseTimestamps columns.purchaseTimestamps
  purchaseValues : NestedPrefix q.purchaseValues columns.purchaseValues
  purchaseValuesSquared : NestedPrefix q.purchaseValuesSquared columns.purchaseValuesSquared

/-- The padded columns have all entries of the columns of the input. -/
def RowSource.Extends : RowSource → LocalInput → Prop
  | .publisher columns, .publisher p => columns.Extend p
  | .partner columns _, .partner q => columns.Extend q
  | _, _ => False

theorem PublisherColumns.extend_ofInput {p : PublisherInput} (h : p.validate = .ok ()) :
    (ofInput p).Extend p := by
  simp only [PublisherInput.validate, check_bind_eq_ok, Column.checkLength_eq_ok_iff] at h
  obtain ⟨htimestamps, hcontrol, htest, himpressions, hbreakdown⟩ := h
  exact ⟨prefix_pad htimestamps 0, prefix_pad hcontrol false, prefix_pad htest false,
    prefix_pad himpressions 0, prefix_pad hbreakdown 0⟩

theorem PartnerColumns.extend_ofInput {q : PartnerInput} {n : Nat} {columns : PartnerColumns}
    (h : q.validate n = .ok ()) (hcolumns : ofInput q n = .ok columns) : columns.Extend q := by
  obtain ⟨hbounded, hvalues, hsquares⟩ := (q.validate_eq_ok_iff n).1 h
  have htimestamps := PartnerInput.length_le_of_validate h
  rw [ofInput] at hcolumns
  split at hcolumns
  · cases hcolumns
    exact {
      cohortGroupIds := prefix_pad hbounded.cohortGroupIds 0
      purchaseTimestamps := nestedPrefix_padNested hbounded.purchaseTimestamps htimestamps 0
      purchaseValues := nestedPrefix_padNested hbounded.purchaseValues
        (fun i => (hvalues.length_le i).trans (htimestamps i)) 0
      purchaseValuesSquared := nestedPrefix_padNested hbounded.purchaseValuesSquared
        (fun i => (hsquares.length_le i).trans (htimestamps i)) 0 }
  · cases hcolumns

namespace LocalInput

theorem validate_publisher_inv {p : PublisherInput} {c : Config}
    (h : (publisher p).validate c = .ok ()) : p.validate = .ok () := by
  rw [validate] at h
  split at h
  · cases h
  · exact h

end LocalInput

theorem RowSource.extends_ofInput {input : LocalInput} {c : Config} {source : RowSource}
    (hvalid : input.validate c = .ok ()) (hsource : ofInput input c = .ok source) :
    source.Extends input := by
  cases input with
  | publisher p =>
    cases hsource
    exact PublisherColumns.extend_ofInput (LocalInput.validate_publisher_inv hvalid)
  | partner q =>
    obtain ⟨columns, hcolumns, rfl⟩ := ofInput_partner_inv hsource
    exact PartnerColumns.extend_ofInput ((LocalInput.validate_partner_eq_ok_iff q c).1 hvalid).2
      hcolumns

/-! ## Records -/

/-- A partner record that holds row `i` of the input: what the row has in the conversion columns
fills the first slots, and all slots behind it hold 0. A purchase value is kept modulo 2^32. -/
structure PartnerRow.Keeps (r : PartnerRow) (q : PartnerInput) (c : Config) (i : Nat) : Prop where
  slots : r.conversions.length = c.conversionsPerUser
  cohortGroupId : r.cohortGroupId = q.cohortGroupIds.getD i 0
  anyPurchase : r.anyPurchase = (q.purchaseTimestamps.getD i []).any (· > 0)
  purchaseTimestamps : r.conversions.map (·.purchaseTimestamp) =
    q.purchaseTimestamps.getD i [] ++
      List.replicate (c.conversionsPerUser - (q.purchaseTimestamps.getD i []).length) 0
  thresholdTimestamps : r.conversions.map (·.thresholdTimestamp) =
    (q.purchaseTimestamps.getD i []).map c.threshold ++
      List.replicate (c.conversionsPerUser - (q.purchaseTimestamps.getD i []).length) 0
  purchaseValues : r.conversions.map (·.purchaseValue) =
    (q.purchaseValues.getD i []).map Int64.toInt32 ++
      List.replicate (c.conversionsPerUser - (q.purchaseValues.getD i []).length) 0
  purchaseValuesSquared : r.conversions.map (·.purchaseValueSquared) =
    q.purchaseValuesSquared.getD i [] ++
      List.replicate (c.conversionsPerUser - (q.purchaseValuesSquared.getD i []).length) 0

theorem PartnerInput.keeps_rowAt {q : PartnerInput} {c : Config}
    (h : q.validate c.conversionsPerUser = .ok ()) (i : Nat) : (q.rowAt c i).Keeps q c i := by
  obtain ⟨-, hvalues, hsquares⟩ := (q.validate_eq_ok_iff _).1 h
  have htimestamps := length_le_of_validate h i
  refine ⟨by simp [rowAt], rfl, rfl, ?_, ?_, ?_, ?_⟩ <;> rw [rowAt, List.map_map]
  · exact (pad_eq_map _ _ 0).symm.trans (pad_eq_append htimestamps 0)
  · exact map_range_getD c.threshold 0 htimestamps
  · exact map_range_getD Int64.toInt32 0 ((hvalues.length_le i).trans htimestamps)
  · exact (pad_eq_map _ _ 0).symm.trans
      (pad_eq_append ((hsquares.length_le i).trans htimestamps) 0)

namespace LocalInput

/-- The bytes are decoded to what the input has for row `i`. -/
def ReadBack (input : LocalInput) (c : Config) (i : Nat) (row : Bytes) : Prop :=
  match input with
  | publisher p => PublisherRow.decode row = .ok (p.rowAt i)
  | partner q => ∃ r, PartnerRow.decode row c.conversionsPerUser = .ok r ∧ r.Keeps q c i

/-- Two inputs that both have a value for row `i`, but not the same. -/
inductive DifferAt (i : Nat) : LocalInput → LocalInput → Prop
  | opportunityTimestamp {p p' : PublisherInput} {a b : UInt32} (hne : a ≠ b)
    (ha : p.opportunityTimestamps[i]? = some a) (hb : p'.opportunityTimestamps[i]? = some b) :
    DifferAt i (publisher p) (publisher p')
  | cohortGroupId {q q' : PartnerInput} {a b : UInt32} (hne : a ≠ b)
    (ha : q.cohortGroupIds[i]? = some a) (hb : q'.cohortGroupIds[i]? = some b) :
    DifferAt i (partner q) (partner q')
  | purchaseTimestamp {q q' : PartnerInput} {a b : UInt32} (slot : Nat) (hne : a ≠ b)
    (ha : (q.purchaseTimestamps.getD i [])[slot]? = some a)
    (hb : (q'.purchaseTimestamps.getD i [])[slot]? = some b) :
    DifferAt i (partner q) (partner q')
  | purchaseValueSquared {q q' : PartnerInput} {a b : Int64} (slot : Nat) (hne : a ≠ b)
    (ha : (q.purchaseValuesSquared.getD i [])[slot]? = some a)
    (hb : (q'.purchaseValuesSquared.getD i [])[slot]? = some b) :
    DifferAt i (partner q) (partner q')

end LocalInput

/-- Extended lists agree where both of the lists have an entry. -/
theorem entry_eq_of_append_eq {α : Type} {list list' tail tail' : List α} {k : Nat} {a b : α}
    (h : list ++ tail = list' ++ tail') (ha : list[k]? = some a) (hb : list'[k]? = some b) :
    a = b := by
  have hleft : (list ++ tail)[k]? = some a := by
    rw [List.getElem?_append_left (List.getElem?_eq_some_iff.1 ha).1, ha]
  rw [h, List.getElem?_append_left (List.getElem?_eq_some_iff.1 hb).1, hb] at hleft
  exact (Option.some.inj hleft).symm

namespace LocalInput

variable {input other : LocalInput} {c : Config} {i : Nat}

/-- Bytes are decoded to one record, which then holds the rows of all inputs that they are read back
to. -/
theorem ReadBack.keeps_both {q q' : PartnerInput} {row : Bytes} (h : (partner q).ReadBack c i row)
    (h' : (partner q').ReadBack c i row) : ∃ r : PartnerRow, r.Keeps q c i ∧ r.Keeps q' c i := by
  obtain ⟨r, hr, hkeeps⟩ := h
  obtain ⟨r', hr', hkeeps'⟩ := h'
  obtain rfl := Except.ok.inj (hr.symm.trans hr')
  exact ⟨r, hkeeps, hkeeps'⟩

/-- No bytes are read back to two inputs that differ. -/
theorem DifferAt.not_readBack {row : Bytes} (hdiffer : DifferAt i input other)
    (h : input.ReadBack c i row) : ¬other.ReadBack c i row := by
  intro h'
  cases hdiffer with
  | opportunityTimestamp hne ha hb =>
    have hrow := congrArg PublisherRow.opportunityTimestamp (Except.ok.inj (h.symm.trans h'))
    exact hne ((getD_of_getElem? ha 0).symm.trans (hrow.trans (getD_of_getElem? hb 0)))
  | cohortGroupId hne ha hb =>
    obtain ⟨r, hkeeps, hkeeps'⟩ := h.keeps_both h'
    have hcohort := hkeeps.cohortGroupId.symm.trans hkeeps'.cohortGroupId
    rw [getD_of_getElem? ha, getD_of_getElem? hb] at hcohort
    exact hne hcohort
  | purchaseTimestamp slot hne ha hb =>
    obtain ⟨r, hkeeps, hkeeps'⟩ := h.keeps_both h'
    exact hne (entry_eq_of_append_eq
      (hkeeps.purchaseTimestamps.symm.trans hkeeps'.purchaseTimestamps) ha hb)
  | purchaseValueSquared slot hne ha hb =>
    obtain ⟨r, hkeeps, hkeeps'⟩ := h.keeps_both h'
    exact hne (entry_eq_of_append_eq
      (hkeeps.purchaseValuesSquared.symm.trans hkeeps'.purchaseValuesSquared) ha hb)

theorem DifferAt.role_eq (h : DifferAt i input other) : input.role = other.role := by
  cases h <;> rfl

end LocalInput

namespace RowSource

variable {input : LocalInput} {c : Config} {source : RowSource} {u : IndexMap} {k : Nat}

theorem readBack_rowAt (hvalid : input.validate c = .ok ()) (hsource : ofInput input c = .ok source)
    {i : Nat} (hi : i < input.unionSize) : input.ReadBack c i (source.rowAt i) := by
  have hlen := (packRow_ok hsource hi).2
  cases input with
  | publisher p =>
    rw [LocalInput.ReadBack, PublisherRow.decode_ok hlen.ge, ofBytes_publisher hsource hi]
  | partner q =>
    have hvalid := ((LocalInput.validate_partner_eq_ok_iff q c).1 hvalid).2
    refine ⟨q.rowAt c i, ?_, q.keeps_rowAt hvalid i⟩
    rw [PartnerRow.decode_ok hlen.ge, ofBytes_partner hsource hvalid hi]

theorem pack_readBack (hvalid : input.validate c = .ok ()) (hsource : ofInput input c = .ok source)
    (hu : u.validate = .ok k) (hlen : u.length = input.unionSize) :
    ∃ rows, source.pack u = .ok rows ∧ ∀ (i : Nat) entry, u[i]? = some entry → 0 ≤ entry.toInt →
      ∃ row, rows[entry.toInt.toNat]? = some row ∧ input.ReadBack c i row := by
  have hnumbers := IndexMap.numbers_of_validate hu
  refine ⟨_, pack_numbers hsource hnumbers hlen.le, fun i entry hentry hset => ?_⟩
  have hi : i < input.unionSize := hlen ▸ (List.getElem?_eq_some_iff.1 hentry).1
  refine ⟨source.rowAt i, ?_, readBack_rowAt hvalid hsource hi⟩
  rw [List.getElem?_map, hnumbers.getElem?_owners hentry hset, Option.map_some]

/-- The columns of a valid input can be padded if the slots can be stored. They lose nothing, and in
the slot of every row of the union the packed rows have bytes that are decoded to what the input has
for this row. If another valid input has another value there, then its packed rows have other bytes
in this slot. -/
theorem pack_keeps (hvalid : input.validate c = .ok ()) :
    ((∃ source, ofInput input c = .ok source) ↔
      (input.role = .partner → c.conversionsPerUser ≤ PartnerColumns.maxSlots)) ∧
    ∀ source, ofInput input c = .ok source → source.Extends input ∧
      ∀ (u : IndexMap) k, u.validate = .ok k → u.length = input.unionSize →
        ∃ rows, source.pack u = .ok rows ∧
          ∀ (i : Nat) entry, u[i]? = some entry → 0 ≤ entry.toInt →
            ∃ row, rows[entry.toInt.toNat]? = some row ∧ input.ReadBack c i row ∧
              ∀ other : LocalInput, other.validate c = .ok () →
                other.unionSize = input.unionSize → LocalInput.DifferAt i input other →
                ∃ source' rows' row', ofInput other c = .ok source' ∧
                  source'.pack u = .ok rows' ∧ rows'[entry.toInt.toNat]? = some row' ∧
                  row' ≠ row := by
  refine ⟨ofInput_ok_iff, fun source hsource => ⟨extends_ofInput hvalid hsource, ?_⟩⟩
  intro u k hu hlen
  obtain ⟨rows, hrows, hslots⟩ := pack_readBack hvalid hsource hu hlen
  refine ⟨rows, hrows, fun i entry hentry hset => ?_⟩
  obtain ⟨row, hrow, hback⟩ := hslots i entry hentry hset
  refine ⟨row, hrow, hback, fun other hother hsize hdiffer => ?_⟩
  have hstored : ∃ source', ofInput other c = .ok source' :=
    ofInput_ok_iff.2 (hdiffer.role_eq ▸ ofInput_ok_iff.1 ⟨source, hsource⟩)
  obtain ⟨source', hsource'⟩ := hstored
  obtain ⟨rows', hrows', hslots'⟩ := pack_readBack hother hsource' hu (hlen.trans hsize.symm)
  obtain ⟨row', hrow', hback'⟩ := hslots' i entry hentry hset
  refine ⟨source', rows', row', hsource', hrows', hrow', ?_⟩
  rintro rfl
  exact hdiffer.not_readBack hback hback'

/-- Two purchases in three slots, one of them with a value of 33 bits, and no squares. -/
theorem pack_keeps_two_purchases :
    let q : PartnerInput :=
      { cohortGroupIds := [5], purchaseTimestamps := [[1, 2]],
        purchaseValues := [[4294967303, -1]], dummyRows := [false, true, false] }
    let c : Config := ⟨.partner, 3, 10⟩
    ∃ source rows row r, ofInput (.partner q) c = .ok source ∧ source.pack [1, -1, 0] = .ok rows ∧
      rows[1]? = some row ∧ PartnerRow.decode row 3 = .ok r ∧
      r.conversions.map (·.purchaseTimestamp) = [1, 2, 0] ∧
      r.conversions.map (·.purchaseValue) = [7, -1, 0] ∧
      r.conversions.map (·.purchaseValueSquared) = [0, 0, 0] ∧
      ∃ source' rows' row',
        ofInput (.partner { q with purchaseTimestamps := [[1, 3]] }) c = .ok source' ∧
        source'.pack [1, -1, 0] = .ok rows' ∧ rows'[1]? = some row' ∧ row' ≠ row := by
  intro q c
  obtain ⟨hstored, hkept⟩ := pack_keeps (show (LocalInput.partner q).validate c = .ok () from rfl)
  obtain ⟨source, hsource⟩ := hstored.2 fun _ => by decide
  obtain ⟨-, hpacked⟩ := hkept source hsource
  obtain ⟨rows, hrows, hslots⟩ := hpacked [1, -1, 0] 2 rfl rfl
  obtain ⟨row, hrow, ⟨r, hr, hkeeps⟩, hother⟩ := hslots 0 1 rfl (by decide)
  have hdiffer : LocalInput.DifferAt 0 (.partner q)
      (.partner { q with purchaseTimestamps := [[1, 3]] }) :=
    .purchaseTimestamp 1 (show (2 : UInt32) ≠ 3 by decide) rfl rfl
  exact ⟨source, rows, row, r, hsource, hrows, hrow, hr, hkeeps.purchaseTimestamps,
    hkeeps.purchaseValues, hkeeps.purchaseValuesSquared, hother _ rfl rfl hdiffer⟩

end RowSource

end PrivateLift
