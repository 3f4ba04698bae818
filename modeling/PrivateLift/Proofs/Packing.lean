import PrivateLift.Packing
import PrivateLift.Proofs.Input
import PrivateLift.Proofs.Row.Record
import PrivateLift.Proofs.UnionMap

/-!
# Packing cannot fail and packs the records of the input

`PublisherInput.rowAt` and `PartnerInput.recordAt` are the records that the columns of an input
stand for, missing entries counting as zero or false; for a valid partner input the latter is
`PartnerInput.rowAt`. A row of the union is packed by writing this record over zeros
(`LocalInput.encodedRow`, `packRow_eq_encodedRow`), which succeeds with bytes of the announced width
that stand for it. The inverse of a map that numbers its rows is the list of these rows
(`Numbers.inverse_ok`), so the rows are packed in the order of any such map (`pack_numbers`).
-/

namespace PrivateLift

/-! ## Padding -/

theorem pad_getElem? {α : Type} (values : List α) {length i : Nat} (default : α)
    (h : i < length) : (pad values length default)[i]? = some (values.getD i default) := by
  rw [pad, List.getD_eq_getElem?_getD]
  by_cases hi : i < values.length
  · rw [List.getElem?_append_left (by rw [List.length_take]; omega), List.getElem?_take_of_lt h,
      List.getElem?_eq_getElem hi]
    rfl
  · have hlen : (values.take length).length = values.length := by
      rw [List.length_take]
      omega
    rw [List.getElem?_append_right (by omega), hlen, List.getElem?_replicate,
      if_pos (by omega), List.getElem?_eq_none (by omega)]
    rfl

@[simp] theorem length_pad {α : Type} (values : List α) (length : Nat) (default : α) :
    (pad values length default).length = length := by
  rw [pad, List.length_append, List.length_take, List.length_replicate]
  omega

theorem padNested_getElem? {α : Type} (values : List (List α)) {length i : Nat} (inner : Nat)
    (default : α) (h : i < length) :
    (padNested values length inner default)[i]? = some (pad (values.getD i []) inner default) := by
  rw [padNested, pad_getElem? _ _ h, List.getD_eq_getElem?_getD, List.getElem?_map,
    List.getD_eq_getElem?_getD]
  cases values[i]? with
  | none => simp [pad]
  | some list => rfl

theorem any_pad (values : List UInt32) (length : Nat) :
    (pad values length 0).any (· > 0) = (values.take length).any (· > 0) := by
  have hzero : (List.replicate (length - values.length) (0 : UInt32)).any (· > 0) = false := by
    rw [List.any_eq_false]
    intro value hvalue
    rw [List.eq_of_mem_replicate hvalue]
    decide
  rw [pad, List.any_append, hzero, Bool.or_false]

/-! ## The records of an input -/

/-- The record of row `i`. -/
def PublisherInput.rowAt (p : PublisherInput) (i : Nat) : PublisherRow :=
  let timestamp := p.opportunityTimestamps.getD i 0
  let control := p.controlPopulation.getD i false
  let test := p.testPopulation.getD i false
  { breakdownId := p.breakdownIds.getD i 0 != 0
    controlPopulation := control
    validOpportunity := timestamp > 0 && (control || test)
    testReach := test && p.impressions.getD i 0 > 0
    opportunityTimestamp := timestamp }

namespace PartnerInput

/-- The conversion of row `i` in a slot. -/
def conversionAt (q : PartnerInput) (c : Config) (i slot : Nat) : ConversionRow :=
  let timestamp := (q.purchaseTimestamps.getD i []).getD slot 0
  { purchaseTimestamp := timestamp
    thresholdTimestamp := c.threshold timestamp
    purchaseValue := ((q.purchaseValues.getD i []).getD slot 0).toInt32
    purchaseValueSquared := (q.purchaseValuesSquared.getD i []).getD slot 0 }

/-- The record of row `i`. -/
def rowAt (q : PartnerInput) (c : Config) (i : Nat) : PartnerRow :=
  { anyPurchase := (q.purchaseTimestamps.getD i []).any (· > 0)
    cohortGroupId := q.cohortGroupIds.getD i 0
    conversions := (List.range c.conversionsPerUser).map (q.conversionAt c i) }

/-- The record of row `i` of any input: timestamps behind the last slot do not count. -/
def recordAt (q : PartnerInput) (c : Config) (i : Nat) : PartnerRow :=
  { q.rowAt c i with
    anyPurchase := ((q.purchaseTimestamps.getD i []).take c.conversionsPerUser).any (· > 0) }

theorem length_le_of_validate {q : PartnerInput} {n : Nat} (h : q.validate n = .ok ()) (i : Nat) :
    (q.purchaseTimestamps.getD i []).length ≤ n := by
  by_cases hi : i < q.purchaseTimestamps.length
  · rw [List.getD_eq_getElem _ _ hi]
    exact ((q.validate_eq_ok_iff n).1 h).1.purchases _ (List.getElem_mem hi)
  · rw [List.getD_eq_default _ _ (Nat.not_lt.1 hi)]
    exact Nat.zero_le n

/-- In a valid input there are no timestamps behind the last slot. -/
theorem recordAt_eq_rowAt {q : PartnerInput} {c : Config}
    (h : q.validate c.conversionsPerUser = .ok ()) (i : Nat) : q.recordAt c i = q.rowAt c i := by
  rw [recordAt, rowAt, List.take_of_length_le (length_le_of_validate h i)]

end PartnerInput

theorem PublisherColumns.row?_ofInput (p : PublisherInput) {i : Nat} (h : i < p.dummyRows.length) :
    (PublisherColumns.ofInput p).row? i = some (p.rowAt i) := by
  simp only [row?, ofInput, pad_getElem? _ _ h]
  rfl

namespace PartnerColumns

theorem conversions_eq (c : Config) (n : Nat) {timestamps : List UInt32}
    {values squares : List Int64} (ht : timestamps.length = n) (hv : values.length = n)
    (hs : squares.length = n) :
    conversions c timestamps values squares = (List.range n).map fun slot =>
      ⟨timestamps.getD slot 0, c.threshold (timestamps.getD slot 0), (values.getD slot 0).toInt32,
        squares.getD slot 0⟩ := by
  induction n generalizing timestamps values squares with
  | zero =>
    rw [List.eq_nil_of_length_eq_zero ht]
    rfl
  | succ n ih =>
    obtain ⟨t, timestamps, rfl⟩ := List.exists_cons_of_length_eq_add_one ht
    obtain ⟨v, values, rfl⟩ := List.exists_cons_of_length_eq_add_one hv
    obtain ⟨s, squares, rfl⟩ := List.exists_cons_of_length_eq_add_one hs
    rw [conversions, ih (Nat.succ.inj ht) (Nat.succ.inj hv) (Nat.succ.inj hs),
      List.range_succ_eq_map, List.map_cons, List.map_map]
    rfl

theorem row?_ofInput {q : PartnerInput} {c : Config} {columns : PartnerColumns}
    (hcolumns : ofInput q c.conversionsPerUser = .ok columns) {i : Nat}
    (h : i < q.dummyRows.length) : columns.row? c i = some (q.recordAt c i) := by
  rw [ofInput] at hcolumns
  split at hcolumns
  · cases hcolumns
    have hslot : ∀ slot ∈ List.range c.conversionsPerUser,
        (⟨(pad (q.purchaseTimestamps.getD i []) c.conversionsPerUser 0).getD slot 0,
          c.threshold ((pad (q.purchaseTimestamps.getD i []) c.conversionsPerUser 0).getD slot 0),
          ((pad (q.purchaseValues.getD i []) c.conversionsPerUser 0).getD slot 0).toInt32,
          (pad (q.purchaseValuesSquared.getD i []) c.conversionsPerUser 0).getD slot 0⟩ :
          ConversionRow) = q.conversionAt c i slot := by
      intro slot hslot
      have hlt := List.mem_range.1 hslot
      simp only [List.getD_eq_getElem?_getD, pad_getElem? _ _ hlt, Option.getD_some,
        PartnerInput.conversionAt]
    simp only [row?, padNested_getElem? _ _ _ h, pad_getElem? _ _ h, Option.bind_eq_bind,
      Option.bind_some, Option.pure_def, any_pad,
      conversions_eq c c.conversionsPerUser (length_pad _ _ _) (length_pad _ _ _)
        (length_pad _ _ _), List.map_congr_left hslot]
    rfl
  · cases hcolumns

end PartnerColumns

/-! ## Packed rows -/

theorem PublisherInput.encode_rowAt (p : PublisherInput) (i : Nat) :
    ∃ row, (p.rowAt i).encode (List.replicate publisherRowWidth 0) = .ok row ∧
      row.length = publisherRowWidth ∧ PublisherRow.ofBytes row = p.rowAt i := by
  obtain ⟨row, hrow, hlen, hvalue, -⟩ :=
    (p.rowAt i).encode_ok (List.replicate publisherRowWidth 0) (by simp)
  rw [List.length_replicate] at hlen
  exact ⟨row, hrow, hlen, hvalue⟩

theorem PartnerInput.encode_recordAt (q : PartnerInput) (c : Config) (i : Nat) :
    ∃ row, (q.recordAt c i).encode
        (List.replicate (Role.partner.rowWidth c.conversionsPerUser) 0) = .ok row ∧
      row.length = Role.partner.rowWidth c.conversionsPerUser ∧
      PartnerRow.ofBytes row c.conversionsPerUser = q.recordAt c i := by
  have hslots : (q.recordAt c i).conversions.length = c.conversionsPerUser := by
    simp [PartnerInput.recordAt, PartnerInput.rowAt]
  obtain ⟨row, hrow, hlen, hvalue, -⟩ := (q.recordAt c i).encode_ok
    (List.replicate (Role.partner.rowWidth c.conversionsPerUser) 0) (by simp [hslots])
  rw [List.length_replicate] at hlen
  rw [hslots] at hvalue
  exact ⟨row, hrow, hlen, hvalue⟩

namespace RowSource

theorem packRow_publisher (p : PublisherInput) {i : Nat} (h : i < p.dummyRows.length) :
    (publisher (.ofInput p)).packRow i =
      (p.rowAt i).encode (List.replicate publisherRowWidth 0) := by
  rw [packRow]
  simp only [PublisherColumns.row?_ofInput p h]
  rfl

theorem packRow_partner {q : PartnerInput} {c : Config} {columns : PartnerColumns}
    (hcolumns : PartnerColumns.ofInput q c.conversionsPerUser = .ok columns) {i : Nat}
    (h : i < q.dummyRows.length) :
    (partner columns c).packRow i = (q.recordAt c i).encode
      (List.replicate (Role.partner.rowWidth c.conversionsPerUser) 0) := by
  rw [packRow]
  simp only [PartnerColumns.row?_ofInput hcolumns h]
  rfl

theorem ofInput_partner_inv {q : PartnerInput} {c : Config} {s : RowSource}
    (h : ofInput (.partner q) c = .ok s) :
    ∃ columns, PartnerColumns.ofInput q c.conversionsPerUser = .ok columns ∧
      s = partner columns c := by
  cases hcolumns : PartnerColumns.ofInput q c.conversionsPerUser with
  | error f => simp [ofInput, hcolumns, Except.map] at h
  | ok columns =>
    simp only [ofInput, hcolumns, Except.map] at h
    cases h
    exact ⟨columns, rfl, rfl⟩

/-- The columns can be padded if the conversion columns of one user can be stored. -/
theorem ofInput_ok_iff {input : LocalInput} {c : Config} :
    (∃ s, ofInput input c = .ok s) ↔
      (input.role = .partner → c.conversionsPerUser ≤ PartnerColumns.maxSlots) := by
  cases input with
  | publisher p => exact iff_of_true ⟨_, rfl⟩ nofun
  | partner q =>
    rw [ofInput, PartnerColumns.ofInput]
    split
    · next hslots => exact iff_of_true ⟨_, rfl⟩ fun _ => hslots
    · next hslots => exact iff_of_false nofun fun h => hslots (h rfl)

/-- The role and the width of packed rows are known before the columns are. -/
theorem ofInput_inv {input : LocalInput} {c : Config} {s : RowSource} (h : ofInput input c = .ok s) :
    s.role = input.role ∧ s.rowWidth = input.role.rowWidth c.conversionsPerUser := by
  cases input with
  | publisher p =>
    cases h
    exact ⟨rfl, rfl⟩
  | partner q =>
    obtain ⟨columns, -, rfl⟩ := ofInput_partner_inv h
    exact ⟨rfl, rfl⟩

/-- The packed row at an index of the union. -/
def rowAt (s : RowSource) (i : Nat) : Bytes := (s.packRow i).toOption.getD []

theorem rowAt_eq {s : RowSource} {i : Nat} {row : Bytes} (h : s.packRow i = .ok row) :
    s.rowAt i = row := by
  rw [rowAt, h]
  rfl

end RowSource

/-- The record that the columns hold for row `i`, written over zeros. -/
def LocalInput.encodedRow (input : LocalInput) (c : Config) (i : Nat) : Except Fault Bytes :=
  match input with
  | publisher p => (p.rowAt i).encode (List.replicate publisherRowWidth 0)
  | partner q =>
    (q.recordAt c i).encode (List.replicate (Role.partner.rowWidth c.conversionsPerUser) 0)

theorem LocalInput.encodedRow_ok (input : LocalInput) (c : Config) (i : Nat) :
    ∃ row, input.encodedRow c i = .ok row ∧
      row.length = input.role.rowWidth c.conversionsPerUser := by
  cases input with
  | publisher p =>
    obtain ⟨row, hrow, hlen, -⟩ := p.encode_rowAt i
    exact ⟨row, hrow, hlen⟩
  | partner q =>
    obtain ⟨row, hrow, hlen, -⟩ := q.encode_recordAt c i
    exact ⟨row, hrow, hlen⟩

namespace RowSource

variable {input : LocalInput} {c : Config} {s : RowSource} {i : Nat}

theorem packRow_eq_encodedRow (hs : ofInput input c = .ok s) (hi : i < input.unionSize) :
    s.packRow i = input.encodedRow c i := by
  cases input with
  | publisher p =>
    cases hs
    exact packRow_publisher p hi
  | partner q =>
    obtain ⟨columns, hcolumns, rfl⟩ := ofInput_partner_inv hs
    exact packRow_partner hcolumns hi

theorem encodedRow_eq (hs : ofInput input c = .ok s) (hi : i < input.unionSize) :
    input.encodedRow c i = .ok (s.rowAt i) := by
  obtain ⟨row, hrow, -⟩ := input.encodedRow_ok c i
  rw [rowAt_eq ((packRow_eq_encodedRow hs hi).trans hrow), hrow]

/-- Every row of the union can be packed, and the rows have one width. -/
theorem packRow_ok (hs : ofInput input c = .ok s) (hi : i < input.unionSize) :
    s.packRow i = .ok (s.rowAt i) ∧ (s.rowAt i).length = input.role.rowWidth c.conversionsPerUser := by
  obtain ⟨row, hrow, hlen⟩ := input.encodedRow_ok c i
  rw [← packRow_eq_encodedRow hs hi] at hrow
  rw [rowAt_eq hrow]
  exact ⟨hrow, hlen⟩

theorem ofBytes_publisher {p : PublisherInput} (hs : ofInput (.publisher p) c = .ok s)
    (hi : i < p.dummyRows.length) : PublisherRow.ofBytes (s.rowAt i) = p.rowAt i := by
  cases hs
  obtain ⟨row, hrow, -, hvalue⟩ := p.encode_rowAt i
  rw [rowAt_eq ((packRow_publisher p hi).trans hrow), hvalue]

theorem ofBytes_partner {q : PartnerInput} (hs : ofInput (.partner q) c = .ok s)
    (hvalid : q.validate c.conversionsPerUser = .ok ()) (hi : i < q.dummyRows.length) :
    PartnerRow.ofBytes (s.rowAt i) c.conversionsPerUser = q.rowAt c i := by
  obtain ⟨columns, hcolumns, rfl⟩ := ofInput_partner_inv hs
  obtain ⟨row, hrow, -, hvalue⟩ := q.encode_recordAt c i
  rw [rowAt_eq ((packRow_partner hcolumns hi).trans hrow), hvalue,
    PartnerInput.recordAt_eq_rowAt hvalid]

end RowSource

/-! ## The inverse of a map -/

namespace IndexMap

/-- The state of the inversion before row `row`: the earlier rows are entered at their positions,
and the size covers these positions and no others. -/
structure Scattered (owners : List Nat) (size row : Nat) (entered : Array Nat) (used : Nat) :
    Prop where
  size_eq : entered.size = size
  entered_eq : ∀ p r, owners[p]? = some r → r < row → entered[p]? = some r ∧ p < used
  used_le : used ≤ owners.length

theorem scatter_ok {map : IndexMap} {owners : List Nat} (h : Numbers map owners) (rest : IndexMap)
    {row used : Nat} {entered : Array Nat} (hrest : map.drop row = rest)
    (hinv : Scattered owners map.length row entered used) :
    ∃ entered' used', scatter row rest entered used = .ok (entered', used') ∧
      Scattered owners map.length (row + rest.length) entered' used' := by
  induction rest generalizing row used entered with
  | nil => exact ⟨entered, used, rfl, hinv⟩
  | cons entry rest ih =>
    have hentry : map[row]? = some entry := by
      rw [← List.head?_drop, hrest]
      rfl
    have hdrop : map.drop (row + 1) = rest := by
      rw [← List.tail_drop, hrest]
      rfl
    have hlen : row + (entry :: rest).length = row + 1 + rest.length := by
      rw [List.length_cons]
      omega
    rw [hlen]
    rcases h.entry_cases hentry with ⟨hrow, rfl⟩ | ⟨p, hp, rfl, hlt, hle⟩
    · have hnone : position? unset = none := by decide
      rw [scatter, hnone]
      refine ih hdrop ⟨hinv.size_eq, ?_, hinv.used_le⟩
      intro q r hq hr
      have hne : r ≠ row := fun heq => hrow (heq ▸ List.mem_of_getElem? hq)
      exact hinv.entered_eq q r hq (by omega)
    · rw [scatter, position?_ofNat hle]
      simp only [hinv.size_eq, hlt, if_true]
      refine ih hdrop ⟨(Array.size_setIfInBounds ..).trans hinv.size_eq, ?_, ?_⟩
      · intro q r hq hr
        by_cases hqp : p = q
        · subst hqp
          rw [hp] at hq
          cases hq
          rw [Array.getElem?_setIfInBounds_self_of_lt (hinv.size_eq ▸ hlt)]
          exact ⟨rfl, by omega⟩
        · have hne : r ≠ row := by
            intro heq
            have hlt := (List.getElem?_eq_some_iff.1 hp).1
            exact hqp ((List.getElem?_inj hlt h.nodup).1 (hp.trans (heq ▸ hq).symm))
          obtain ⟨hentered, hused⟩ := hinv.entered_eq q r hq (by omega)
          rw [Array.getElem?_setIfInBounds_ne hqp]
          exact ⟨hentered, by omega⟩
      · have := (List.getElem?_eq_some_iff.1 hp).1
        have := hinv.used_le
        omega

/-- The inverse of a map is the list of the rows that it numbers. -/
theorem Numbers.inverse_ok {map : IndexMap} {owners : List Nat} (h : Numbers map owners) :
    map.inverse = .ok owners := by
  have hstart : Scattered owners map.length 0 (Array.replicate map.length 0) 0 :=
    ⟨Array.size_replicate, fun _ _ _ hr => absurd hr (Nat.not_lt_zero _), Nat.zero_le _⟩
  obtain ⟨entered, used, hscatter, hend⟩ := scatter_ok h map List.drop_zero hstart
  rw [Nat.zero_add] at hend
  have hentered : ∀ p (hp : p < owners.length), entered[p]? = some owners[p] ∧ p < used := by
    intro p hp
    exact hend.entered_eq p _ (List.getElem?_eq_getElem hp) (h.lt_of_mem (List.getElem_mem hp))
  have hused : used = owners.length := by
    have := hend.used_le
    by_cases hzero : owners.length = 0
    · omega
    · have := (hentered (owners.length - 1) (by omega)).2
      omega
  have hsize : owners.length ≤ entered.size := hend.size_eq ▸ h.length_owners_le
  have htake : entered.toList.take used = owners := by
    apply List.ext_getElem
    · rw [List.length_take, Array.length_toList]
      omega
    intro p hp hp'
    have := (hentered p hp').1
    rw [← Array.getElem?_toList] at this
    rw [List.getElem_take]
    exact (List.getElem?_eq_some_iff.1 this).2
  rw [inverse, hscatter]
  simp only [bind, Except.bind, pure, Except.pure, htake]

end IndexMap

/-- The rows that a map numbers are packed in its order. -/
theorem RowSource.pack_numbers {input : LocalInput} {c : Config} {s : RowSource}
    {map : IndexMap} {owners : List Nat} (hs : ofInput input c = .ok s) (h : map.Numbers owners)
    (hlen : map.length ≤ input.unionSize) : s.pack map = .ok (owners.map s.rowAt) := by
  rw [pack, h.inverse_ok]
  apply mapM_map_ok
  intro i hi
  exact (packRow_ok hs (Nat.lt_of_lt_of_le (h.lt_of_mem hi) hlen)).1

end PrivateLift
