import PrivateLift.Input
import PrivateLift.Row.Record
import PrivateLift.UnionMap

/-!
# Packing local rows

The local columns are padded to the union size, turned into one record per row, and serialized in
the order of the union map: packed row `k` is the row whose union map entry is `k`.
-/

namespace PrivateLift

/-- A list cut or extended to a length. -/
def pad {α : Type} (values : List α) (length : Nat) (default : α) : List α :=
  values.take length ++ List.replicate (length - values.length) default

/-- A list of lists cut or extended to an outer and an inner length. -/
def padNested {α : Type} (values : List (List α)) (length inner : Nat) (default : α) :
    List (List α) :=
  pad (values.map (pad · inner default)) length (List.replicate inner default)

/-- The publisher columns, one entry for every row of the union. -/
structure PublisherColumns where
  opportunityTimestamps : List UInt32
  controlPopulation : List Bool
  testPopulation : List Bool
  impressions : List Int64
  breakdownIds : List UInt32

namespace PublisherColumns

/-- Missing entries become zero or false. -/
def ofInput (p : PublisherInput) : PublisherColumns :=
  let n := p.dummyRows.length
  { opportunityTimestamps := pad p.opportunityTimestamps n 0
    controlPopulation := pad p.controlPopulation n false
    testPopulation := pad p.testPopulation n false
    impressions := pad p.impressions n 0
    breakdownIds := pad p.breakdownIds n 0 }

/-- The record of row `i`, if the union has that row. -/
def row? (c : PublisherColumns) (i : Nat) : Option PublisherRow := do
  let timestamp ← c.opportunityTimestamps[i]?
  let control ← c.controlPopulation[i]?
  let test ← c.testPopulation[i]?
  let impressions ← c.impressions[i]?
  let breakdown ← c.breakdownIds[i]?
  return {
    breakdownId := breakdown != 0
    controlPopulation := control
    validOpportunity := timestamp > 0 && (control || test)
    testReach := test && impressions > 0
    opportunityTimestamp := timestamp }

end PublisherColumns

/-- The partner columns, one entry for every row of the union and, in the conversion columns, one
for every conversion slot. -/
structure PartnerColumns where
  cohortGroupIds : List UInt32
  purchaseTimestamps : List (List UInt32)
  purchaseValues : List (List Int64)
  purchaseValuesSquared : List (List Int64)

namespace PartnerColumns

/-- The largest number of conversion slots for which the values of one user, of eight bytes each,
take less than half of the positions that 64 bits can express. The timestamps have only four
bytes. -/
def maxSlots : Nat := 0x0fffffffffffffff

/-- Missing entries become zero. -/
def ofInput (p : PartnerInput) (conversionsPerUser : Nat) : Except Fault PartnerColumns :=
  let n := p.dummyRows.length
  if conversionsPerUser ≤ maxSlots then
    .ok {
      cohortGroupIds := pad p.cohortGroupIds n 0
      purchaseTimestamps := padNested p.purchaseTimestamps n conversionsPerUser 0
      purchaseValues := padNested p.purchaseValues n conversionsPerUser 0
      purchaseValuesSquared := padNested p.purchaseValuesSquared n conversionsPerUser 0 }
  else .error .sizeOverflow

/-- The conversions of one user. The value field has 32 bits, larger values wrap. -/
def conversions (c : Config) : List UInt32 → List Int64 → List Int64 → List ConversionRow
  | timestamp :: timestamps, value :: values, squared :: squares =>
    ⟨timestamp, c.threshold timestamp, value.toInt32, squared⟩ ::
      conversions c timestamps values squares
  | _, _, _ => []

/-- The record of row `i`, if the union has that row. -/
def row? (p : PartnerColumns) (c : Config) (i : Nat) : Option PartnerRow := do
  let timestamps ← p.purchaseTimestamps[i]?
  let values ← p.purchaseValues[i]?
  let squares ← p.purchaseValuesSquared[i]?
  let cohort ← p.cohortGroupIds[i]?
  return {
    anyPurchase := timestamps.any (· > 0)
    cohortGroupId := cohort
    conversions := conversions c timestamps values squares }

end PartnerColumns

/-- Padded columns from which rows are packed. -/
inductive RowSource where
  | publisher (columns : PublisherColumns)
  | partner (columns : PartnerColumns) (config : Config)

namespace RowSource

/-- The padded columns of a local input. -/
def ofInput (input : LocalInput) (c : Config) : Except Fault RowSource :=
  match input with
  | .publisher p => .ok (.publisher (.ofInput p))
  | .partner p => (PartnerColumns.ofInput p c.conversionsPerUser).map (.partner · c)

/-- The role of the packed rows. -/
def role : RowSource → Role
  | publisher _ => .publisher
  | partner _ _ => .partner

/-- Number of bytes of a packed row. -/
def rowWidth : RowSource → Nat
  | publisher _ => Role.publisher.rowWidth 0
  | partner _ c => Role.partner.rowWidth c.conversionsPerUser

/-- The serialized row at index `i` of the union. -/
def packRow (s : RowSource) (i : Nat) : Except Fault Bytes :=
  let blank := List.replicate s.rowWidth 0
  match s with
  | publisher columns =>
    match columns.row? i with
    | some r => r.encode blank
    | none => .error .outOfRange
  | partner columns c =>
    match columns.row? c i with
    | some r => r.encode blank
    | none => .error .outOfRange

end RowSource

namespace IndexMap

/-- Records at every position the row whose entry it is, from row `row` on. `size` is the number of
positions up to the largest one seen. -/
def scatter : (row : Nat) → IndexMap → (owners : Array Nat) → (size : Nat) →
    Except Fault (Array Nat × Nat)
  | _, [], owners, size => .ok (owners, size)
  | row, entry :: rest, owners, size =>
    match position? entry with
    | none => scatter (row + 1) rest owners size
    | some p =>
      if p < owners.size then
        scatter (row + 1) rest (owners.setIfInBounds p row) (max size (p + 1))
      else .error .outOfRange

/-- The inverse of a map: the row at every position up to the largest one. A position without an
entry keeps row 0, one with several the last of them. -/
def inverse (map : IndexMap) : Except Fault (List Nat) := do
  let (owners, size) ← scatter 0 map (Array.replicate map.length 0) 0
  return owners.toList.take size

end IndexMap

/-- The serialized rows in the order of a union map. -/
def RowSource.pack (s : RowSource) (map : IndexMap) : Except Fault (List Bytes) := do
  (← map.inverse).mapM s.packRow

end PrivateLift
