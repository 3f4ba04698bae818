import PrivateLift.Config

/-!
# Local columns of the publisher and the partner

Both parties hold one entry per row of the union of their populations. Rows that a party does not
have are marked as dummies; they only hide the size of its population. A column may be shorter than
the union, the missing entries count as zero, but it is never allowed to be longer.
`LocalInput.validate` checks this shape.
-/

namespace PrivateLift

/-- The names of the input columns. -/
inductive Column where
  | opportunityTimestamps
  | controlPopulation
  | testPopulation
  | impressions
  | breakdownIds
  | cohortGroupIds
  | purchaseTimestamps
  | purchaseValues
  | purchaseValuesSquared
  | dummyRows
  deriving DecidableEq, Repr

/-- The name of a column in documents and error texts. -/
def Column.name : Column → String
  | opportunityTimestamps => "opportunity_timestamps"
  | controlPopulation => "control_population"
  | testPopulation => "test_population"
  | impressions => "num_impressions"
  | breakdownIds => "breakdown_ids"
  | cohortGroupIds => "cohort_group_ids"
  | purchaseTimestamps => "purchase_timestamps"
  | purchaseValues => "purchase_values"
  | purchaseValuesSquared => "purchase_values_squared"
  | dummyRows => "dummy_rows"

/-- Exposure data of the publisher, one entry per union row. -/
structure PublisherInput where
  /-- Time of the ad opportunity, 0 if there was none. -/
  opportunityTimestamps : List UInt32 := []
  /-- Membership in the control population. -/
  controlPopulation : List Bool := []
  /-- Membership in the test population. -/
  testPopulation : List Bool := []
  /-- Number of impressions that the user saw. -/
  impressions : List Int64 := []
  /-- Breakdown of the user; any id but zero sets the breakdown bit. -/
  breakdownIds : List UInt32 := []
  /-- Marks the rows that are padding only. -/
  dummyRows : List Bool := []
  deriving DecidableEq, Inhabited

/-- Purchase data of the partner, one entry per union row. -/
structure PartnerInput where
  /-- Cohort of the user. -/
  cohortGroupIds : List UInt32 := []
  /-- Purchase timestamps of every user, at most `Config.conversionsPerUser` each. -/
  purchaseTimestamps : List (List UInt32) := []
  /-- Purchase values of every user, one for each purchase timestamp. -/
  purchaseValues : List (List Int64) := []
  /-- Squared purchase values of every user, one for each purchase timestamp. -/
  purchaseValuesSquared : List (List Int64) := []
  /-- Marks the rows that are padding only. -/
  dummyRows : List Bool := []
  deriving DecidableEq, Inhabited

/-- The local input of either party. -/
inductive LocalInput where
  | publisher (input : PublisherInput)
  | partner (input : PartnerInput)
  deriving DecidableEq, Inhabited

/-- Why a local input does not fit a configuration. -/
inductive InputError where
  /-- The configured role is not the role of the input. -/
  | roleMismatch (configured input : Role)
  /-- A column has more entries than the union has rows. -/
  | columnTooLong (column : Column) (length unionSize : Nat)
  /-- A user has more conversions than the configuration allows. -/
  | tooManyConversions (column : Column) (row length limit : Nat)
  /-- A column disagrees with the purchase timestamps on the number of conversions of a user. -/
  | conversionShapeMismatch (column : Column) (row timestamps length : Nat)
  deriving DecidableEq, Repr

/-- The text that reports an input of the wrong shape. -/
def InputError.message : InputError → String
  | roleMismatch configured input =>
    s!"configured as {configured.name} but the local input belongs to the {input.name}"
  | columnTooLong column length unionSize =>
    s!"column '{column.name}' has {length} entries but the union only has {unionSize} rows"
  | tooManyConversions column row length limit =>
    s!"row {row} of '{column.name}' has {length} conversions, at most {limit} are allowed"
  | conversionShapeMismatch column row timestamps length =>
    s!"row {row} has {timestamps} purchase timestamps but '{column.name}' has {length} entries"

/-- A column with `length` entries fits a union of `unionSize` rows. -/
def Column.checkLength (column : Column) (length unionSize : Nat) : Except InputError Unit :=
  if length > unionSize then .error (.columnTooLong column length unionSize) else .ok ()

/-- Every column is at most as long as the union; the first one that is not is reported. -/
def PublisherInput.validate (p : PublisherInput) : Except InputError Unit := do
  let n := p.dummyRows.length
  Column.opportunityTimestamps.checkLength p.opportunityTimestamps.length n
  Column.controlPopulation.checkLength p.controlPopulation.length n
  Column.testPopulation.checkLength p.testPopulation.length n
  Column.impressions.checkLength p.impressions.length n
  Column.breakdownIds.checkLength p.breakdownIds.length n

namespace PartnerInput

/-- No user has more than `limit` purchase timestamps; the first one who does is reported. -/
def checkConversionCounts (timestamps : List (List UInt32)) (limit : Nat) :
    Except InputError Unit :=
  match timestamps.zipIdx.find? fun (list, _) => list.length > limit with
  | some (list, row) => .error (.tooManyConversions .purchaseTimestamps row list.length limit)
  | none => .ok ()

/-- Every list of a conversion column is as long as the timestamps of its row, where a row without
timestamps counts as the empty list; the first one that is not is reported. -/
def checkConversionShape (column : Column) (values : List (List Int64))
    (timestamps : List (List UInt32)) : Except InputError Unit :=
  match values.zipIdx.find? fun (list, row) => list.length != (timestamps.getD row []).length with
  | some (list, row) =>
    .error (.conversionShapeMismatch column row (timestamps.getD row []).length list.length)
  | none => .ok ()

/-- Column lengths are checked first, then the number of conversions of every user, then the two
value columns against the timestamps. -/
def validate (p : PartnerInput) (conversionsPerUser : Nat) : Except InputError Unit := do
  let n := p.dummyRows.length
  Column.cohortGroupIds.checkLength p.cohortGroupIds.length n
  Column.purchaseTimestamps.checkLength p.purchaseTimestamps.length n
  Column.purchaseValues.checkLength p.purchaseValues.length n
  Column.purchaseValuesSquared.checkLength p.purchaseValuesSquared.length n
  checkConversionCounts p.purchaseTimestamps conversionsPerUser
  checkConversionShape .purchaseValues p.purchaseValues p.purchaseTimestamps
  checkConversionShape .purchaseValuesSquared p.purchaseValuesSquared p.purchaseTimestamps

end PartnerInput

namespace LocalInput

/-- The role of the party that holds the input. -/
def role : LocalInput → Role
  | publisher _ => .publisher
  | partner _ => .partner

/-- The dummy flag of every union row. -/
def dummyRows : LocalInput → List Bool
  | publisher p => p.dummyRows
  | partner p => p.dummyRows

/-- Number of rows in the union, dummies included. -/
def unionSize (i : LocalInput) : Nat := i.dummyRows.length

/-- Number of dummy rows. -/
def dummyCount (i : LocalInput) : Nat := i.dummyRows.countP id

/-- The input fits the configuration: it belongs to the configured role and its columns have the
required shape. -/
def validate (i : LocalInput) (c : Config) : Except InputError Unit :=
  if i.role ≠ c.role then .error (.roleMismatch c.role i.role)
  else
    match i with
    | publisher p => p.validate
    | partner p => p.validate c.conversionsPerUser

end LocalInput

end PrivateLift
