import PrivateLift.Document
import PrivateLift.Input
import PrivateLift.Share

/-!
# Documents of configurations, inputs and shares

A record lists its columns under their names. Every member must be there, except in a configuration,
where a missing one takes its default. Shares are written like the values they wrap, and a bit
matrix that is read is checked by `BitMatrix.ofStorage`.
-/

namespace PrivateLift

open Form

/-- A role is written as its name. -/
def Role.form : Form Role where
  write r := .text r.name
  read d := do
    match ← alternative d with
    | (name, none) | (name, some .null) =>
      match Role.ofName? name with
      | some r => .ok r
      | none => .error .shape
    | _ => .error .shape

def Config.form : Form Config where
  write c := .record [
    ("role", Role.form.write c.role),
    ("num_conversions_per_user", count.write c.conversionsPerUser),
    ("purchase_timestamp_threshold_window", uint32.write c.thresholdWindow)]
  read := members ["role", "num_conversions_per_user", "purchase_timestamp_threshold_window"] fun
    | [role, conversions, window] => do
      let defaults : Config := {}
      return {
        role := ← Role.form.optional defaults.role role
        conversionsPerUser := ← count.optional defaults.conversionsPerUser conversions
        thresholdWindow := ← uint32.optional defaults.thresholdWindow window }
    | _ => .error .shape

/-- The columns of a publisher's document. -/
def PublisherInput.columns : List Column :=
  [.opportunityTimestamps, .controlPopulation, .testPopulation, .impressions, .breakdownIds,
    .dummyRows]

def PublisherInput.form : Form PublisherInput where
  write p := .record [
    (Column.opportunityTimestamps.name, (list uint32).write p.opportunityTimestamps),
    (Column.controlPopulation.name, (list bool).write p.controlPopulation),
    (Column.testPopulation.name, (list bool).write p.testPopulation),
    (Column.impressions.name, (list int64).write p.impressions),
    (Column.breakdownIds.name, (list uint32).write p.breakdownIds),
    (Column.dummyRows.name, (list bool).write p.dummyRows)]
  read := members (columns.map Column.name) fun
    | [timestamps, control, test, impressions, breakdowns, dummies] => do
      return {
        opportunityTimestamps := ← (list uint32).required timestamps
        controlPopulation := ← (list bool).required control
        testPopulation := ← (list bool).required test
        impressions := ← (list int64).required impressions
        breakdownIds := ← (list uint32).required breakdowns
        dummyRows := ← (list bool).required dummies }
    | _ => .error .shape

/-- The columns of a partner's document. -/
def PartnerInput.columns : List Column :=
  [.cohortGroupIds, .purchaseTimestamps, .purchaseValues, .purchaseValuesSquared, .dummyRows]

def PartnerInput.form : Form PartnerInput where
  write p := .record [
    (Column.cohortGroupIds.name, (list uint32).write p.cohortGroupIds),
    (Column.purchaseTimestamps.name, (list (list uint32)).write p.purchaseTimestamps),
    (Column.purchaseValues.name, (list (list int64)).write p.purchaseValues),
    (Column.purchaseValuesSquared.name, (list (list int64)).write p.purchaseValuesSquared),
    (Column.dummyRows.name, (list bool).write p.dummyRows)]
  read := members (columns.map Column.name) fun
    | [cohorts, timestamps, values, squares, dummies] => do
      return {
        cohortGroupIds := ← (list uint32).required cohorts
        purchaseTimestamps := ← (list (list uint32)).required timestamps
        purchaseValues := ← (list (list int64)).required values
        purchaseValuesSquared := ← (list (list int64)).required squares
        dummyRows := ← (list bool).required dummies }
    | _ => .error .shape

/-- A local input is a record with one member, named for the party that holds it. -/
def LocalInput.form : Form LocalInput where
  write
    | .publisher p => .record [("Publisher", PublisherInput.form.write p)]
    | .partner p => .record [("Partner", PartnerInput.form.write p)]
  read d := do
    match ← alternative d with
    | ("Publisher", some d) => return .publisher (← PublisherInput.form.read d)
    | ("Partner", some d) => return .partner (← PartnerInput.form.read d)
    | _ => .error .shape

/-- The dimensions and the storage of a matrix. -/
def BitMatrix.partsForm : Form (Nat × Nat × Bytes) where
  write := fun (rows, cols, data) => .record [
    ("rows", count.write rows),
    ("cols", count.write cols),
    ("data", (list uint8).write data)]
  read := members ["rows", "cols", "data"] fun
    | [rows, cols, data] => do
      return (← count.required rows, ← count.required cols, ← (list uint8).required data)
    | _ => .error .shape

/-- The parts are read completely before they are checked. -/
def BitMatrix.form : Form BitMatrix where
  write m := partsForm.write (m.rows, m.cols, m.data)
  read d := do
    let (rows, cols, data) ← partsForm.read d
    match BitMatrix.ofStorage rows cols data with
    | .ok m => .ok m
    | .error e => .error (.matrix e)

def RowShares.form : Form RowShares where
  write m := .record [("bits", BitMatrix.form.write m.bits)]
  read := members ["bits"] fun
    | [bits] => do return ⟨← BitMatrix.form.required bits⟩
    | _ => .error .shape

end PrivateLift
