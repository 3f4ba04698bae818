import PrivateLift.Columns
import PrivateLift.Document

/-!
# Documents of results

The columns of the intersection are written as a record of lists. A party's shares of them can be
read back; a missing column has no entries.
-/

namespace PrivateLift

open Form

namespace LiftColumns

/-- The names of the columns, in the order of declaration. -/
def names : List String :=
  ["breakdown_ids", "control_population", "is_valid_opportunity_timestamp", "test_reach",
    "opportunity_timestamps", "any_valid_purchase_timestamp", "cohort_group_ids",
    "purchase_timestamps", "threshold_timestamps", "purchase_values", "purchase_values_squared"]

/-- The members of the record that holds the columns, where `column` is the form of a column whose
entries have a given form. -/
def write {F : Type → Type} (column : {α : Type} → Form α → Form (F α)) (c : LiftColumns F) :
    List (String × Document) :=
  names.zip [
    (column bool).write c.breakdownIds, (column bool).write c.controlPopulation,
    (column bool).write c.validOpportunity, (column bool).write c.testReach,
    (column uint32).write c.opportunityTimestamps, (column bool).write c.anyPurchase,
    (column uint32).write c.cohortGroupIds, (list (column uint32)).write c.purchaseTimestamps,
    (list (column uint32)).write c.thresholdTimestamps, (list (column int32)).write c.purchaseValues,
    (list (column int64)).write c.purchaseValuesSquared]

end LiftColumns

/-- The document of revealed columns. -/
def RevealedColumns.document (c : RevealedColumns) : Document := .record (c.write list)

/-- A column of shares is written as the list of its entries. -/
def ShareColumn.form {α : Type} (f : Form α) : Form (ShareColumn α) :=
  (list f).map ShareColumn.mk ShareColumn.entries

/-- The shares of all columns, with the number of rows under its own name. -/
def ProcessedShares.form : Form ProcessedShares where
  write p := .record (("num_rows", count.write p.rowCount) :: p.columns.write ShareColumn.form)
  read := members ("num_rows" :: LiftColumns.names) fun
    | [rows, breakdowns, control, opportunity, reach, opportunities, purchase, cohorts, purchases,
        thresholds, values, squares] => do
      return {
        rowCount := ← count.optional 0 rows
        columns := {
          breakdownIds := ← (ShareColumn.form bool).optional ⟨[]⟩ breakdowns
          controlPopulation := ← (ShareColumn.form bool).optional ⟨[]⟩ control
          validOpportunity := ← (ShareColumn.form bool).optional ⟨[]⟩ opportunity
          testReach := ← (ShareColumn.form bool).optional ⟨[]⟩ reach
          opportunityTimestamps := ← (ShareColumn.form uint32).optional ⟨[]⟩ opportunities
          anyPurchase := ← (ShareColumn.form bool).optional ⟨[]⟩ purchase
          cohortGroupIds := ← (ShareColumn.form uint32).optional ⟨[]⟩ cohorts
          purchaseTimestamps := ← (list (ShareColumn.form uint32)).optional [] purchases
          thresholdTimestamps := ← (list (ShareColumn.form uint32)).optional [] thresholds
          purchaseValues := ← (list (ShareColumn.form int32)).optional [] values
          purchaseValuesSquared := ← (list (ShareColumn.form int64)).optional [] squares } }
    | _ => .error .shape

end PrivateLift
