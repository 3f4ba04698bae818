import PrivateLift.Row.Record
import PrivateLift.Share

/-!
# Columns of the intersection

The result of the input processing is a set of typed columns, one entry per row of the intersection
and, for conversions, one column per slot. A party obtains its shares of the columns by decoding its
shares of the rows; both parties together reveal the values.
-/

namespace PrivateLift

/-- The columns of the intersection, each of the shape `F`. -/
structure LiftColumns (F : Type → Type) where
  breakdownIds : F Bool
  controlPopulation : F Bool
  validOpportunity : F Bool
  testReach : F Bool
  opportunityTimestamps : F UInt32
  anyPurchase : F Bool
  cohortGroupIds : F UInt32
  /-- One column per conversion slot, like the three columns after it. -/
  purchaseTimestamps : List (F UInt32)
  thresholdTimestamps : List (F UInt32)
  purchaseValues : List (F Int32)
  purchaseValuesSquared : List (F Int64)

/-- The values of all columns. -/
abbrev RevealedColumns := LiftColumns List

/-- One party's shares of all columns. -/
structure ProcessedShares where
  /-- Number of rows of the intersection. -/
  rowCount : Nat
  columns : LiftColumns ShareColumn

/-- Reveals one column after the other, as many as both lists have. -/
def revealEach {α : Type} (combine : α → α → α) :
    List (ShareColumn α) → List (ShareColumn α) → Except Fault (List (List α))
  | a :: as, b :: bs => do
    let column ← a.reveal combine b
    return column :: (← revealEach combine as bs)
  | _, _ => .ok []

/-- Combines the shares of both parties, column by column in the order of declaration. -/
def ProcessedShares.reveal (a b : ProcessedShares) : Except Fault RevealedColumns := do
  if a.rowCount ≠ b.rowCount then throw .rowCountsDiffer
  let (p, q) := (a.columns, b.columns)
  let breakdownIds ← p.breakdownIds.reveal Bool.xor q.breakdownIds
  let controlPopulation ← p.controlPopulation.reveal Bool.xor q.controlPopulation
  let validOpportunity ← p.validOpportunity.reveal Bool.xor q.validOpportunity
  let testReach ← p.testReach.reveal Bool.xor q.testReach
  let opportunityTimestamps ← p.opportunityTimestamps.reveal (· ^^^ ·) q.opportunityTimestamps
  let anyPurchase ← p.anyPurchase.reveal Bool.xor q.anyPurchase
  let cohortGroupIds ← p.cohortGroupIds.reveal (· ^^^ ·) q.cohortGroupIds
  let purchaseTimestamps ← revealEach (· ^^^ ·) p.purchaseTimestamps q.purchaseTimestamps
  let thresholdTimestamps ← revealEach (· ^^^ ·) p.thresholdTimestamps q.thresholdTimestamps
  let purchaseValues ← revealEach (· ^^^ ·) p.purchaseValues q.purchaseValues
  let purchaseValuesSquared ← revealEach (· ^^^ ·) p.purchaseValuesSquared q.purchaseValuesSquared
  return {
    breakdownIds, controlPopulation, validOpportunity, testReach, opportunityTimestamps,
    anyPurchase, cohortGroupIds, purchaseTimestamps, thresholdTimestamps, purchaseValues,
    purchaseValuesSquared }

/-- Why shares of rows do not fit the expected batch. -/
inductive ShareError where
  /-- The shares of a party's rows have another number of bits per row than the layout. -/
  | layoutMismatch (rows : Role) (expected actual : Nat)
  /-- The shares of a party's rows have another number of rows than the intersection. -/
  | rowCountMismatch (rows : Role) (expected actual : Nat)
  deriving DecidableEq, Repr

/-- The text that reports shares of the wrong shape. -/
def ShareError.message : ShareError → String
  | layoutMismatch rows expected actual =>
    s!"{rows.name} shares have {actual} bits per row, the row layout has {expected}"
  | rowCountMismatch rows expected actual =>
    s!"{rows.name} rows do not match up expected intersection size. Expected {expected} but got {actual} rows."

/-- Shares of a role's rows have as many bits per row as the layout of the role. The width of the
row and the number of its bits must fit into 64 bits. -/
def RowShares.checkLayout (m : RowShares) (role : Role) (conversionsPerUser : Nat) :
    Outcome ShareError Unit := do
  let width ← .ofFault (role.width conversionsPerUser)
  let expected ← .ofFault (checkSize (8 * width))
  if m.rowBits ≠ expected then throw (.error (.layoutMismatch role expected m.rowBits))

/-- The conversion of a record in a slot. -/
def PartnerRow.conversion (r : PartnerRow) (slot : Nat) : Except Fault ConversionRow :=
  match r.conversions[slot]? with
  | some c => .ok c
  | none => .error .outOfRange

/-- The conversions of all records, slot by slot. -/
def PartnerRow.bySlot (rows : List PartnerRow) (conversionsPerUser : Nat) :
    Except Fault (List (List ConversionRow)) :=
  (List.range conversionsPerUser).mapM fun slot => rows.mapM (·.conversion slot)

namespace LiftColumns

/-- One value of every conversion, with one column per slot. -/
def slotColumns {α : Type} (slots : List (List ConversionRow)) (value : ConversionRow → α) :
    List (ShareColumn α) :=
  slots.map fun conversions => ⟨conversions.map value⟩

/-- The columns of decoded rows, whose conversions are given slot by slot. -/
def ofRows (publisher : List PublisherRow) (partner : List PartnerRow)
    (slots : List (List ConversionRow)) : LiftColumns ShareColumn :=
  { breakdownIds := ⟨publisher.map (·.breakdownId)⟩
    controlPopulation := ⟨publisher.map (·.controlPopulation)⟩
    validOpportunity := ⟨publisher.map (·.validOpportunity)⟩
    testReach := ⟨publisher.map (·.testReach)⟩
    opportunityTimestamps := ⟨publisher.map (·.opportunityTimestamp)⟩
    anyPurchase := ⟨partner.map (·.anyPurchase)⟩
    cohortGroupIds := ⟨partner.map (·.cohortGroupId)⟩
    purchaseTimestamps := slotColumns slots (·.purchaseTimestamp)
    thresholdTimestamps := slotColumns slots (·.thresholdTimestamp)
    purchaseValues := slotColumns slots (·.purchaseValue)
    purchaseValuesSquared := slotColumns slots (·.purchaseValueSquared) }

end LiftColumns

/-- Decodes the shares of the publisher rows and of the partner rows into columns. The layouts are
checked first, the publisher's before the partner's, then that both have the same number of rows. -/
def ProcessedShares.extract (publisher partner : RowShares) (conversionsPerUser : Nat) :
    Outcome ShareError ProcessedShares := do
  publisher.checkLayout .publisher conversionsPerUser
  partner.checkLayout .partner conversionsPerUser
  let count := publisher.batchSize
  if partner.batchSize ≠ count then
    throw (.error (.rowCountMismatch .partner count partner.batchSize))
  let publisherRows ← .ofFault (publisher.toByteRows.mapM PublisherRow.decode)
  let partnerRows ← .ofFault (partner.toByteRows.mapM (PartnerRow.decode · conversionsPerUser))
  let slots ← .ofFault (PartnerRow.bySlot partnerRows conversionsPerUser)
  return ⟨count, .ofRows publisherRows partnerRows slots⟩

end PrivateLift
