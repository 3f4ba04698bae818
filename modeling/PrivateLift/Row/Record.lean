import PrivateLift.Row.Layout

/-!
# Row records

The values of one user and their serialization. `encode` writes a record over a given buffer and
leaves every bit outside of the layout alone; `decode` reads the record back, also from a share of a
row. Both need a buffer at least as long as the row.
-/

namespace PrivateLift

/-- The exposure record of one user. -/
structure PublisherRow where
  /-- Whether the user belongs to the breakdown group. -/
  breakdownId : Bool := false
  controlPopulation : Bool := false
  /-- Whether there was an opportunity and the user is in either population. -/
  validOpportunity : Bool := false
  /-- Whether the user is in the test population and saw an impression. -/
  testReach : Bool := false
  opportunityTimestamp : UInt32 := 0
  deriving DecidableEq, Repr, Inhabited

/-- One purchase of a partner user. -/
structure ConversionRow where
  /-- Time of the purchase, 0 if there was none. -/
  purchaseTimestamp : UInt32 := 0
  /-- End of the window after the purchase, 0 if there was none. -/
  thresholdTimestamp : UInt32 := 0
  purchaseValue : Int32 := 0
  purchaseValueSquared : Int64 := 0
  deriving DecidableEq, Repr, Inhabited

/-- The purchase record of one user. -/
structure PartnerRow where
  /-- Whether any conversion has a purchase timestamp. -/
  anyPurchase : Bool := false
  cohortGroupId : UInt32 := 0
  /-- One entry per conversion slot. -/
  conversions : List ConversionRow := []
  deriving DecidableEq, Repr, Inhabited

namespace PublisherRow

/-- Writes the record over the start of a buffer. -/
def encode (r : PublisherRow) (buffer : Bytes) : Except Fault Bytes := do
  let buffer ← PublisherLayout.breakdownId.write buffer r.breakdownId.toUInt64
  let buffer ← PublisherLayout.controlPopulation.write buffer r.controlPopulation.toUInt64
  let buffer ← PublisherLayout.validOpportunity.write buffer r.validOpportunity.toUInt64
  let buffer ← PublisherLayout.testReach.write buffer r.testReach.toUInt64
  PublisherLayout.opportunityTimestamp.write buffer r.opportunityTimestamp.toUInt64

/-- Reads a record from the start of a row. -/
def decode (row : Bytes) : Except Fault PublisherRow := do
  let breakdownId ← PublisherLayout.breakdownId.readFlag row
  let controlPopulation ← PublisherLayout.controlPopulation.readFlag row
  let validOpportunity ← PublisherLayout.validOpportunity.readFlag row
  let testReach ← PublisherLayout.testReach.readFlag row
  let timestamp ← PublisherLayout.opportunityTimestamp.read row
  return ⟨breakdownId, controlPopulation, validOpportunity, testReach, timestamp.toUInt32⟩

end PublisherRow

namespace ConversionRow

/-- Writes the conversion into the block of a slot. -/
def encode (c : ConversionRow) (slot : Nat) (row : Bytes) : Except Fault Bytes := do
  let start := ConversionLayout.offset slot
  let row ← (ConversionLayout.purchaseTimestamp.shifted start).write row c.purchaseTimestamp.toUInt64
  let row ←
    (ConversionLayout.thresholdTimestamp.shifted start).write row c.thresholdTimestamp.toUInt64
  let row ←
    (ConversionLayout.purchaseValue.shifted start).write row c.purchaseValue.toInt64.toUInt64
  (ConversionLayout.purchaseValueSquared.shifted start).write row c.purchaseValueSquared.toUInt64

/-- Reads the conversion in the block of a slot. -/
def decode (row : Bytes) (slot : Nat) : Except Fault ConversionRow := do
  let start := ConversionLayout.offset slot
  let purchase ← (ConversionLayout.purchaseTimestamp.shifted start).read row
  let threshold ← (ConversionLayout.thresholdTimestamp.shifted start).read row
  let value ← (ConversionLayout.purchaseValue.shifted start).read row
  let squared ← (ConversionLayout.purchaseValueSquared.shifted start).read row
  return ⟨purchase.toUInt32, threshold.toUInt32, value.toUInt32.toInt32, squared.toInt64⟩

end ConversionRow

namespace PartnerRow

/-- Writes the conversions into consecutive blocks, from block `slot` on. -/
def encodeConversions : List ConversionRow → (slot : Nat) → Bytes → Except Fault Bytes
  | [], _, row => .ok row
  | c :: rest, slot, row => do encodeConversions rest (slot + 1) (← c.encode slot row)

/-- Writes the record over the start of a buffer. -/
def encode (r : PartnerRow) (buffer : Bytes) : Except Fault Bytes := do
  let buffer ← PartnerLayout.anyPurchase.write buffer r.anyPurchase.toUInt64
  let buffer ← PartnerLayout.cohortGroupId.write buffer r.cohortGroupId.toUInt64
  encodeConversions r.conversions 0 buffer

/-- Reads `count` conversions from consecutive blocks, from block `slot` on. Nothing is read past
the first block that the row does not have. -/
def decodeConversions (row : Bytes) : (count slot : Nat) → Except Fault (List ConversionRow)
  | 0, _ => .ok []
  | count + 1, slot => do
    let c ← ConversionRow.decode row slot
    return c :: (← decodeConversions row count (slot + 1))

/-- Reads a record with the given number of conversion slots. -/
def decode (row : Bytes) (conversionsPerUser : Nat) : Except Fault PartnerRow := do
  let conversions ← decodeConversions row conversionsPerUser 0
  let anyPurchase ← PartnerLayout.anyPurchase.readFlag row
  let cohort ← PartnerLayout.cohortGroupId.read row
  return ⟨anyPurchase, cohort.toUInt32, conversions⟩

end PartnerRow

end PrivateLift
