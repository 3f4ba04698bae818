import PrivateLift.Role
import PrivateLift.Row.Field

/-!
# Row layouts

A publisher row has five bytes: four flags in the first one, then the opportunity timestamp. A
partner row has a header of five bytes and one block of twenty bytes per conversion slot.
-/

namespace PrivateLift

/-- Number of bytes of a publisher row. -/
def publisherRowWidth : Nat := 5

/-- Number of bytes of the header of a partner row. -/
def partnerHeaderWidth : Nat := 5

/-- Number of bytes of one conversion block. -/
def conversionWidth : Nat := 20

namespace PublisherLayout

def breakdownId : Field := .flag "breakdown_id" 0 0
def controlPopulation : Field := .flag "control_population" 0 1
def validOpportunity : Field := .flag "is_valid_opportunity_timestamp" 0 2
def testReach : Field := .flag "test_reach" 0 3
def opportunityTimestamp : Field := .unsigned "opportunity_timestamp" 1 4

/-- All fields in layout order. -/
def fields : List Field :=
  [breakdownId, controlPopulation, validOpportunity, testReach, opportunityTimestamp]

end PublisherLayout

namespace PartnerLayout

def anyPurchase : Field := .flag "any_valid_purchase_timestamp" 0 0
def cohortGroupId : Field := .unsigned "cohort_group_id" 1 4

/-- The fields of the header in layout order. -/
def fields : List Field := [anyPurchase, cohortGroupId]

end PartnerLayout

/-! The fields of a conversion block are relative to the start of the block. -/

namespace ConversionLayout

def purchaseTimestamp : Field := .unsigned "purchase_timestamp" 0 4
def thresholdTimestamp : Field := .unsigned "threshold_timestamp" 4 4
def purchaseValue : Field := .signed "purchase_value" 8 4
def purchaseValueSquared : Field := .signed "purchase_value_squared" 12 8

/-- All fields in layout order. -/
def fields : List Field :=
  [purchaseTimestamp, thresholdTimestamp, purchaseValue, purchaseValueSquared]

/-- Where the block of conversion slot `slot` starts inside a partner row. In a row whose width fits
into 64 bits, so does this. -/
def offset (slot : Nat) : Nat := partnerHeaderWidth + slot * conversionWidth

end ConversionLayout

namespace Role

/-- All fields of a row at their places, in layout order. -/
def layout (role : Role) (conversionsPerUser : Nat) : List Field :=
  match role with
  | publisher => PublisherLayout.fields
  | partner =>
    PartnerLayout.fields ++ (List.range conversionsPerUser).flatMap fun slot =>
      ConversionLayout.fields.map (·.shifted (ConversionLayout.offset slot))

/-- Number of bytes of a row. -/
def rowWidth (role : Role) (conversionsPerUser : Nat) : Nat :=
  match role with
  | publisher => publisherRowWidth
  | partner => partnerHeaderWidth + conversionWidth * conversionsPerUser

/-- Number of bytes of a row, if it fits into 64 bits. -/
def width (role : Role) (conversionsPerUser : Nat) : Except Fault Nat :=
  checkSize (role.rowWidth conversionsPerUser)

theorem width_ok {role : Role} {conversionsPerUser : Nat}
    (h : role.rowWidth conversionsPerUser < UInt64.size) :
    role.width conversionsPerUser = .ok (role.rowWidth conversionsPerUser) :=
  checkSize_ok h

theorem width_error {role : Role} {conversionsPerUser : Nat}
    (h : ¬role.rowWidth conversionsPerUser < UInt64.size) :
    role.width conversionsPerUser = .error .sizeOverflow :=
  checkSize_error h

end Role

end PrivateLift
