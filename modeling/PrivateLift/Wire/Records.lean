import PrivateLift.Columns
import PrivateLift.Input
import PrivateLift.Wire.Codec

/-!
# Binary codes of configurations, inputs and shares

A record is the sequence of its fields. Shares are written like the values they wrap. A bit matrix
is written as its dimensions and its storage, and what is read is checked by `BitMatrix.ofStorage`,
so a matrix from another party is well formed.
-/

namespace PrivateLift

open Codec

/-- The publisher has tag 0, the partner tag 1. -/
def Role.codec : Codec Role :=
  (choice unit unit).map
    (fun | .inl () => .publisher | .inr () => .partner)
    (fun | .publisher => .inl () | .partner => .inr ())

def Config.codec : Codec Config :=
  (pair Role.codec (pair count uint32)).map
    (fun (role, conversions, window) => ⟨role, conversions, window⟩)
    (fun c => (c.role, c.conversionsPerUser, c.thresholdWindow))

def PublisherInput.codec : Codec PublisherInput :=
  (pair (list uint32) <| pair (list bool) <| pair (list bool) <| pair (list int64) <|
      pair (list uint32) (list bool)).map
    (fun (timestamps, control, test, impressions, breakdowns, dummies) =>
      ⟨timestamps, control, test, impressions, breakdowns, dummies⟩)
    (fun p => (p.opportunityTimestamps, p.controlPopulation, p.testPopulation, p.impressions,
      p.breakdownIds, p.dummyRows))

def PartnerInput.codec : Codec PartnerInput :=
  (pair (list uint32) <| pair (list (list uint32)) <| pair (list (list int64)) <|
      pair (list (list int64)) (list bool)).map
    (fun (cohorts, timestamps, values, squares, dummies) =>
      ⟨cohorts, timestamps, values, squares, dummies⟩)
    (fun p => (p.cohortGroupIds, p.purchaseTimestamps, p.purchaseValues, p.purchaseValuesSquared,
      p.dummyRows))

def LocalInput.codec : Codec LocalInput :=
  (choice PublisherInput.codec PartnerInput.codec).map
    (fun | .inl p => .publisher p | .inr p => .partner p)
    (fun | .publisher p => .inl p | .partner p => .inr p)

def BitMatrix.codec : Codec BitMatrix :=
  (pair count (pair count (list uint8))).refine
    (fun (rows, cols, data) =>
      match BitMatrix.ofStorage rows cols data with
      | .ok m => .ok m
      | .error e => .error (.matrix e))
    (fun m => (m.rows, m.cols, m.data))

def RowShares.codec : Codec RowShares := BitMatrix.codec.map RowShares.mk RowShares.bits

/-- A column of shares is written as the list of its entries. -/
def ShareColumn.codec {α : Type} (c : Codec α) : Codec (ShareColumn α) :=
  (list c).map ShareColumn.mk ShareColumn.entries

end PrivateLift
