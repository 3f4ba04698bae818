import PrivateLift.BitMatrix.Transpose

/-!
# Secret shares

A secret is split into two shares whose exclusive or it is; a party holds only one of them. A single
value is shared as it is, a column of values entry by entry. A batch of serialized rows is shared as
a bit matrix with one row per bit position of the row layout and one column per row of the batch.
-/

namespace PrivateLift

/-- One party's share of a single value. -/
structure ShareValue (α : Type) where
  value : α
  deriving DecidableEq, Repr, Inhabited

/-- Combines the shares of both parties. -/
def ShareValue.reveal {α : Type} (combine : α → α → α) (a b : ShareValue α) : α :=
  combine a.value b.value

/-- One party's shares of a column, one per row. -/
structure ShareColumn (α : Type) where
  entries : List α
  deriving DecidableEq, Repr, Inhabited

namespace ShareColumn

variable {α : Type}

/-- Number of rows. -/
def length (c : ShareColumn α) : Nat := c.entries.length

/-- Whether there are no rows. -/
def isEmpty (c : ShareColumn α) : Bool := c.entries.isEmpty

/-- Combines the shares of both parties, which must have equal lengths. -/
def reveal (combine : α → α → α) (a b : ShareColumn α) : Except Fault (List α) :=
  if a.length = b.length then .ok (List.zipWith combine a.entries b.entries)
  else .error .shareLengthsDiffer

end ShareColumn

/-- One party's share of a batch of serialized rows. Row `k` of the matrix holds bit `k` of every
row of the batch. -/
structure RowShares where
  bits : BitMatrix
  deriving DecidableEq, Inhabited

namespace RowShares

/-- Splits rows of at least `width` bytes. The first share is drawn, the second one is the rows
masked by it. -/
def share (rows : List Bytes) (width : Nat) (s : WordStream) :
    Except Fault (RowShares × RowShares × WordStream) := do
  let plain := (← BitMatrix.ofByteRows rows (8 * width)).transpose
  let (mask, s) ← BitMatrix.random plain.rows plain.cols s
  let masked ← plain.xor mask
  return (⟨mask⟩, ⟨masked⟩, s)

/-- Number of rows in the batch. -/
def batchSize (m : RowShares) : Nat := m.bits.cols

/-- Number of bits of a row. -/
def rowBits (m : RowShares) : Nat := m.bits.rows

/-- The share of every row as a byte string. -/
def toByteRows (m : RowShares) : List Bytes :=
  let t := m.bits.transpose
  (List.range t.rows).map t.rowBytes

end RowShares

end PrivateLift
