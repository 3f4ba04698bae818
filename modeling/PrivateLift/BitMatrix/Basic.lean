import PrivateLift.Bytes
import PrivateLift.Fault
import PrivateLift.WordStream

/-!
# Bit matrices

A bit matrix is stored row by row, least significant bit first. Both dimensions are rounded up to
multiples of 16, and are at least 16, so that a transposition can work on whole blocks. The padding
is part of the value: two matrices with the same bits are equal only because the padding of both is
unset. `WellFormed` states this; every operation keeps it, and `ofStorage` is the check that
establishes it for storage received from another party.
-/

namespace PrivateLift

/-- A dimension rounded up to a multiple of the block size 16, at least one block. -/
def padded (n : Nat) : Nat := max ((n + 15) / 16) 1 * 16

/-- A dense matrix of bits. -/
structure BitMatrix where
  rows : Nat
  cols : Nat
  /-- The padded rows, each `padded cols / 8` bytes long. -/
  data : Bytes
  deriving DecidableEq, Inhabited

/-- Why storage is refused as a bit matrix. -/
inductive MatrixError where
  /-- The padded dimensions have 2^64 cells or more. -/
  | tooLarge (rows cols : Nat)
  /-- The storage does not have the length that the dimensions demand. -/
  | storageLength (rows cols expected actual : Nat)
  /-- A bit outside of the matrix is set. -/
  | paddingBitsSet (rows cols : Nat)
  deriving DecidableEq, Repr

/-- The text that reports refused storage. -/
def MatrixError.message : MatrixError → String
  | tooLarge rows cols => s!"a {rows}x{cols} bit matrix is too large"
  | storageLength rows cols expected actual =>
    s!"a {rows}x{cols} bit matrix needs {expected} bytes of storage, but has {actual}"
  | paddingBitsSet rows cols => s!"bits outside of a {rows}x{cols} bit matrix are set"

namespace BitMatrix

/-- Number of bytes in which the cells of a row begin and end. -/
def usedBytes (cols : Nat) : Nat := (cols + 7) / 8

/-- Number of bytes from the start of one stored row to the next. -/
def strideOf (cols : Nat) : Nat := padded cols / 8

/-- Number of bytes that store a matrix. -/
def storageSize (rows cols : Nat) : Nat := padded rows * padded cols / 8

/-- The padded cells of a matrix can be counted in 64 bits. -/
def Storable (rows cols : Nat) : Prop := padded rows * padded cols < UInt64.size

instance (rows cols : Nat) : Decidable (Storable rows cols) := by
  unfold Storable; infer_instance

/-- Number of bytes that store a matrix, if it can be stored. -/
def storageSize? (rows cols : Nat) : Option Nat :=
  if Storable rows cols then some (storageSize rows cols) else none

/-- Number of bytes from the start of one stored row to the next. -/
def stride (m : BitMatrix) : Nat := strideOf m.cols

/-- The stored bit at row `r` and bit position `c`, inside the matrix or in its padding. -/
def bit (m : BitMatrix) (r c : Nat) : Bool :=
  (m.data.getD (r * m.stride + c / 8) 0).toNat.testBit (c % 8)

/-- A matrix whose storage has the length of the padded dimensions and whose padding is unset. -/
structure WellFormed (m : BitMatrix) : Prop where
  length_data : m.data.length = storageSize m.rows m.cols
  bit_outside : ∀ r < padded m.rows, ∀ c < padded m.cols, (m.rows ≤ r ∨ m.cols ≤ c) →
    m.bit r c = false

/-- A matrix without set bits. -/
def zeros (rows cols : Nat) : Except Fault BitMatrix :=
  if Storable rows cols then .ok ⟨rows, cols, List.replicate (storageSize rows cols) 0⟩
  else .error .sizeOverflow

/-- Unsets the bits of a row's bytes from column `cols` on. -/
def maskRow (cols : Nat) (bytes : Bytes) : Bytes :=
  if cols % 8 = 0 then bytes
  else bytes.modify (cols / 8) (· &&& UInt8.ofNat (1 <<< (cols % 8) - 1))

/-- The stored form of a row: its used bytes without bits from column `cols` on, then zeros. -/
def storeRow (cols : Nat) (bytes : Bytes) : Bytes :=
  let used := maskRow cols (bytes.take (usedBytes cols))
  used ++ List.replicate (strideOf cols - used.length) 0

/-- The matrix whose rows start with the given byte strings; bits from column `cols` on are
dropped. -/
def ofRows (cols : Nat) (rows : List Bytes) : BitMatrix :=
  let stored := rows.flatMap (storeRow cols)
  ⟨rows.length, cols,
    stored ++ List.replicate (storageSize rows.length cols - stored.length) 0⟩

/-- A matrix with one row per byte string. It must be storable, and every string must hold `cols`
bits. -/
def ofByteRows (rows : List Bytes) (cols : Nat) : Except Fault BitMatrix :=
  if ¬Storable rows.length cols then .error .sizeOverflow
  else if rows.all (usedBytes cols ≤ ·.length) then .ok (ofRows cols rows)
  else .error .outOfRange

/-- Draws `count` byte strings of `length` bytes, each beginning with a fresh word. -/
def drawRows (length : Nat) : (count : Nat) → WordStream → List Bytes × WordStream
  | 0, s => ([], s)
  | count + 1, s =>
    let (row, s) := s.bytes length
    let (rest, s) := drawRows length count s
    (row :: rest, s)

/-- A matrix of drawn bits. -/
def random (rows cols : Nat) (s : WordStream) : Except Fault (BitMatrix × WordStream) :=
  if Storable rows cols then
    let (drawn, s) := drawRows (usedBytes cols) rows s
    .ok (ofRows cols drawn, s)
  else .error .sizeOverflow

/-- The used bytes of a stored row. -/
def rowBytes (m : BitMatrix) (r : Nat) : Bytes :=
  (m.data.drop (r * m.stride)).take (usedBytes m.cols)

/-- A matrix from its storage. The dimensions must be small enough, the storage must have the
length that they demand, and the padding must be unset: the matrix must not change when its rows are
stored anew. -/
def ofStorage (rows cols : Nat) (data : Bytes) : Except MatrixError BitMatrix :=
  match storageSize? rows cols with
  | none => .error (.tooLarge rows cols)
  | some expected =>
    if data.length ≠ expected then .error (.storageLength rows cols expected data.length)
    else
      let m : BitMatrix := ⟨rows, cols, data⟩
      if ofRows cols ((List.range rows).map m.rowBytes) = m then .ok m
      else .error (.paddingBitsSet rows cols)

/-- The bytes of row `r`. -/
def row (m : BitMatrix) (r : Nat) : Except Fault Bytes :=
  if r < m.rows then .ok (m.rowBytes r) else .error (.noRow r)

/-- The cell at row `r` and column `c`; a missing column is reported before a missing row. -/
def get (m : BitMatrix) (r c : Nat) : Except Fault Bool :=
  if m.cols ≤ c then .error (.noColumn c)
  else if m.rows ≤ r then .error (.noRow r)
  else .ok (m.bit r c)

/-- Replaces the cell at row `r` and column `c`. -/
def set (m : BitMatrix) (r c : Nat) (on : Bool) : Except Fault BitMatrix :=
  if r < m.rows ∧ c < m.cols then
    let mask := (1 : UInt8) <<< UInt8.ofNat (c % 8)
    .ok { m with
      data := m.data.modify (r * m.stride + c / 8) fun b => if on then b ||| mask else b &&& ~~~mask }
  else .error (.noCell r c)

/-- The cellwise exclusive or of two matrices of the same dimensions. -/
def xor (a b : BitMatrix) : Except Fault BitMatrix :=
  if a.rows = b.rows ∧ a.cols = b.cols then
    .ok { a with data := a.data.xor b.data }
  else .error .dimensionsDiffer

end BitMatrix

end PrivateLift
