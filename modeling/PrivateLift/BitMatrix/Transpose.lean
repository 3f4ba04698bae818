import PrivateLift.BitMatrix.Basic

/-!
# Transposition by blocks

A stored matrix is cut into blocks of 16 rows and 8 columns, that is, of 16 bytes from 16
consecutive rows. The top bits of the 16 bytes are the last column of the block; collecting them
gives two bytes of the transposed matrix. Moving all bits of the block one place up brings the next
column to the top. Bits that cross into a neighbouring byte on the way are never collected, because
at most seven moves are made.
-/

namespace PrivateLift

/-- Sixteen bytes in two words, byte 0 in the low byte of the first word. -/
structure Block where
  lo : UInt64
  hi : UInt64
  deriving DecidableEq, Repr, Inhabited

namespace Block

/-- The block of sixteen given bytes. -/
def ofBytes (bytes : Bytes) : Block :=
  ⟨UInt64.ofNat (Bytes.toNat (bytes.take 8)), UInt64.ofNat (Bytes.toNat ((bytes.drop 8).take 8))⟩

/-- The top bits of the bytes of a word; byte `i` gives bit `i`. -/
def topBits (word : UInt64) : Nat :=
  (List.range 8).foldl (fun bits i => if word.toNat.testBit (8 * i + 7) then bits + 1 <<< i else bits) 0

/-- The top bits of the sixteen bytes; byte `i` gives bit `i`. -/
def moveMask (b : Block) : UInt16 := UInt16.ofNat (topBits b.lo + 256 * topBits b.hi)

/-- Moves the bits of both words one place up. -/
def shiftLeft (b : Block) : Block := ⟨b.lo <<< 1, b.hi <<< 1⟩

/-- Moves the bits of both words up by `k` single places. -/
def shiftLeftBy (b : Block) : (k : Nat) → Block
  | 0 => b
  | k + 1 => (b.shiftLeftBy k).shiftLeft

/-- Column `c` of the block, for `c < 8`: row `i` gives bit `i`. -/
def column (b : Block) (c : Nat) : UInt16 := (b.shiftLeftBy (7 - c)).moveMask

end Block

namespace BitMatrix

/-- The block at row `16 * r` and column `8 * c` of a matrix stored with the given stride. -/
def loadBlock (data : Array UInt8) (stride r c : Nat) : Block :=
  .ofBytes ((List.range 16).map fun i => data.getD ((16 * r + i) * stride + c) 0)

/-- The blocks of a matrix whose dimensions are multiples of 16, one block row after the other. -/
def loadBlocks (data : Bytes) (rows cols : Nat) : List Block :=
  let bytes := data.toArray
  let stride := cols / 8
  (List.range (rows / 16 * stride)).map fun i => loadBlock bytes stride (i / stride) (i % stride)

/-- Transposes the storage of a matrix whose dimensions are multiples of 16. Byte `k` of a stored
row of the result is one half of a column of the block in block row `k / 2`. -/
def transposeStorage (data : Bytes) (rows cols : Nat) : Bytes :=
  let blocks := (loadBlocks data rows cols).toArray
  (List.range (cols * (rows / 8))).map fun i =>
    let c := i / (rows / 8)
    let k := i % (rows / 8)
    let column := (blocks.getD (k / 2 * (cols / 8) + c / 8) default).column (c % 8)
    if k % 2 = 0 then column.toUInt8 else (column >>> 8).toUInt8

/-- The transposed matrix. -/
def transpose (m : BitMatrix) : BitMatrix :=
  ⟨m.cols, m.rows, transposeStorage m.data (padded m.rows) (padded m.cols)⟩

end BitMatrix

end PrivateLift
