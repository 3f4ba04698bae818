import PrivateLift.Bytes
import PrivateLift.Fault

/-!
# Fields of a serialized row

A field is a single bit or a little-endian integer at a fixed place of a row. Writing and reading go
through the same descriptor, so the party that packs a row and the party that decodes a share of it
cannot disagree about an offset. Both only move bits, which is why a field can be read from an
exclusive-or share of a row exactly as from the row itself.
-/

namespace PrivateLift

/-- How the bits of a field are understood. -/
inductive FieldKind where
  /-- One bit of the byte at the offset, counted from the least significant. -/
  | flag (bit : Nat)
  /-- A little-endian unsigned integer. -/
  | unsigned
  /-- A little-endian integer in two's complement. -/
  | signed
  deriving DecidableEq, Repr

/-- A named field at a fixed place of a row. -/
structure Field where
  /-- Shown when a layout is logged. -/
  name : String
  /-- Position of the first byte. -/
  offset : Nat
  /-- Number of bytes; it plays no part in reading or writing a flag. -/
  width : Nat
  kind : FieldKind
  deriving DecidableEq, Repr

namespace Field

/-- A single bit of the byte at `offset`. -/
def flag (name : String) (offset bit : Nat) : Field := ⟨name, offset, 1, .flag bit⟩

/-- An unsigned integer of `width` bytes. -/
def unsigned (name : String) (offset width : Nat) : Field := ⟨name, offset, width, .unsigned⟩

/-- A two's complement integer of `width` bytes. -/
def signed (name : String) (offset width : Nat) : Field := ⟨name, offset, width, .signed⟩

/-- The same field `k` bytes further into the row. -/
def shifted (f : Field) (k : Nat) : Field := { f with offset := f.offset + k }

/-- The shifted field, if its offset fits into 64 bits. -/
def shift (f : Field) (k : Nat) : Except Fault Field :=
  (checkSize (f.offset + k)).map fun _ => f.shifted k

/-- The field lies inside a row of the given length: a flag inside one byte of it, an integer of at
most eight bytes inside the row. -/
def Fits (f : Field) (length : Nat) : Prop :=
  match f.kind with
  | .flag bit => bit < 8 ∧ f.offset < length
  | .unsigned | .signed => f.width ≤ 8 ∧ f.offset + f.width ≤ length

instance (f : Field) (length : Nat) : Decidable (f.Fits length) := by
  unfold Fits; cases f.kind <;> infer_instance

/-- Replaces one bit of a byte. -/
def putBit (b : UInt8) (bit : Nat) (on : Bool) : UInt8 :=
  let mask := (1 : UInt8) <<< UInt8.ofNat bit
  if on then b ||| mask else b &&& ~~~mask

/-- Writes the lowest bit of `value` into a flag, its low `width` bytes into an integer. -/
def write (f : Field) (row : Bytes) (value : UInt64) : Except Fault Bytes :=
  if f.Fits row.length then
    match f.kind with
    | .flag bit =>
      .ok (row.set f.offset (putBit (row.getD f.offset 0) bit (value.toNat.testBit 0)))
    | .unsigned | .signed =>
      .ok (row.take f.offset ++ Bytes.ofNat f.width value.toNat ++ row.drop (f.offset + f.width))
  else .error .outOfRange

/-- The unsigned integer in the bytes of a field. -/
def raw (f : Field) (row : Bytes) : UInt64 :=
  UInt64.ofNat (Bytes.toNat ((row.drop f.offset).take f.width))

/-- A two's complement integer of `width` bytes, extended to 64 bits: it is moved to the top of the
word and back by an arithmetic shift, which repeats the sign. -/
def signExtend (width : Nat) (word : UInt64) : UInt64 :=
  let gap := UInt64.ofNat (64 - 8 * width)
  ((word <<< gap).toInt64 >>> gap.toInt64).toUInt64

/-- Reads a field; a signed integer is extended to 64 bits, for which it needs a sign. -/
def read (f : Field) (row : Bytes) : Except Fault UInt64 :=
  if f.Fits row.length then
    match f.kind with
    | .flag bit => .ok (if (row.getD f.offset 0).toNat.testBit bit then 1 else 0)
    | .unsigned => .ok (f.raw row)
    | .signed => if f.width = 0 then .error .noSign else .ok (signExtend f.width (f.raw row))
  else .error .outOfRange

/-- Whether a flag is set. -/
def readFlag (f : Field) (row : Bytes) : Except Fault Bool :=
  (f.read row).map (· == 1)

/-- The place of a field in a logged layout: byte and bit of a flag, byte range of an integer. The
end of the range must fit into 64 bits. -/
def label (f : Field) : Except Fault String :=
  match f.kind with
  | .flag bit => .ok s!"{f.name}@{f.offset}.{bit}"
  | .unsigned | .signed =>
    (checkSize (f.offset + f.width)).map fun finish => s!"{f.name}@{f.offset}..{finish}"

end Field

end PrivateLift
