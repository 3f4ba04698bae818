import PrivateLift.BitMatrix.Basic

/-!
# Self-delimiting binary codes

A codec writes a value as bytes and reads it back from the front of a byte string, returning the
rest. Integers have a fixed width and are little-endian, counts take eight bytes, a list is preceded
by its count, and a choice by a tag. No type is written down: sender and receiver must agree on the
codec.
-/

namespace PrivateLift

/-- Why bytes cannot be read as a value. -/
inductive Malformed where
  /-- The bytes end too early. -/
  | endOfInput
  /-- The byte of a truth value is neither 0 nor 1. -/
  | boolByte
  /-- The tag of an optional value is neither 0 nor 1. -/
  | optionTag
  /-- The tag of a choice names no alternative. -/
  | unknownChoice
  /-- The value is not a well-formed bit matrix. -/
  | matrix (e : MatrixError)
  deriving DecidableEq, Repr

/-- The short text by which malformed bytes are reported. -/
def Malformed.message : Malformed → String
  | endOfInput => "Io"
  | boolByte => "InvalidBoolEncoding"
  | optionTag => "InvalidTagEncoding"
  | unknownChoice => "Custom"
  | matrix e => s!"Custom: {e.message}"

/-- A way to write values of a type as bytes and to read them back. -/
structure Codec (α : Type) where
  encode : α → Bytes
  /-- Reads a value from the front and returns the bytes behind it. -/
  decode : Bytes → Except Malformed (α × Bytes)

namespace Codec

variable {α β : Type}

/-- Reads a value and ignores what follows it. -/
def read (c : Codec α) (bytes : Bytes) : Except Malformed α := (c.decode bytes).map (·.1)

/-- Values are written as themselves and read back, whatever follows them. -/
def Faithful (c : Codec α) (valid : α → Prop) : Prop :=
  ∀ a, valid a → ∀ rest, c.decode (c.encode a ++ rest) = .ok (a, rest)

theorem Faithful.read_encode {c : Codec α} {valid : α → Prop} (h : c.Faithful valid) {a : α}
    (ha : valid a) : c.read (c.encode a) = .ok a := by
  have := h a ha []
  simp only [List.append_nil] at this
  simp [read, this, Except.map]

/-- A code for another type, through a conversion in both directions. -/
def map (c : Codec α) (build : α → β) (parts : β → α) : Codec β where
  encode b := c.encode (parts b)
  decode bytes := (c.decode bytes).map fun (a, rest) => (build a, rest)

/-- A code for another type, where not every value that can be read is accepted. -/
def refine (c : Codec α) (build : α → Except Malformed β) (parts : β → α) : Codec β where
  encode b := c.encode (parts b)
  decode bytes := do
    let (a, rest) ← c.decode bytes
    return (← build a, rest)

/-- An unsigned integer of `width` bytes; larger numbers wrap. -/
def fixed (width : Nat) : Codec Nat where
  encode n := Bytes.ofNat width n
  decode bytes :=
    let front := bytes.take width
    if front.length < width then .error .endOfInput else .ok (Bytes.toNat front, bytes.drop width)

/-- A count of eight bytes. -/
def count : Codec Nat := fixed 8

def uint8 : Codec UInt8 := (fixed 1).map UInt8.ofNat UInt8.toNat

def uint32 : Codec UInt32 := (fixed 4).map UInt32.ofNat UInt32.toNat

def int32 : Codec Int32 := uint32.map UInt32.toInt32 Int32.toUInt32

def int64 : Codec Int64 :=
  (fixed 8).map (fun n => (UInt64.ofNat n).toInt64) fun i => i.toUInt64.toNat

/-- A truth value in one byte. -/
def bool : Codec Bool :=
  (fixed 1).refine
    (fun n => if n = 0 then .ok false else if n = 1 then .ok true else .error .boolByte)
    Bool.toNat

/-- Two values one after the other. -/
def pair (c : Codec α) (d : Codec β) : Codec (α × β) where
  encode p := c.encode p.1 ++ d.encode p.2
  decode bytes := do
    let (a, bytes) ← c.decode bytes
    let (b, bytes) ← d.decode bytes
    return ((a, b), bytes)

/-- Reads `n` values one after the other. -/
def decodeMany (c : Codec α) : (n : Nat) → Bytes → Except Malformed (List α × Bytes)
  | 0, bytes => .ok ([], bytes)
  | n + 1, bytes => do
    let (a, bytes) ← c.decode bytes
    let (rest, bytes) ← decodeMany c n bytes
    return (a :: rest, bytes)

/-- The number of values, then the values. -/
def list (c : Codec α) : Codec (List α) where
  encode l := count.encode l.length ++ l.flatMap c.encode
  decode bytes := do
    let (n, bytes) ← count.decode bytes
    c.decodeMany n bytes

/-- The byte 0, or the byte 1 and a value. -/
def option (c : Codec α) : Codec (Option α) where
  encode
    | none => (fixed 1).encode 0
    | some a => (fixed 1).encode 1 ++ c.encode a
  decode bytes := do
    let (tag, bytes) ← (fixed 1).decode bytes
    if tag = 0 then return (none, bytes)
    else if tag = 1 then
      let (a, bytes) ← c.decode bytes
      return (some a, bytes)
    else throw .optionTag

/-- The tag 0 and a value of the first type, or the tag 1 and one of the second. -/
def choice (c : Codec α) (d : Codec β) : Codec (α ⊕ β) where
  encode
    | .inl a => (fixed 4).encode 0 ++ c.encode a
    | .inr b => (fixed 4).encode 1 ++ d.encode b
  decode bytes := do
    let (tag, bytes) ← (fixed 4).decode bytes
    if tag = 0 then
      let (a, bytes) ← c.decode bytes
      return (.inl a, bytes)
    else if tag = 1 then
      let (b, bytes) ← d.decode bytes
      return (.inr b, bytes)
    else throw .unknownChoice

/-- No bytes. -/
def unit : Codec Unit where
  encode _ := []
  decode bytes := .ok ((), bytes)

end Codec

end PrivateLift
