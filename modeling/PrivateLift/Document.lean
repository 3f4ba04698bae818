import PrivateLift.BitMatrix.Basic

/-!
# Documents

Configurations and inputs can be kept in documents: trees of numbers, texts, lists and records with
named members. A `Form` says how the values of a type appear in documents.
-/

namespace PrivateLift

/-- A tree of plain values. -/
inductive Document where
  | null
  | bool (b : Bool)
  | integer (n : Int)
  /-- A number that is not written as an integer. No value of this library has such a form. -/
  | fraction
  | text (s : String)
  | list (items : List Document)
  | record (members : List (String × Document))
  deriving Inhabited

/-- Why a document is not the form of a value. -/
inductive Misfit where
  /-- The document has the wrong structure. -/
  | shape
  /-- The value is not a well-formed bit matrix. -/
  | matrix (e : MatrixError)
  deriving DecidableEq, Repr

/-- How the values of a type appear in documents. -/
structure Form (α : Type) where
  write : α → Document
  read : Document → Except Misfit α

namespace Form

variable {α β : Type}

/-- A form for another type, through a conversion in both directions. -/
def map (f : Form α) (build : α → β) (parts : β → α) : Form β where
  write b := f.write (parts b)
  read d := (f.read d).map build

def bool : Form Bool where
  write := .bool
  read
    | .bool b => .ok b
    | _ => .error .shape

/-- The natural numbers below `bound`. -/
def natural (bound : Nat) : Form Nat where
  write n := .integer (.ofNat n)
  read
    | .integer (.ofNat n) => if n < bound then .ok n else .error .shape
    | _ => .error .shape

/-- The integers from `low` to `high`. -/
def integer (low high : Int) : Form Int where
  write := .integer
  read
    | .integer n => if low ≤ n ∧ n ≤ high then .ok n else .error .shape
    | _ => .error .shape

/-- A count below 2^64. -/
def count : Form Nat := natural UInt64.size

def uint8 : Form UInt8 := (natural UInt8.size).map UInt8.ofNat UInt8.toNat

def uint32 : Form UInt32 := (natural UInt32.size).map UInt32.ofNat UInt32.toNat

def int32 : Form Int32 :=
  (integer Int32.minValue.toInt Int32.maxValue.toInt).map Int32.ofInt Int32.toInt

def int64 : Form Int64 :=
  (integer Int64.minValue.toInt Int64.maxValue.toInt).map Int64.ofInt Int64.toInt

/-- A list of values. -/
def list (f : Form α) : Form (List α) where
  write l := .list (l.map f.write)
  read
    | .list items => items.mapM f.read
    | _ => .error .shape

/-- Reads a value from its members with the given names. A record gives the members by name and may
hold others; a list gives the first of them by position and must not hold more, which is checked
last. -/
def members (names : List String) (read : List (Option Document) → Except Misfit α) :
    Document → Except Misfit α
  | .record entries => read (names.map fun name => entries.lookup name)
  | .list items => do
    let a ← read ((List.range names.length).map fun i => items[i]?)
    if items.length ≤ names.length then return a else throw .shape
  | _ => .error .shape

/-- Reads a member that must be there. -/
def required (f : Form α) : Option Document → Except Misfit α
  | some d => f.read d
  | none => .error .shape

/-- Reads a member that may be missing. -/
def optional (f : Form α) (default : α) : Option Document → Except Misfit α
  | some d => f.read d
  | none => .ok default

/-- Reads an alternative that is given by its name alone, or as a record with the name as its only
member: the name and the document of the member. -/
def alternative : Document → Except Misfit (String × Option Document)
  | .text name => .ok (name, none)
  | .record [(name, d)] => .ok (name, some d)
  | _ => .error .shape

end Form

end PrivateLift
