import PrivateLift.Bytes
import PrivateLift.Fault
import PrivateLift.Permutation

/-!
# Union maps and intersection maps

An index map has one entry per row of the union. In a union map the entry of a real row is its
position among the party's real rows in shuffled order; dummy rows have the entry -1. In an
intersection map the entry is set for the rows that are real for both parties. The set entries of
either map are `0, …, k - 1`, each once.
-/

namespace PrivateLift

/-- One entry per row of the union: a position, or -1. -/
abbrev IndexMap := List Int32

namespace IndexMap

/-- The entry of a row without a position. -/
def unset : Int32 := -1

/-- The position that an entry stands for; negative entries stand for none. -/
def position? (entry : Int32) : Option Nat :=
  if 0 ≤ entry.toInt then some entry.toInt.toNat else none

/-- Number of rows with a position. -/
def setCount (map : IndexMap) : Nat := map.countP (· ≠ unset)

/-- A union with more rows cannot be indexed by a map. -/
def maxUnion : Nat := 0x7fffffff

/-- Numbers the real rows in the order of a permutation of all rows. -/
def ofPermutation (dummyRows : List Bool) (permutation : List Nat) : IndexMap :=
  let real := permutation.filter fun row => !dummyRows.getD row true
  let start := Array.replicate dummyRows.length unset
  (real.zipIdx.foldl (fun map (row, position) => map.setIfInBounds row (.ofNat position))
    start).toList

/-- The union map of a shuffled union: one permutation of all rows is drawn, whatever the dummy
flags are. -/
def shuffled (dummyRows : List Bool) (s : WordStream) : IndexMap × WordStream :=
  let (permutation, s) := Permutation.random dummyRows.length s
  (ofPermutation dummyRows permutation, s)

/-- Why an index map is not a union map. -/
inductive Error where
  /-- The entry of a row is neither -1 nor a row number of the union. -/
  | strayEntry (row : Nat) (entry : Int32)
  /-- A position occurs a second time. -/
  | repeatedPosition (position : Int32)
  /-- The positions leave a gap. -/
  | gap
  deriving DecidableEq, Repr

/-- The text that reports a malformed union map. -/
def Error.message : Error → String
  | strayEntry row entry => s!"malformed union map: entry {row} has value {entry.toInt}"
  | repeatedPosition position => s!"malformed union map: position {position.toInt} appears twice"
  | gap => "malformed union map: positions are not consecutive from 0"

/-- Marks the positions of the entries from row `row` on and counts them. -/
def mark : (row : Nat) → IndexMap → (seen : Array Bool) → (count : Nat) →
    Except Error (Array Bool × Nat)
  | _, [], seen, count => .ok (seen, count)
  | row, entry :: rest, seen, count =>
    if entry = unset then mark (row + 1) rest seen count
    else
      match position? entry with
      | none => .error (.strayEntry row entry)
      | some p =>
        match seen[p]? with
        | none => .error (.strayEntry row entry)
        | some true => .error (.repeatedPosition entry)
        | some false => mark (row + 1) rest (seen.setIfInBounds p true) (count + 1)

/-- The number of positions `k` of a union map. Entries are examined in order, and only where each
is acceptable is it checked that the positions are `0, …, k - 1`. -/
def validate (map : IndexMap) : Except Error Nat := do
  let (seen, count) ← mark 0 map (Array.replicate map.length false) 0
  if (seen.toList.take count).all id then .ok count else .error .gap

/-- Numbers the rows that are set in both maps from `next` on. -/
def intersectFrom : (next : Nat) → IndexMap → IndexMap → IndexMap
  | next, a :: as, b :: bs =>
    if a = unset ∨ b = unset then unset :: intersectFrom next as bs
    else .ofNat next :: intersectFrom (next + 1) as bs
  | _, _, _ => []

/-- The intersection map of two union maps: the rows set in both, numbered in union order. -/
def intersect (publisher partner : IndexMap) : IndexMap := intersectFrom 0 publisher partner

/-- The owner's rows of the intersection, in union order. Row `i` of the union is the entry of the
owner's rows at the position in its union map. -/
def selectRows (rows : List Bytes) (union intersection : IndexMap) : Except Fault (List Bytes) :=
  ((intersection.zip union).filter fun (entry, _) => entry ≠ unset).mapM fun (_, slot) =>
    match (position? slot).bind (rows[·]?) with
    | some row => .ok row
    | none => .error .outOfRange

end IndexMap

end PrivateLift
