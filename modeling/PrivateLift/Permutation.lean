import PrivateLift.WordStream

/-!
# Random permutations

A permutation of `0, …, n - 1` is built by inserting one index after the other: index `i` is
appended and swapped with an index drawn from `0, …, i`. Small draws are taken from one larger draw,
the chunk: if a number is uniform below `a * b`, its remainder modulo `a` and its quotient are
independent and uniform below `a` and `b`. A chunk covers as many indices as the product of their
bounds allows to stay below 2^32.
-/

namespace PrivateLift.Permutation

/-- Draws a number below `bound`, for a bound below 2^32. The high half of the product with a word
is the draw; a second word decides whether the low half carries over, and it is only drawn where it
can. -/
def drawBelow (bound : Nat) (s : WordStream) : Nat × WordStream :=
  let (word, s) := s.next
  let high := word.toNat * bound / UInt32.size
  let low := word.toNat * bound % UInt32.size
  if low > UInt32.size - bound then
    let (word, s) := s.next
    let carry := if low + word.toNat * bound / UInt32.size ≥ UInt32.size then 1 else 0
    (high + carry, s)
  else (high, s)

/-- Multiplies `product` by `factor`, `factor + 1`, … as long as the product stays below 2^32, at
most `steps` times. The result is the product and the first factor left out. -/
def growProduct : (steps product factor : Nat) → Nat × Nat
  | 0, product, factor => (product, factor)
  | steps + 1, product, factor =>
    if product * factor < UInt32.size then growProduct steps (product * factor) (factor + 1)
    else (product, factor)

/-- The bound of a chunk whose first draw is below `n`, and the number of draws that it covers. A
product with factors of at least 2 passes 2^32 within 32 steps. -/
def chunkBound (n : Nat) : Nat × Nat :=
  let (product, factor) := growProduct 32 n (n + 1)
  (product, factor - n)

/-- The draws of indices from one chunk after the other. -/
structure Draws where
  /-- How many indices have been drawn. -/
  count : Nat := 0
  /-- What is left of the current chunk. -/
  chunk : Nat := 0
  /-- How many indices the current chunk still covers. The first index is 0 and needs no chunk. -/
  remaining : Nat := 1

/-- Draws the next index, a number from 0 to the count of earlier draws. The last draw from a chunk
takes what is left of it. -/
def Draws.next (d : Draws) (s : WordStream) : Nat × Draws × WordStream :=
  let n := d.count + 1
  let (chunk, left, s) :=
    if d.remaining = 0 then
      let (bound, covered) := chunkBound n
      let (chunk, s) := drawBelow bound s
      (chunk, covered - 1, s)
    else (d.chunk, d.remaining - 1, s)
  if left = 0 then (chunk, ⟨n, chunk, 0⟩, s)
  else (chunk % n, ⟨n, chunk / n, left⟩, s)

/-- Draws `n` more indices. -/
def drawIndices : (n : Nat) → Draws → WordStream → List Nat × WordStream
  | 0, _, s => ([], s)
  | n + 1, d, s =>
    let (index, d, s) := d.next s
    let (rest, s) := drawIndices n d s
    (index :: rest, s)

/-- Swaps position `i` with the `i`-th of the given indices, for every `i` in ascending order. -/
def applySwaps (indices : List Nat) (start : Array Nat) : Array Nat :=
  indices.zipIdx.foldl (fun a (j, i) => a.swapIfInBounds i j) start

/-- A random permutation of `0, …, n - 1`. -/
def random (n : Nat) (s : WordStream) : List Nat × WordStream :=
  let (indices, s) := drawIndices n {} s
  ((applySwaps indices (Array.range n)).toList, s)

end PrivateLift.Permutation
