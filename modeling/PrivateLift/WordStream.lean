import PrivateLift.Bytes

/-!
# Streams of random words

Randomness is an infinite sequence of 32-bit words together with the number of words drawn so far. A
statement about all random draws is then a statement about all sequences. Two families of sequences
are provided for reproducible runs: the cyclic repetition of a list and a SplitMix64 generator.
-/

namespace PrivateLift

/-- A stream of random words. -/
structure WordStream where
  /-- The words of the whole stream. -/
  word : Nat → UInt32
  /-- How many words have been drawn. -/
  drawn : Nat := 0

namespace WordStream

/-- Draws one word. -/
def next (s : WordStream) : UInt32 × WordStream :=
  (s.word s.drawn, { s with drawn := s.drawn + 1 })

/-- Draws `length` bytes. Every four bytes, the last ones perhaps fewer, take one word, least
significant byte first. -/
def bytes (s : WordStream) (length : Nat) : Bytes × WordStream :=
  let words := (length + 3) / 4
  let drawn := (List.range words).flatMap fun i => Bytes.ofNat 4 (s.word (s.drawn + i)).toNat
  (drawn.take length, { s with drawn := s.drawn + words })

/-- The words of an array in order, starting over at its end. -/
def cyclic (words : Array UInt32) : WordStream :=
  ⟨fun n => words.getD (n % words.size) 0, 0⟩

/-- The output function of a SplitMix64 generator. -/
def mix (state : UInt64) : UInt64 :=
  let z := (state ^^^ (state >>> 30)) * 0xbf58476d1ce4e5b9
  let z := (z ^^^ (z >>> 27)) * 0x94d049bb133111eb
  z ^^^ (z >>> 31)

/-- The words of a SplitMix64 generator: the state grows by a fixed odd number from word to word,
and a word is the low half of the mixed state. -/
def splitMix (seed : UInt64) : WordStream :=
  ⟨fun n => (mix (seed + UInt64.ofNat (n + 1) * 0x9e3779b97f4a7c15)).toUInt32, 0⟩

end WordStream

end PrivateLift
