import PrivateLift.Bytes

/-!
# Hexadecimal texts

A byte string is written with two lower-case digits per byte, the high half first.
-/

namespace PrivateLift.Text.Hex

/-- The digit of a number below 16. -/
def digit (n : Nat) : Char :=
  if n < 10 then Char.ofNat ('0'.toNat + n) else Char.ofNat ('a'.toNat + (n - 10))

/-- The number of a digit in either case. -/
def value? (c : Char) : Option Nat :=
  if '0' ≤ c ∧ c ≤ '9' then some (c.toNat - '0'.toNat)
  else if 'a' ≤ c ∧ c ≤ 'f' then some (c.toNat - 'a'.toNat + 10)
  else if 'A' ≤ c ∧ c ≤ 'F' then some (c.toNat - 'A'.toNat + 10)
  else none

/-- The digits of a byte string. -/
def encode (bytes : Bytes) : List Char :=
  bytes.flatMap fun b => [digit (b.toNat / 16), digit (b.toNat % 16)]

/-- Reads pairs of digits. -/
def decode : List Char → Option Bytes
  | [] => some []
  | [_] => none
  | a :: b :: rest => do
    let high ← value? a
    let low ← value? b
    return UInt8.ofNat (16 * high + low) :: (← decode rest)

theorem value?_digit : ∀ n < 16, value? (digit n) = some n := by decide

@[simp] theorem decode_encode (bytes : Bytes) : decode (encode bytes) = some bytes := by
  induction bytes with
  | nil => rfl
  | cons b bytes ih =>
    have hb := b.toNat_lt
    have e : UInt8.ofNat (16 * (b.toNat / 16) + b.toNat % 16) = b := by
      rw [Nat.div_add_mod]; simp
    have ih' : decode (bytes.flatMap fun b => [digit (b.toNat / 16), digit (b.toNat % 16)]) =
      some bytes := ih
    simp only [encode, List.flatMap_cons, List.cons_append, List.nil_append, decode,
      value?_digit (b.toNat / 16) (by omega), value?_digit (b.toNat % 16) (by omega), ih']
    exact congrArg (fun x => some (x :: bytes)) e

end PrivateLift.Text.Hex
