/-!
# Sizes in megabytes

The size of a message is logged in megabytes of 2^20 bytes with two decimal places. A size halfway
between two such numbers goes to the one with the even last digit.
-/

namespace PrivateLift.Text

/-- The quotient of two numbers rounded to the nearest integer, a half to the even one. -/
def roundHalfEven (num den : Nat) : Nat :=
  let quotient := num / den
  let twice := 2 * (num % den)
  if twice > den ∨ (twice = den ∧ quotient % 2 = 1) then quotient + 1 else quotient

/-- A number of bytes in megabytes. -/
def megabytes (bytes : Nat) : String :=
  let hundredths := roundHalfEven (100 * bytes) (1024 * 1024)
  s!"{hundredths / 100}.{hundredths % 100 / 10}{hundredths % 10}MB"

/-- A size of 128 kilobytes lies halfway between 0.12 and 0.13 megabytes. -/
example : roundHalfEven (100 * (128 * 1024)) (1024 * 1024) = 12 := by decide

end PrivateLift.Text
