import Mathlib.Algebra.Order.Ring.Nat
import PrivateLift.Bytes

/-!
# The range of a byte string

`width` bytes hold exactly the numbers below `256 ^ width`: a byte string reads as such a number,
and writing a number keeps its remainder.
-/

namespace PrivateLift.Bytes

/-- Writing keeps the number modulo the range of the width. -/
theorem toNat_ofNat (width n : Nat) : toNat (ofNat width n) = n % 256 ^ width := by
  induction width generalizing n with
  | zero => simp [ofNat, toNat, Nat.mod_one]
  | succ width ih =>
    rw [ofNat, toNat, ih, UInt8.toNat_ofNat', Nat.pow_succ (n := 256), Nat.mul_comm (256 ^ width) 256,
      Nat.mod_mul]

/-- A byte string reads as a number in the range of its width. -/
theorem toNat_lt (bs : Bytes) : toNat bs < 256 ^ bs.length := by
  induction bs with
  | nil => simp [toNat]
  | cons b bs ih =>
    have := b.toNat_lt
    simp only [toNat, List.length_cons, Nat.pow_succ]
    omega

end PrivateLift.Bytes
