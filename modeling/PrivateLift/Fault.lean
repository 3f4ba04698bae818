/-!
# Faults and halts

A fault is a breach of an operation's precondition: a bug of the caller, not a condition that a
caller handles. Operations with a precondition return an `Except Fault`, so that the theory can say
exactly when the precondition holds. A computation that may also end in a reported error of type `ε`
returns an `Outcome ε`.
-/

namespace PrivateLift

/-- The breached preconditions. -/
inductive Fault where
  /-- An index or a range lies outside of a sequence. -/
  | outOfRange
  /-- A bit matrix has no row `r`. -/
  | noRow (r : Nat)
  /-- A bit matrix has no column `c`. -/
  | noColumn (c : Nat)
  /-- A bit matrix has no cell `(r, c)`. -/
  | noCell (r c : Nat)
  /-- Two bit matrices have different dimensions. -/
  | dimensionsDiffer
  /-- The shares of a column have different lengths. -/
  | shareLengthsDiffer
  /-- The shares of two parties have different numbers of rows. -/
  | rowCountsDiffer
  /-- A size or a position does not fit into 64 bits. -/
  | sizeOverflow
  /-- A two's complement integer without bytes has no sign. -/
  | noSign
  deriving DecidableEq, Repr

/-- The text of a fault, where it has one. -/
def Fault.message? : Fault → Option String
  | outOfRange => none
  | noRow r => some s!"row {r} out of bounds"
  | noColumn c => some s!"column {c} out of bounds"
  | noCell r c => some s!"({r}, {c}) out of bounds"
  | dimensionsDiffer => some "dimensions must match"
  | shareLengthsDiffer => some "share lengths differ"
  | rowCountsDiffer => some "row counts differ"
  | sizeOverflow | noSign => none

/-- A size or a position, if it fits into 64 bits. -/
def checkSize (n : Nat) : Except Fault Nat :=
  if n < UInt64.size then .ok n else .error .sizeOverflow

theorem checkSize_ok {n : Nat} (h : n < UInt64.size) : checkSize n = .ok n := if_pos h

theorem checkSize_error {n : Nat} (h : ¬n < UInt64.size) : checkSize n = .error .sizeOverflow :=
  if_neg h

/-- Why a computation ends without a result: by a fault, or with an error that it reports. -/
inductive Halt (ε : Type) where
  | fault (f : Fault)
  | error (e : ε)
  deriving DecidableEq, Repr

/-- The outcome of a computation that can halt. -/
abbrev Outcome (ε α : Type) := Except (Halt ε) α

namespace Outcome

/-- An outcome without errors of its own. -/
def ofFault {ε α : Type} : Except Fault α → Outcome ε α
  | .ok a => .ok a
  | .error f => .error (.fault f)

/-- An outcome without faults. -/
def ofError {ε ε' α : Type} (wrap : ε' → ε) : Except ε' α → Outcome ε α
  | .ok a => .ok a
  | .error e => .error (.error (wrap e))

end Outcome

end PrivateLift
