import PrivateLift.Columns
import PrivateLift.Log
import PrivateLift.Packing
import PrivateLift.Program

/-!
# What a party asks of its collaborators

A party works on its own columns alone. To learn the intersection it asks an adapter, and to have
rows shared it asks a data processor; each request may fail with an error of the collaborator, of
type `ε`. Log entries are requests, too, so that their order is part of a program's meaning.
-/

namespace PrivateLift

/-- The requests of a party. -/
inductive PartyQuery where
  /-- Adds an entry to the log. -/
  | note (entry : LogEntry)
  /-- Turns the local union map into the intersection map shared with the peer. -/
  | adapt (union : IndexMap)
  /-- Shares the number of rows of `owner`. The owner gives the count, the other party none. -/
  | shareRowCount (owner : Role) (count : Option UInt32)
  /-- Shares the local rows that the peer's intersection map selects. -/
  | shareOwnRows (rows : List Bytes) (outputSize : Nat)
  /-- Shares the peer's rows that the intersection map selects. -/
  | sharePeerRows (count : UInt32) (intersection : IndexMap) (width : Nat)

/-- The answers to the requests of a party. -/
@[reducible] def PartyQuery.Reply (ε : Type) : PartyQuery → Type
  | note _ => Unit
  | adapt _ => Except ε IndexMap
  | shareRowCount _ _ => Except ε UInt32
  | shareOwnRows _ _ => Except ε RowShares
  | sharePeerRows _ _ _ => Except ε RowShares

/-- What the data processor is asked to do when it fails. -/
inductive SharingStep where
  | rowCount (owner : Role)
  | rows (owner : Role)
  deriving DecidableEq, Repr

/-- The wording of a step in error texts. -/
def SharingStep.description : SharingStep → String
  | rowCount owner => s!"sharing the {owner.name} row count"
  | rows owner => s!"processing the {owner.name} rows"

/-- Why a party's run ends with an error. -/
inductive PartyError (ε : Type) where
  /-- The configuration is invalid. -/
  | config (e : ConfigError)
  /-- The local input does not fit the configuration. -/
  | input (e : InputError)
  /-- The union map is malformed. -/
  | unionMap (e : IndexMap.Error)
  /-- The adapter failed. -/
  | adapter (e : ε)
  /-- The data processor failed. -/
  | dataProcessor (step : SharingStep) (e : ε)
  /-- There are more rows than a union map or a shared count can express. -/
  | tooManyRows (rows : Nat)
  /-- The collaborators returned shares of the wrong shape. -/
  | shares (e : ShareError)
  deriving DecidableEq, Repr

/-- The text that reports the end of a run; the text of a collaborator's error is not part of it. -/
def PartyError.message {ε : Type} : PartyError ε → String
  | config e => s!"configuration error: {e.message}"
  | input e => s!"configuration error: {e.message}"
  | unionMap e => s!"configuration error: {e.message}"
  | adapter _ => "adapter protocol failed"
  | dataProcessor step _ => s!"data processor protocol failed while {step.description}"
  | tooManyRows rows => s!"{rows} rows exceed the size of a union map or of a shared row count"
  | shares e => e.message

end PrivateLift
