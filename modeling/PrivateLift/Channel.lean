import PrivateLift.Log
import PrivateLift.Program
import PrivateLift.Wire.Message

/-!
# Talking over channels

A program that talks to other parties sends and receives messages of known kinds. Parties are
numbered. A program may also have two actions under way at once and go on with whichever ends first;
`ChannelStep.both` performs two actions in this way and needs both to succeed.
-/

namespace PrivateLift

/-- What goes wrong in a send or a receive. -/
inductive ChannelFailure where
  /-- No message could be received, for a reason given by the transport. -/
  | receive (reason : String)
  /-- The message could not be sent, for a reason given by the transport. -/
  | send (reason : String)
  /-- The received bytes are no message of the expected kind. -/
  | malformed (e : Malformed)
  /-- The received list does not have the expected length. -/
  | invalidLength (expected actual : Nat)
  deriving DecidableEq, Repr

/-- The text of a failure. -/
def ChannelFailure.message : ChannelFailure → String
  | receive reason => s!"could not receive message: {reason}"
  | send reason => s!"could not send message: {reason}"
  | malformed e => s!"could not (de-)serialize message: {e.message}"
  | invalidLength expected actual => s!"expected {expected} elements, but got {actual}"

/-- A failure in the exchange of a message of the given kind. -/
structure ChannelError where
  kind : MessageKind
  failure : ChannelFailure
  deriving DecidableEq, Repr

/-- The text that reports a failed exchange with its phase. -/
def ChannelError.message (e : ChannelError) : String :=
  let phase :=
    match e.failure with
    | .malformed _ => s!"receiving {e.kind.phase}"
    | _ => e.kind.phase
  s!"channel error during {phase}: {e.failure.message}"

/-- One action on a channel. -/
inductive ChannelAction where
  /-- Sends a message to a party. -/
  | send (recipient : Nat) (kind : MessageKind) (payload : kind.Payload)
  /-- Waits for a message of a party. -/
  | receive (sender : Nat) (kind : MessageKind)

/-- What a successful action gives. -/
@[reducible] def ChannelAction.Result : ChannelAction → Type
  | send _ _ _ => Unit
  | receive _ kind => kind.Payload

/-- What an action gives. -/
@[reducible] def ChannelAction.Reply (a : ChannelAction) : Type := Except ChannelError a.Result

/-- The requests of a program that talks over channels. -/
inductive ChannelQuery where
  /-- Adds an entry to the log. -/
  | note (entry : LogEntry)
  /-- Performs an action. -/
  | perform (a : ChannelAction)
  /-- Starts two actions and waits until one of them ends; the other one is still to be
  performed. -/
  | either (a b : ChannelAction)

/-- The answers to the requests of a program that talks over channels. -/
@[reducible] def ChannelQuery.Reply : ChannelQuery → Type
  | note _ => Unit
  | perform a => a.Reply
  | either a b => a.Reply ⊕ b.Reply

/-- A program that talks over channels. -/
abbrev ChannelProgram := Program ChannelQuery ChannelQuery.Reply

/-- A program that talks over channels and ends at the first failed action. -/
abbrev ChannelStep (α : Type) := ExceptT ChannelError ChannelProgram α

namespace ChannelStep

/-- Performs an action. -/
def perform (a : ChannelAction) : ChannelStep a.Result :=
  ExceptT.mk <| .ask (.perform a) .done

/-- Sends a message. -/
def send (recipient : Nat) (kind : MessageKind) (payload : kind.Payload) : ChannelStep Unit :=
  perform (.send recipient kind payload)

/-- Waits for a message. -/
def receive (sender : Nat) (kind : MessageKind) : ChannelStep kind.Payload :=
  perform (.receive sender kind)

/-- Performs two actions in any order. The first failure is the failure of both; the other action is
then given up. -/
def both (a b : ChannelAction) : ChannelStep (a.Result × b.Result) :=
  ExceptT.mk <| .ask (.either a b) fun
    | .inl (.ok x) => .ask (.perform b) fun reply => .done (reply.map fun y => (x, y))
    | .inr (.ok y) => .ask (.perform a) fun reply => .done (reply.map fun x => (x, y))
    | .inl (.error e) | .inr (.error e) => .done (.error e)

end ChannelStep

end PrivateLift
