import PrivateLift.Bytes
import PrivateLift.Log
import PrivateLift.Text.Megabytes

/-!
# A network in memory

Every two parties are connected by two queues, one in each direction. A queue delivers its messages
in order and holds a limited number of them. A party can leave the network: what it has sent can
still be received, but nothing can be sent to it any more.

A message travels in one piece and takes one place in the queue. That a message of more than 100 MiB
is split is left out: its chunks, the header by which a chunk is numbered, the failure for a chunk
without a header, and that every chunk takes a place in the queue.
-/

namespace PrivateLift

/-- Queues between numbered parties. -/
structure Network where
  /-- The parties are numbered from 0 up to this number. -/
  parties : Nat
  /-- The parties that have left. -/
  left : List Nat := []
  /-- The messages on the way from one party to another, the oldest one first. -/
  queue : (sender receiver : Nat) → List Bytes := fun _ _ => []

/-- Why a message cannot be sent. -/
inductive SendFailure where
  /-- There is no connection to the party. -/
  | unknownParty (party : Nat)
  /-- The receiver has left. -/
  | closed
  deriving DecidableEq, Repr

/-- The text that reports a failed send. -/
def SendFailure.message : SendFailure → String
  | unknownParty party => s!"no connection to party {party}"
  | closed => "the receiver has been dropped"

/-- The short form of a failed send that is quoted in other texts. -/
def SendFailure.tag : SendFailure → String
  | unknownParty party => s!"UnknownParty({party})"
  | closed => "Closed(SendError \x7b .. \x7d)"

/-- Why no message can be received. -/
inductive ReceiveFailure where
  /-- There is no connection to the party. -/
  | unknownParty (party : Nat)
  /-- The sender has left and all its messages have been received. -/
  | closed
  /-- No message came in time. -/
  | timeout
  deriving DecidableEq, Repr

/-- The text that reports a failed receive. -/
def ReceiveFailure.message : ReceiveFailure → String
  | unknownParty party => s!"no connection to party {party}"
  | closed => "the channel has been closed"
  | timeout => "no message was received before the timeout"

/-- The short form of a failed receive that is quoted in other texts. -/
def ReceiveFailure.tag : ReceiveFailure → String
  | unknownParty party => s!"UnknownParty({party})"
  | closed => "Closed"
  | timeout => "TimeoutElapsed"

/-- What comes of trying an action now. -/
inductive Attempt (ε α : Type) where
  /-- The action has to wait for another party. -/
  | pending
  | failed (e : ε)
  | done (a : α)

namespace Network

/-- How many messages a queue holds. -/
def capacity : Nat := 1024

/-- Two different parties of the network are connected. -/
def Connected (n : Network) (me party : Nat) : Prop :=
  me < n.parties ∧ party < n.parties ∧ me ≠ party

instance (n : Network) (me party : Nat) : Decidable (n.Connected me party) := by
  unfold Connected; infer_instance

/-- Replaces the content of one queue. -/
def setQueue (n : Network) (sender receiver : Nat) (messages : List Bytes) : Network :=
  { n with queue := fun s r => if s = sender ∧ r = receiver then messages else n.queue s r }

@[simp] theorem queue_setQueue_self (n : Network) (sender receiver : Nat) (messages : List Bytes) :
    (n.setQueue sender receiver messages).queue sender receiver = messages := by
  simp [setQueue]

theorem queue_setQueue_of_ne (n : Network) {sender receiver s r : Nat} (messages : List Bytes)
    (h : ¬(s = sender ∧ r = receiver)) :
    (n.setQueue sender receiver messages).queue s r = n.queue s r := by
  simp [setQueue, h]

/-- Puts a message at the end of a queue. A full queue makes the sender wait. -/
def send (n : Network) (me party : Nat) (message : Bytes) : Attempt SendFailure Network :=
  if n.Connected me party then
    let messages := n.queue me party
    if party ∈ n.left then .failed .closed
    else if messages.length < capacity then .done (n.setQueue me party (messages ++ [message]))
    else .pending
  else .failed (.unknownParty party)

/-- Takes the oldest message from a queue. -/
def receive (n : Network) (me party : Nat) : Attempt ReceiveFailure (Bytes × Network) :=
  if n.Connected me party then
    match n.queue party me with
    | message :: rest => .done (message, n.setQueue party me rest)
    | [] => if party ∈ n.left then .failed .closed else .pending
  else .failed (.unknownParty party)

/-- The network without a party. -/
def leave (n : Network) (party : Nat) : Network := { n with left := party :: n.left }

/-- The entry that is logged when a message is sent over a connection. -/
def sendEntry (party : Nat) (phase : String) (size : Nat) : LogEntry :=
  .debug s!"Sending msg {phase} to party {party} ({Text.megabytes size})..."

end Network

end PrivateLift
