import PrivateLift.Channel
import PrivateLift.Network

/-!
# Answering requests over a network

Messages travel as bytes: a send writes its content by the code of its kind, and a receive reads the
bytes by the code of the kind that it expects.
-/

namespace PrivateLift

/-- A network together with the log of the programs that use it. -/
structure World where
  network : Network
  /-- The oldest entry comes first. -/
  log : Array LogEntry := #[]

namespace World

/-- Adds an entry to the log. -/
def note (w : World) (entry : LogEntry) : World := { w with log := w.log.push entry }

/-- Sends a message of a program, if its queue has room. Every send over a connection is logged. -/
def send (w : World) (me recipient : Nat) (kind : MessageKind) (payload : kind.Payload) :
    Option (Except ChannelError Unit × World) :=
  let bytes := kind.codec.encode payload
  let logged := w.note (Network.sendEntry recipient kind.phase bytes.length)
  match w.network.send me recipient bytes with
  | .pending => none
  | .failed (.unknownParty p) => some (.error ⟨kind, .send (SendFailure.unknownParty p).tag⟩, w)
  | .failed .closed => some (.error ⟨kind, .send SendFailure.closed.tag⟩, logged)
  | .done network => some (.ok (), { logged with network })

/-- Receives the next message for a program, if there is one. -/
def receive (w : World) (me sender : Nat) (kind : MessageKind) :
    Option (Except ChannelError kind.Payload × World) :=
  match w.network.receive me sender with
  | .pending => none
  | .failed e => some (.error ⟨kind, .receive e.tag⟩, w)
  | .done (bytes, network) =>
    match kind.codec.read bytes with
    | .ok payload => some (.ok payload, { w with network })
    | .error e => some (.error ⟨kind, .malformed e⟩, { w with network })

/-- Tries an action of program `me`. -/
def attempt (w : World) (me : Nat) : (a : ChannelAction) → Option (a.Reply × World)
  | .send recipient kind payload => w.send me recipient kind payload
  | .receive sender kind => w.receive me sender kind

/-- Answers a request of program `me`, unless it has to wait. Of two actions the first one is tried
first. -/
def answer (w : World) (me : Nat) : (q : ChannelQuery) → Option (q.Reply × World)
  | .note entry => some ((), w.note entry)
  | .perform a => w.attempt me a
  | .either a b =>
    match w.attempt me a with
    | some (reply, w) => some (.inl reply, w)
    | none => (w.attempt me b).map fun (reply, w) => (.inr reply, w)

end World

/-- The error of an action that waited too long. -/
def ChannelAction.expired : ChannelAction → ChannelError
  | .send _ kind _ => ⟨kind, .send ReceiveFailure.timeout.tag⟩
  | .receive _ kind => ⟨kind, .receive ReceiveFailure.timeout.tag⟩

/-- The answer to a request that waited too long. -/
def ChannelQuery.expired : (q : ChannelQuery) → q.Reply
  | .note _ => ()
  | .perform a => .error a.expired
  | .either a _ => .inl (.error a.expired)

end PrivateLift
