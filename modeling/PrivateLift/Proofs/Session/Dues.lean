import Mathlib.Logic.Function.Basic
import PrivateLift.Proofs.Session.Steps
import PrivateLift.Proofs.Wire

/-!
# What a program still has to exchange

The dues of a program are, for every peer, the messages that it will send to and receive from that
peer, in order. `Serves p dues a` says that the program `p` does nothing but settle its dues, in
whatever order two actions under way end, and then returns `a`. A program that serves its dues reads
next, from a peer whose turn it is to send, the very message that is due (`Serves.readsNext`).
-/

namespace PrivateLift

variable {α β : Type}

/-- A message that is still to be sent or received. -/
inductive Due where
  | send (m : Message)
  | receive (m : Message)

namespace Due

/-- The action that settles the due with a peer. -/
def action (peer : Nat) : Due → ChannelAction
  | send m => .send peer m.1 m.2
  | receive m => .receive peer m.1

/-- What the action gives. -/
def result (peer : Nat) : (due : Due) → (due.action peer).Result
  | send _ => ()
  | receive m => m.2

/-- The due is settled by receiving. -/
def IsReceive : Due → Prop
  | send _ => False
  | receive _ => True

/-- What the peer has to do. -/
def flip : Due → Due
  | send m => receive m
  | receive m => send m

@[simp] theorem flip_flip (due : Due) : due.flip.flip = due := by cases due <;> rfl

/-- The message of a due. -/
def message : Due → Message
  | send m | receive m => m

end Due

/-- The dues of a program to every peer. -/
abbrev Dues := (peer : Nat) → List Due

/-- No message is due to be received next from this peer. -/
def NotReceiving (dues : List Due) : Prop := ∀ m rest, dues ≠ .receive m :: rest

/-- The program settles the dues and returns `a`. A program that waits for one peer alone is not
about to receive from another one. -/
inductive Serves : ChannelProgram α → Dues → α → Prop where
  | done (a : α) {dues : Dues} (h : ∀ peer, dues peer = []) : Serves (.done a) dues a
  | note {entry : LogEntry} {next : Unit → ChannelProgram α} {dues : Dues} {a : α}
      (rest : Serves (next ()) dues a) : Serves (.ask (.note entry) next) dues a
  | perform {peer : Nat} (due : Due) {later : List Due} {dues : Dues} {a : α}
      (h : dues peer = due :: later)
      (alone : due.IsReceive → ∀ other, other ≠ peer → NotReceiving (dues other))
      {next : (due.action peer).Reply → ChannelProgram α}
      (rest : Serves (next (.ok (due.result peer))) (Function.update dues peer later) a) :
      Serves (.ask (.perform (due.action peer)) next) dues a
  | either {i j : Nat} (hij : i ≠ j) {due due' : Due} {later later' : List Due} {dues : Dues}
      {a : α} (hi : dues i = due :: later) (hj : dues j = due' :: later')
      (others : ∀ k, k ≠ i → k ≠ j → dues k = [])
      {next : (due.action i).Reply ⊕ (due'.action j).Reply → ChannelProgram α}
      (left : Serves (next (.inl (.ok (due.result i)))) (Function.update dues i later) a)
      (right : Serves (next (.inr (.ok (due'.result j)))) (Function.update dues j later') a) :
      Serves (.ask (.either (due.action i) (due'.action j)) next) dues a

/-- The first message that the program receives from the sender is of the given kind: it waits for
that message, perhaps after log entries and successful sends. -/
inductive ReadsNext (sender : Nat) (kind : MessageKind) : ChannelProgram α → Prop where
  | receive (next : Except ChannelError kind.Payload → ChannelProgram α) :
      ReadsNext sender kind (.ask (.perform (.receive sender kind)) next)
  | left (other : ChannelAction)
      (next : Except ChannelError kind.Payload ⊕ other.Reply → ChannelProgram α) :
      ReadsNext sender kind (.ask (.either (.receive sender kind) other) next)
  | right (other : ChannelAction)
      (next : other.Reply ⊕ Except ChannelError kind.Payload → ChannelProgram α) :
      ReadsNext sender kind (.ask (.either other (.receive sender kind)) next)
  | note {entry : LogEntry} {next : Unit → ChannelProgram α}
      (rest : ReadsNext sender kind (next ())) : ReadsNext sender kind (.ask (.note entry) next)
  | sent {recipient : Nat} {sentKind : MessageKind} {payload : sentKind.Payload}
      {next : Except ChannelError Unit → ChannelProgram α}
      (rest : ReadsNext sender kind (next (.ok ()))) :
      ReadsNext sender kind (.ask (.perform (.send recipient sentKind payload)) next)

namespace Serves

theorem done_inv {a b : α} {dues : Dues} (h : Serves (.done b) dues a) : b = a := by
  cases h
  rfl

/-- A program that has settled its dues may go on with one that has none. -/
theorem bind_of_settled {p : ChannelProgram α} {dues : Dues} {a : α} (h : Serves p dues a)
    {f : α → ChannelProgram β} {b : β}
    (hf : ∀ dues : Dues, (∀ peer, dues peer = []) → Serves (f a) dues b) :
    Serves (p >>= f) dues b := by
  induction h with
  | done a h => exact hf _ h
  | note _ ih => exact .note (ih hf)
  | perform due h alone _ ih => exact .perform due h alone (ih hf)
  | either hij hi hj others _ _ ihl ihr => exact .either hij hi hj others (ihl hf) (ihr hf)

theorem bind {p : ChannelProgram α} {dues : Dues} {a : α} (h : Serves p dues a)
    {f : α → ChannelProgram β} {b : β} (hf : f a = .done b) : Serves (p >>= f) dues b :=
  h.bind_of_settled fun _ hdues => hf ▸ .done b hdues

/-- The message that is due from a peer is the one that is read next. -/
theorem readsNext {p : ChannelProgram α} {dues : Dues} {a : α} (h : Serves p dues a) {sender : Nat}
    {m : Message} {later : List Due} (hdue : dues sender = .receive m :: later) :
    ReadsNext sender m.1 p := by
  induction h generalizing later with
  | done a h =>
    rw [h sender] at hdue
    cases hdue
  | note _ ih => exact .note (ih hdue)
  | @perform peer due later' dues a h alone next _ ih =>
    by_cases hpeer : sender = peer
    · subst hpeer
      rw [h] at hdue
      cases hdue
      exact .receive next
    · cases due with
      | send m' => exact .sent (ih (by rw [Function.update_of_ne hpeer, hdue]))
      | receive m' => exact absurd hdue (alone trivial sender hpeer m later)
  | @either i j hij due due' later later' dues a hi hj others next _ _ _ _ =>
    by_cases hsi : sender = i
    · subst hsi
      rw [hi] at hdue
      cases hdue
      exact .left _ next
    · by_cases hsj : sender = j
      · subst hsj
        rw [hj] at hdue
        cases hdue
        exact .right _ next
      · rw [others sender hsi hsj] at hdue
        cases hdue

end Serves

end PrivateLift
