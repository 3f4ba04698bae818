import PrivateLift.Simulation.World

/-!
# Interleavings of three programs

A session consists of three programs on one network. In a step one of them, which may be any, goes
on past its next request; of two actions under way either one may be the first to end. A request may
also fail for a reason of the transport, for instance because it waited too long; such steps are
kept apart as lapses. The messages in the queues are bytes, so the kinds under which they were sent
are recorded beside the network.

No sequence of steps and lapses is infinite (`wellFounded_event`).
-/

namespace PrivateLift

/-- The kind of the message that an action sends or waits for. -/
def ChannelAction.kind : ChannelAction → MessageKind
  | send _ kind _ => kind
  | receive _ kind => kind

/-- A network with its log, and the kinds of the messages in its queues. -/
structure Traffic where
  world : World
  kinds : (sender receiver : Nat) → List MessageKind := fun _ _ => []

namespace Traffic

/-- The messages on the way from one program to another. -/
def queue (t : Traffic) (sender receiver : Nat) : List Bytes :=
  t.world.network.queue sender receiver

/-- The kinds after an action: they follow the queues, where a new message is of the given kind. -/
def kindsAfter (t : Traffic) (kind : MessageKind) (world : World) (sender receiver : Nat) :
    List MessageKind :=
  let before := (t.queue sender receiver).length
  let after := (world.network.queue sender receiver).length
  if before < after then t.kinds sender receiver ++ [kind]
  else (t.kinds sender receiver).drop (before - after)

/-- Tries an action of program `me`. -/
def attempt (t : Traffic) (me : Nat) (a : ChannelAction) : Option (a.Reply × Traffic) :=
  (t.world.attempt me a).map fun (reply, world) => (reply, ⟨world, t.kindsAfter a.kind world⟩)

/-- Adds an entry to the log. -/
def note (t : Traffic) (entry : LogEntry) : Traffic := { t with world := t.world.note entry }

theorem attempt_of_world {t : Traffic} {me : Nat} {a : ChannelAction} {reply : a.Reply}
    {world : World} (h : t.world.attempt me a = some (reply, world)) :
    t.attempt me a = some (reply, ⟨world, t.kindsAfter a.kind world⟩) := by
  rw [attempt, h]
  rfl

end Traffic

/-! ## Steps of one program -/

section

variable {α : Type}

/-- Program `me` goes on past its next request. -/
inductive Acts (me : Nat) : ChannelProgram α → Traffic → ChannelProgram α → Traffic → Prop where
  | note (entry : LogEntry) (next : Unit → ChannelProgram α) (t : Traffic) :
      Acts me (.ask (.note entry) next) t (next ()) (t.note entry)
  | perform {a : ChannelAction} {t t' : Traffic} {reply : a.Reply}
      (h : t.attempt me a = some (reply, t')) (next : a.Reply → ChannelProgram α) :
      Acts me (.ask (.perform a) next) t (next reply) t'
  | left {a : ChannelAction} {t t' : Traffic} {reply : a.Reply}
      (h : t.attempt me a = some (reply, t')) (b : ChannelAction)
      (next : a.Reply ⊕ b.Reply → ChannelProgram α) :
      Acts me (.ask (.either a b) next) t (next (.inl reply)) t'
  | right {b : ChannelAction} {t t' : Traffic} {reply : b.Reply}
      (h : t.attempt me b = some (reply, t')) (a : ChannelAction)
      (next : a.Reply ⊕ b.Reply → ChannelProgram α) :
      Acts me (.ask (.either a b) next) t (next (.inr reply)) t'

/-- The next action of a program fails, and nothing is sent or received. -/
inductive Fails : ChannelProgram α → ChannelProgram α → Prop where
  | perform (a : ChannelAction) (e : ChannelError) (next : a.Reply → ChannelProgram α) :
      Fails (.ask (.perform a) next) (next (.error e))
  | left (a b : ChannelAction) (e : ChannelError)
      (next : a.Reply ⊕ b.Reply → ChannelProgram α) :
      Fails (.ask (.either a b) next) (next (.inl (.error e)))
  | right (a b : ChannelAction) (e : ChannelError)
      (next : a.Reply ⊕ b.Reply → ChannelProgram α) :
      Fails (.ask (.either a b) next) (next (.inr (.error e)))

theorem next_ask (q : ChannelQuery) (next : q.Reply → ChannelProgram α) (reply : q.Reply) :
    Program.Next (next reply) (.ask q next) := .answer q next reply

theorem Acts.next {me : Nat} {p p' : ChannelProgram α} {t t' : Traffic} (h : Acts me p t p' t') :
    Program.Next p' p := by
  cases h with
  | note entry next => exact next_ask (.note entry) next ()
  | @perform a _ _ reply _ next => exact next_ask (.perform a) next reply
  | @left a _ _ reply _ b next => exact next_ask (.either a b) next (.inl reply)
  | @right b _ _ reply _ a next => exact next_ask (.either a b) next (.inr reply)

theorem Fails.next {p p' : ChannelProgram α} (h : Fails p p') : Program.Next p' p := by
  cases h with
  | perform a e next => exact next_ask (.perform a) next (.error e)
  | left a b e next => exact next_ask (.either a b) next (.inl (.error e))
  | right a b e next => exact next_ask (.either a b) next (.inr (.error e))

end

/-! ## Sessions -/

/-- Three programs with the numbers 0, 1 and 2 on a network. -/
structure Session (α β γ : Type) where
  first : ChannelProgram α
  second : ChannelProgram β
  third : ChannelProgram γ
  traffic : Traffic

namespace Session

variable {α β γ : Type}

/-- The session of three programs on a fresh network. -/
def start (first : ChannelProgram α) (second : ChannelProgram β) (third : ChannelProgram γ) :
    Session α β γ :=
  ⟨first, second, third, { world := { network := { parties := 3 } } }⟩

/-- One of the programs goes on. -/
inductive Step : Session α β γ → Session α β γ → Prop where
  | first {a a' : ChannelProgram α} {b : ChannelProgram β} {c : ChannelProgram γ} {t t' : Traffic}
      (h : Acts 0 a t a' t') : Step ⟨a, b, c, t⟩ ⟨a', b, c, t'⟩
  | second {a : ChannelProgram α} {b b' : ChannelProgram β} {c : ChannelProgram γ} {t t' : Traffic}
      (h : Acts 1 b t b' t') : Step ⟨a, b, c, t⟩ ⟨a, b', c, t'⟩
  | third {a : ChannelProgram α} {b : ChannelProgram β} {c c' : ChannelProgram γ} {t t' : Traffic}
      (h : Acts 2 c t c' t') : Step ⟨a, b, c, t⟩ ⟨a, b, c', t'⟩

/-- An action of one of the programs fails. -/
inductive Lapse : Session α β γ → Session α β γ → Prop where
  | first {a a' : ChannelProgram α} {b : ChannelProgram β} {c : ChannelProgram γ} {t : Traffic}
      (h : Fails a a') : Lapse ⟨a, b, c, t⟩ ⟨a', b, c, t⟩
  | second {a : ChannelProgram α} {b b' : ChannelProgram β} {c : ChannelProgram γ} {t : Traffic}
      (h : Fails b b') : Lapse ⟨a, b, c, t⟩ ⟨a, b', c, t⟩
  | third {a : ChannelProgram α} {b : ChannelProgram β} {c c' : ChannelProgram γ} {t : Traffic}
      (h : Fails c c') : Lapse ⟨a, b, c, t⟩ ⟨a, b, c', t⟩

/-- A step or a lapse. -/
def Event (s s' : Session α β γ) : Prop := Step s s' ∨ Lapse s s'

/-- The states that an interleaving of steps can lead to. -/
inductive Reaches (s : Session α β γ) : Session α β γ → Prop where
  | refl : Reaches s s
  | tail {s' s'' : Session α β γ} (h : Reaches s s') (step : Step s' s'') : Reaches s s''

/-- The states that an interleaving of steps and lapses can lead to. -/
inductive MayReach (s : Session α β γ) : Session α β γ → Prop where
  | refl : MayReach s s
  | tail {s' s'' : Session α β γ} (h : MayReach s s') (event : Event s' s'') : MayReach s s''

theorem Reaches.head {s s' s'' : Session α β γ} (step : Step s s') (h : Reaches s' s'') :
    Reaches s s'' := by
  induction h with
  | refl => exact .tail .refl step
  | tail _ step' ih => exact .tail ih step'

theorem Reaches.mayReach {s s' : Session α β γ} (h : Reaches s s') : MayReach s s' := by
  induction h with
  | refl => exact .refl
  | tail _ step ih => exact .tail ih (.inl step)

theorem MayReach.head {s s' s'' : Session α β γ} (event : Event s s') (h : MayReach s' s'') :
    MayReach s s'' := by
  induction h with
  | refl => exact .tail .refl event
  | tail _ event' ih => exact .tail ih event'

theorem acc_event {a : ChannelProgram α} {b : ChannelProgram β} {c : ChannelProgram γ}
    (ha : Acc Program.Next a) (hb : Acc Program.Next b) (hc : Acc Program.Next c) (t : Traffic) :
    Acc (fun s' s => Event s s') (⟨a, b, c, t⟩ : Session α β γ) := by
  -- Each event leaves two programs alone and goes down in the third one.
  induction ha generalizing b c t with
  | intro a _ iha =>
    induction hb generalizing c t with
    | intro b hb ihb =>
      induction hc generalizing t with
      | intro c hc ihc =>
        refine ⟨_, ?_⟩
        intro s' h
        rcases h with h | h
        · cases h with
          | first h => exact iha _ h.next ⟨_, hb⟩ ⟨_, hc⟩ _
          | second h => exact ihb _ h.next ⟨_, hc⟩ _
          | third h => exact ihc _ h.next _
        · cases h with
          | first h => exact iha _ h.next ⟨_, hb⟩ ⟨_, hc⟩ _
          | second h => exact ihb _ h.next ⟨_, hc⟩ _
          | third h => exact ihc _ h.next _

/-- No interleaving goes on forever. -/
theorem wellFounded_event : WellFounded fun s' s : Session α β γ => Event s s' :=
  ⟨fun s => acc_event (Program.acc_next s.first) (Program.acc_next s.second)
    (Program.acc_next s.third) s.traffic⟩

end Session

end PrivateLift
