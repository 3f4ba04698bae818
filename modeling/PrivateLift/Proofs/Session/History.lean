import Mathlib.Logic.Function.Basic
import PrivateLift.Proofs.Session.Steps
import PrivateLift.Proofs.Wire

/-!
# What a program has sent and received

The record of a program lists, for every peer, the messages that it has sent to that peer and the
bytes that it has received from it, in order. `Leaves p record a` says that the program `p` can
leave this record and end with `a`, where every action may also fail. In a session the records of
the programs account for every message: what has been sent on a channel is what has been received,
followed by what is in the queue (`Session.exists_records`).
-/

namespace PrivateLift

variable {α : Type}

/-- A message that has been sent, or the bytes that have been received as a message of a kind. -/
inductive Deed where
  | sent (m : Message)
  | took (kind : MessageKind) (bytes : Bytes)

namespace Deed

/-- The bytes of a sent message. -/
def sent? : Deed → Option Bytes
  | sent m => some m.encode
  | took _ _ => none

/-- Received bytes. -/
def took? : Deed → Option Bytes
  | sent _ => none
  | took _ bytes => some bytes

end Deed

/-- The deeds of a program with every peer, the oldest ones first. -/
abbrev Record := (peer : Nat) → List Deed

namespace Record

/-- The record of a program that has done nothing. -/
def empty : Record := fun _ => []

/-- One record after another. -/
def append (first second : Record) : Record := fun peer => first peer ++ second peer

/-- The record with a deed in front. -/
def push (record : Record) (peer : Nat) (deed : Deed) : Record :=
  Function.update record peer (deed :: record peer)

/-- The record with a deed at the end. -/
def snoc (record : Record) (peer : Nat) (deed : Deed) : Record :=
  Function.update record peer (record peer ++ [deed])

theorem push_self (record : Record) (peer : Nat) (deed : Deed) :
    record.push peer deed peer = deed :: record peer := Function.update_self ..

theorem push_of_ne (record : Record) {peer other : Nat} (h : other ≠ peer) (deed : Deed) :
    record.push peer deed other = record other := Function.update_of_ne h ..

theorem snoc_self (record : Record) (peer : Nat) (deed : Deed) :
    record.snoc peer deed peer = record peer ++ [deed] := Function.update_self ..

theorem snoc_of_ne (record : Record) {peer other : Nat} (h : other ≠ peer) (deed : Deed) :
    record.snoc peer deed other = record other := Function.update_of_ne h ..

theorem append_empty (record : Record) : record.append empty = record :=
  funext fun peer => List.append_nil (record peer)

theorem append_push (first second : Record) (peer : Nat) (deed : Deed) :
    first.append (second.push peer deed) = (first.snoc peer deed).append second := by
  funext other
  by_cases h : other = peer
  · subst h
    simp [append, push_self, snoc_self]
  · simp [append, push_of_ne _ h, snoc_of_ne _ h]

end Record

/-! ## Runs of one program -/

namespace ChannelAction

/-- The other side of an action. -/
def peer : ChannelAction → Nat
  | send recipient _ _ => recipient
  | receive sender _ => sender

/-- An action succeeds with a result. -/
inductive Succeeds : (a : ChannelAction) → a.Result → Deed → Prop where
  | send (recipient : Nat) (kind : MessageKind) (payload : kind.Payload) :
      Succeeds (.send recipient kind payload) () (.sent ⟨kind, payload⟩)
  | receive (sender : Nat) {kind : MessageKind} {bytes : Bytes} {payload : kind.Payload}
      (h : kind.codec.read bytes = .ok payload) :
      Succeeds (.receive sender kind) payload (.took kind bytes)

/-- An action ends with a reply and is put in front of a record. An action that fails does nothing,
unless it receives what cannot be read. -/
inductive Puts : (a : ChannelAction) → a.Reply → Record → Record → Prop where
  | ok {a : ChannelAction} {result : a.Result} {deed : Deed} (h : Succeeds a result deed)
      (record : Record) : Puts a (.ok result) record (record.push a.peer deed)
  | malformed (sender : Nat) {kind : MessageKind} {bytes : Bytes} {e : Malformed}
      (h : kind.codec.read bytes = .error e) (record : Record) :
      Puts (.receive sender kind) (.error ⟨kind, .malformed e⟩) record
        (record.push sender (.took kind bytes))
  | failed (a : ChannelAction) (e : ChannelError) (record : Record) :
      Puts a (.error e) record record

namespace Puts

variable {peer : Nat} {kind : MessageKind} {payload : kind.Payload} {record record' : Record}

theorem send_inv {reply : Except ChannelError Unit}
    (h : Puts (.send peer kind payload) reply record record') :
    (∃ e, reply = .error e) ∨
      reply = .ok () ∧ record' = record.push peer (.sent ⟨kind, payload⟩) := by
  cases h with
  | ok hsucceeds =>
    cases hsucceeds
    exact .inr ⟨rfl, rfl⟩
  | failed _ e => exact .inl ⟨e, rfl⟩

theorem receive_inv {reply : Except ChannelError kind.Payload}
    (h : Puts (.receive peer kind) reply record record') :
    (∃ e, reply = .error e) ∨ ∃ bytes payload, kind.codec.read bytes = .ok payload ∧
      reply = .ok payload ∧ record' = record.push peer (.took kind bytes) := by
  cases h with
  | ok hsucceeds =>
    cases hsucceeds with
    | receive _ hread => exact .inr ⟨_, _, hread, rfl, rfl⟩
  | malformed _ _ => exact .inl ⟨_, rfl⟩
  | failed _ e => exact .inl ⟨e, rfl⟩

end Puts

end ChannelAction

open ChannelAction

/-- The program can leave this record and end with a result. -/
inductive Leaves : ChannelProgram α → Record → α → Prop where
  | done (a : α) : Leaves (.done a) .empty a
  | note {entry : LogEntry} {next : Unit → ChannelProgram α} {record : Record} {a : α}
      (rest : Leaves (next ()) record a) : Leaves (.ask (.note entry) next) record a
  | perform {x : ChannelAction} {reply : x.Reply} {record record' : Record}
      (h : Puts x reply record record') {next : x.Reply → ChannelProgram α} {a : α}
      (rest : Leaves (next reply) record a) : Leaves (.ask (.perform x) next) record' a
  | left {x y : ChannelAction} {reply : x.Reply} {record record' : Record}
      (h : Puts x reply record record') {next : x.Reply ⊕ y.Reply → ChannelProgram α} {a : α}
      (rest : Leaves (next (.inl reply)) record a) : Leaves (.ask (.either x y) next) record' a
  | right {x y : ChannelAction} {reply : y.Reply} {record record' : Record}
      (h : Puts y reply record record') {next : x.Reply ⊕ y.Reply → ChannelProgram α} {a : α}
      (rest : Leaves (next (.inr reply)) record a) : Leaves (.ask (.either x y) next) record' a

/-- Every program can end at once, if everything fails. -/
theorem Leaves.exists_empty (p : ChannelProgram α) : ∃ a, Leaves p .empty a := by
  have error : ChannelError := ⟨.unionMap, .receive ""⟩
  induction p with
  | done a => exact ⟨a, .done a⟩
  | ask q next ih =>
    cases q with
    | note entry =>
      obtain ⟨a, h⟩ := ih ()
      exact ⟨a, .note h⟩
    | perform x =>
      obtain ⟨a, h⟩ := ih (.error error)
      exact ⟨a, .perform (.failed x error .empty) h⟩
    | either x y =>
      obtain ⟨a, h⟩ := ih (.inl (.error error))
      exact ⟨a, .left (.failed x error .empty) h⟩

/-- The program `p` is what is left of `start` after the record. -/
def Follows (start p : ChannelProgram α) (record : Record) : Prop :=
  ∀ rest a, Leaves p rest a → Leaves start (record.append rest) a

namespace Follows

variable {start p p' : ChannelProgram α} {record : Record}

theorem refl (start : ChannelProgram α) : Follows start start .empty := fun _ _ h => h

theorem leaves (h : Follows start p record) {a : α} (hp : p = .done a) : Leaves start record a := by
  subst hp
  have hleaves := h .empty a (.done a)
  rwa [Record.append_empty] at hleaves

/-- Without a result, the rest of the program may fail. -/
theorem exists_leaves (h : Follows start p record) : ∃ a, Leaves start record a := by
  obtain ⟨a, ha⟩ := Leaves.exists_empty p
  have hleaves := h .empty a ha
  rw [Record.append_empty] at hleaves
  exact ⟨a, hleaves⟩

theorem fails (h : Follows start p record) (hfails : Fails p p') : Follows start p' record := by
  intro rest a hrest
  apply h
  cases hfails with
  | perform x e next => exact .perform (.failed x e rest) hrest
  | left x y e next => exact .left (.failed x e rest) hrest
  | right x y e next => exact .right (.failed y e rest) hrest

end Follows

/-! ## Accounts of a session -/

/-- The queues change by a deed of program `me` with a peer. -/
def Traffic.Carries (t t' : Traffic) (me peer : Nat) (deed : Deed) : Prop :=
  ∀ i j, t.queue i j ++ (if i = me ∧ j = peer then deed.sent?.toList else []) =
    (if j = me ∧ i = peer then deed.took?.toList else []) ++ t'.queue i j

/-- What has been sent is what has been received and what is on the way. -/
def Accounts (records : Nat → Record) (t : Traffic) : Prop :=
  ∀ i j, (records i j).filterMap Deed.sent? = (records j i).filterMap Deed.took? ++ t.queue i j

theorem filterMap_snoc (records : Nat → Record) (me peer : Nat) (deed : Deed)
    (f : Deed → Option Bytes) (i j : Nat) :
    (Function.update records me ((records me).snoc peer deed) i j).filterMap f =
      (records i j).filterMap f ++ if i = me ∧ j = peer then (f deed).toList else [] := by
  by_cases hi : i = me
  · subst hi
    rw [Function.update_self]
    by_cases hj : j = peer
    · subst hj
      rw [Record.snoc_self, List.filterMap_append, if_pos ⟨rfl, rfl⟩]
      cases hf : f deed <;> simp [hf]
    · rw [Record.snoc_of_ne _ hj, if_neg fun h => hj h.2, List.append_nil]
  · rw [Function.update_of_ne hi, if_neg fun h => hi h.1, List.append_nil]

theorem Accounts.snoc {records : Nat → Record} {t t' : Traffic} {me peer : Nat} {deed : Deed}
    (h : Accounts records t) (hcarries : t.Carries t' me peer deed) :
    Accounts (Function.update records me ((records me).snoc peer deed)) t' := by
  intro i j
  rw [filterMap_snoc, filterMap_snoc, h i j, List.append_assoc, hcarries i j, List.append_assoc]

theorem Accounts.congr {records : Nat → Record} {t t' : Traffic} (h : Accounts records t)
    (hqueue : ∀ i j, t'.queue i j = t.queue i j) : Accounts records t' := by
  intro i j
  rw [hqueue]
  exact h i j

theorem Network.send_eq_done {n n' : Network} {me party : Nat} {message : Bytes}
    (h : n.send me party message = .done n') :
    n' = n.setQueue me party (n.queue me party ++ [message]) := by
  unfold send at h
  split at h
  · dsimp only at h
    split at h
    · cases h
    · split at h
      · cases h
        rfl
      · cases h
  · cases h

theorem Network.receive_eq_done {n n' : Network} {me party : Nat} {message : Bytes}
    (h : n.receive me party = .done (message, n')) :
    ∃ rest, n.queue party me = message :: rest ∧ n' = n.setQueue party me rest := by
  unfold receive at h
  split at h
  · split at h
    · next rest hqueue =>
      cases h
      exact ⟨rest, hqueue, rfl⟩
    · split at h <;> cases h
  · cases h

theorem Traffic.carries_sent {t t' : Traffic} {me peer : Nat} {m : Message}
    (h : t'.world.network = t.world.network.setQueue me peer (t.queue me peer ++ [m.encode])) :
    t.Carries t' me peer (.sent m) := by
  intro i j
  have htook : (Deed.sent m).took?.toList = [] := rfl
  rw [htook, ite_self, List.nil_append, queue, queue, h]
  by_cases hij : i = me ∧ j = peer
  · obtain ⟨rfl, rfl⟩ := hij
    rw [if_pos ⟨rfl, rfl⟩, Network.queue_setQueue_self]
    rfl
  · rw [if_neg hij, Network.queue_setQueue_of_ne _ _ hij, List.append_nil]

theorem Traffic.carries_took {t t' : Traffic} {me peer : Nat} {kind : MessageKind} {bytes : Bytes}
    {rest : List Bytes} (hqueue : t.queue peer me = bytes :: rest)
    (h : t'.world.network = t.world.network.setQueue peer me rest) :
    t.Carries t' me peer (.took kind bytes) := by
  intro i j
  have hsent : (Deed.took kind bytes).sent?.toList = [] := rfl
  rw [hsent, ite_self, List.append_nil]
  by_cases hji : j = me ∧ i = peer
  · obtain ⟨rfl, rfl⟩ := hji
    rw [hqueue, if_pos ⟨rfl, rfl⟩, queue, h, Network.queue_setQueue_self]
    rfl
  · have hij : ¬(i = peer ∧ j = me) := fun hij => hji ⟨hij.2, hij.1⟩
    rw [if_neg hji, queue, queue, h, Network.queue_setQueue_of_ne _ _ hij, List.nil_append]

theorem Traffic.attempt_cases {t t' : Traffic} {me : Nat} {a : ChannelAction} {reply : a.Reply}
    (h : t.attempt me a = some (reply, t')) :
    ((∀ record, Puts a reply record record) ∧ ∀ i j, t'.queue i j = t.queue i j) ∨
      ∃ deed, (∀ record, Puts a reply record (record.push a.peer deed)) ∧
        t.Carries t' me a.peer deed := by
  obtain ⟨⟨reply', world⟩, hworld, heq⟩ := Option.map_eq_some_iff.1 h
  cases heq
  cases a with
  | send recipient kind payload =>
    unfold World.attempt World.send at hworld
    dsimp only at hworld
    split at hworld
    · cases hworld
    · cases hworld
      exact .inl ⟨fun record => .failed _ _ record, fun _ _ => rfl⟩
    · cases hworld
      exact .inl ⟨fun record => .failed _ _ record, fun _ _ => rfl⟩
    · next network hsend =>
      cases hworld
      exact .inr ⟨_, fun record => .ok (.send recipient kind payload) record,
        carries_sent (Network.send_eq_done hsend)⟩
  | receive sender kind =>
    unfold World.attempt World.receive at hworld
    dsimp only at hworld
    split at hworld
    · cases hworld
    · cases hworld
      exact .inl ⟨fun record => .failed _ _ record, fun _ _ => rfl⟩
    · next bytes network hreceive =>
      obtain ⟨rest, hqueue, rfl⟩ := Network.receive_eq_done hreceive
      split at hworld
      · next payload hread =>
        cases hworld
        exact .inr ⟨_, fun record => .ok (.receive sender hread) record, carries_took hqueue rfl⟩
      · next e hread =>
        cases hworld
        exact .inr ⟨_, fun record => .malformed sender hread record, carries_took hqueue rfl⟩

/-- A step of a program is a deed, or nothing that a record tells. -/
theorem Follows.acts {start p p' : ChannelProgram α} {record : Record} {t t' : Traffic} {me : Nat}
    (h : Follows start p record) (hacts : Acts me p t p' t') :
    (Follows start p' record ∧ ∀ i j, t'.queue i j = t.queue i j) ∨
      ∃ peer deed, Follows start p' (record.snoc peer deed) ∧ t.Carries t' me peer deed := by
  -- The three ways to end an action differ in what follows its reply.
  have hattempt : ∀ {a : ChannelAction} {reply : a.Reply},
      t.attempt me a = some (reply, t') →
      (∀ {before after : Record} {b : α}, Puts a reply before after → Leaves p' before b →
        Leaves p after b) →
      (Follows start p' record ∧ ∀ i j, t'.queue i j = t.queue i j) ∨
        ∃ peer deed, Follows start p' (record.snoc peer deed) ∧ t.Carries t' me peer deed := by
    intro a reply hsome hleaves
    rcases t.attempt_cases hsome with ⟨hputs, hqueue⟩ | ⟨deed, hputs, hcarries⟩
    · exact .inl ⟨fun rest b hrest => h rest b (hleaves (hputs rest) hrest), hqueue⟩
    · refine .inr ⟨a.peer, deed, ?_, hcarries⟩
      intro rest b hrest
      rw [← Record.append_push]
      exact h _ b (hleaves (hputs rest) hrest)
  cases hacts with
  | note entry next =>
    exact .inl ⟨fun rest b hrest => h rest b (.note hrest), fun _ _ => rfl⟩
  | perform hsome next => exact hattempt hsome fun hputs hrest => .perform hputs hrest
  | left hsome y next => exact hattempt hsome fun hputs hrest => .left hputs hrest
  | right hsome x next => exact hattempt hsome fun hputs hrest => .right hputs hrest

/-- A step of a program adds to its record, and the records still account for the traffic. -/
theorem Accounts.acts {start p p' : ChannelProgram α} {records : Nat → Record} {t t' : Traffic}
    {me : Nat} (h : Accounts records t) (hfollows : Follows start p (records me))
    (hacts : Acts me p t p' t') :
    ∃ record, Follows start p' record ∧ Accounts (Function.update records me record) t' := by
  rcases hfollows.acts hacts with ⟨hfollows', hqueue⟩ | ⟨peer, deed, hfollows', hcarries⟩
  · refine ⟨records me, hfollows', ?_⟩
    rw [Function.update_eq_self]
    exact h.congr hqueue
  · exact ⟨_, hfollows', h.snoc hcarries⟩

namespace Session

variable {α β γ : Type}

/-- The records of the three programs since the start account for the traffic. -/
structure Recorded (start s : Session α β γ) (records : Nat → Record) : Prop where
  first : Follows start.first s.first (records 0)
  second : Follows start.second s.second (records 1)
  third : Follows start.third s.third (records 2)
  accounts : Accounts records s.traffic

theorem Recorded.event {start s s' : Session α β γ} {records : Nat → Record}
    (h : Recorded start s records) (hevent : Event s s') :
    ∃ records', Recorded start s' records' := by
  rcases hevent with hstep | hlapse
  · cases hstep with
    | first hacts =>
      obtain ⟨record, hfollows, haccounts⟩ := h.accounts.acts h.first hacts
      refine ⟨Function.update records 0 record, ?_, h.second, h.third, haccounts⟩
      rw [Function.update_self]
      exact hfollows
    | second hacts =>
      obtain ⟨record, hfollows, haccounts⟩ := h.accounts.acts h.second hacts
      refine ⟨Function.update records 1 record, h.first, ?_, h.third, haccounts⟩
      rw [Function.update_self]
      exact hfollows
    | third hacts =>
      obtain ⟨record, hfollows, haccounts⟩ := h.accounts.acts h.third hacts
      refine ⟨Function.update records 2 record, h.first, h.second, ?_, haccounts⟩
      rw [Function.update_self]
      exact hfollows
  · cases hlapse with
    | first hfails => exact ⟨records, h.first.fails hfails, h.second, h.third, h.accounts⟩
    | second hfails => exact ⟨records, h.first, h.second.fails hfails, h.third, h.accounts⟩
    | third hfails => exact ⟨records, h.first, h.second, h.third.fails hfails, h.accounts⟩

/-- In every interleaving of steps and lapses the records account for the traffic. -/
theorem exists_records {a : ChannelProgram α} {b : ChannelProgram β} {c : ChannelProgram γ}
    {s : Session α β γ} (h : (start a b c).MayReach s) :
    ∃ records, Recorded (start a b c) s records := by
  induction h with
  | refl => exact ⟨fun _ => .empty, .refl a, .refl b, .refl c, fun _ _ => rfl⟩
  | tail _ hevent ih =>
    obtain ⟨records, hrecorded⟩ := ih
    exact hrecorded.event hevent

end Session

end PrivateLift
