import PrivateLift.Party.Run

/-!
# The calls of a party

A run of a party is described by its calls, that is, by its requests other than log entries together
with the answers. `Runs p calls a` says that the program `p` makes these calls in this order and
then ends with `a`; every answer that a collaborator can give is allowed. The lemmas below give the
calls of every primitive step and of the sequence of two steps, so that the calls of a longer step
are found by rewriting.
-/

namespace PrivateLift

variable {ε α β : Type}

/-- The request adds a log entry. -/
def PartyQuery.isNote : PartyQuery → Bool
  | note _ => true
  | _ => false

/-- A request to a collaborator with the answer to it. -/
abbrev Call (ε : Type) := (q : PartyQuery) × q.Reply ε

/-- The program makes the given calls and ends with a result. -/
inductive Runs : Program PartyQuery (PartyQuery.Reply ε) α → List (Call ε) → α → Prop where
  | done (a : α) : Runs (.done a) [] a
  | note {entry : LogEntry} {next : Unit → Program PartyQuery (PartyQuery.Reply ε) α}
      {calls : List (Call ε)} {a : α} (rest : Runs (next ()) calls a) :
      Runs (.ask (.note entry) next) calls a
  | call {q : PartyQuery} (hq : q.isNote = false)
      {next : q.Reply ε → Program PartyQuery (PartyQuery.Reply ε) α} (reply : q.Reply ε)
      {calls : List (Call ε)} {a : α} (rest : Runs (next reply) calls a) :
      Runs (.ask q next) (⟨q, reply⟩ :: calls) a

namespace Runs

theorem done_iff {a b : α} {calls : List (Call ε)} :
    Runs (.done b) calls a ↔ calls = [] ∧ a = b := by
  constructor
  · intro h
    cases h
    exact ⟨rfl, rfl⟩
  · rintro ⟨rfl, rfl⟩
    exact .done a

theorem note_iff {entry : LogEntry} {next : Unit → Program PartyQuery (PartyQuery.Reply ε) α}
    {calls : List (Call ε)} {a : α} :
    Runs (.ask (.note entry) next) calls a ↔ Runs (next ()) calls a := by
  constructor
  · intro h
    cases h with
    | note rest => exact rest
    | call hq => cases hq
  · exact .note

theorem call_iff {q : PartyQuery} (hq : q.isNote = false)
    {next : q.Reply ε → Program PartyQuery (PartyQuery.Reply ε) α} {calls : List (Call ε)} {a : α} :
    Runs (.ask q next) calls a ↔
      ∃ reply rest, calls = ⟨q, reply⟩ :: rest ∧ Runs (next reply) rest a := by
  constructor
  · intro h
    cases h with
    | note => cases hq
    | call _ reply rest => exact ⟨reply, _, rfl, rest⟩
  · rintro ⟨reply, rest, rfl, h⟩
    exact .call hq reply h

theorem bind_iff {p : Program PartyQuery (PartyQuery.Reply ε) α}
    {f : α → Program PartyQuery (PartyQuery.Reply ε) β} {calls : List (Call ε)} {b : β} :
    Runs (p >>= f) calls b ↔
      ∃ a first second, calls = first ++ second ∧ Runs p first a ∧ Runs (f a) second b := by
  induction p generalizing calls with
  | done a =>
    constructor
    · intro h
      exact ⟨a, [], calls, rfl, .done a, h⟩
    · rintro ⟨a', first, second, rfl, h, h'⟩
      obtain ⟨rfl, rfl⟩ := done_iff.1 h
      exact h'
  | ask q next ih =>
    rw [Program.ask_bind]
    cases hq : q.isNote with
    | true =>
      cases q with
      | note entry =>
        rw [note_iff, ih]
        constructor
        · rintro ⟨a, first, second, rfl, h, h'⟩
          exact ⟨a, first, second, rfl, .note h, h'⟩
        · rintro ⟨a, first, second, rfl, h, h'⟩
          exact ⟨a, first, second, rfl, note_iff.1 h, h'⟩
      | _ => cases hq
    | false =>
      rw [call_iff hq]
      constructor
      · rintro ⟨reply, rest, rfl, h⟩
        obtain ⟨a, first, second, rfl, h, h'⟩ := (ih reply).1 h
        exact ⟨a, ⟨q, reply⟩ :: first, second, rfl, .call hq reply h, h'⟩
      · rintro ⟨a, first, second, rfl, h, h'⟩
        obtain ⟨reply, rest, rfl, hrest⟩ := (call_iff hq).1 h
        exact ⟨reply, rest ++ second, rfl, (ih reply).2 ⟨a, rest, second, rfl, hrest, h'⟩⟩

end Runs

/-! ## Steps that can halt -/

/-- The step makes the given calls and ends with an outcome. -/
def PartyStep.Ends (x : PartyStep ε α) (calls : List (Call ε)) (o : Outcome (PartyError ε) α) :
    Prop :=
  Runs x.run calls o

namespace PartyStep

variable {calls : List (Call ε)}

theorem ends_pure {a : α} {o : Outcome (PartyError ε) α} :
    Ends (pure a) calls o ↔ calls = [] ∧ o = .ok a := Runs.done_iff

theorem ends_note_bind {entry : LogEntry} {f : Unit → PartyStep ε β}
    {o : Outcome (PartyError ε) β} : Ends (note entry >>= f) calls o ↔ Ends (f ()) calls o :=
  Runs.note_iff

theorem ends_ok_bind {a : α} {f : α → PartyStep ε β} {o : Outcome (PartyError ε) β} :
    Ends (ofOutcome (.ok a) >>= f) calls o ↔ Ends (f a) calls o := Iff.rfl

/-- A step goes on with the result of the first one or ends with its halt. -/
theorem ends_bind {x : PartyStep ε α} {f : α → PartyStep ε β} {o : Outcome (PartyError ε) β} :
    Ends (x >>= f) calls o ↔
      (∃ a first second, calls = first ++ second ∧ Ends x first (.ok a) ∧ Ends (f a) second o) ∨
        ∃ halt, o = .error halt ∧ Ends x calls (.error halt) := by
  constructor
  · intro h
    obtain ⟨a, first, second, rfl, hx, hf⟩ := Runs.bind_iff.1 h
    cases a with
    | ok a => exact .inl ⟨a, first, second, rfl, hx, hf⟩
    | error halt =>
      obtain ⟨rfl, rfl⟩ := Runs.done_iff.1 hf
      rw [List.append_nil]
      exact .inr ⟨halt, rfl, hx⟩
  · rintro (⟨a, first, second, rfl, hx, hf⟩ | ⟨halt, rfl, hx⟩)
    · exact Runs.bind_iff.2 ⟨.ok a, first, second, rfl, hx, hf⟩
    · have hstop : Runs (ExceptT.bindCont f (.error halt)) [] (.error halt) := Runs.done _
      exact Runs.bind_iff.2 ⟨.error halt, calls, [], (List.append_nil calls).symm, hx, hstop⟩

/-- Reporting adds log entries only. -/
theorem ends_reporting {x : PartyStep ε α} {o : Outcome (PartyError ε) α} :
    Ends (reporting x) calls o ↔ Ends x calls o := by
  have hreport : ∀ outcome : Outcome (PartyError ε) α,
      Runs (report outcome >>= fun _ => .done outcome) [] outcome := by
    intro outcome
    match outcome with
    | .ok a => exact .done _
    | .error (.fault f) => exact .done _
    | .error (.error e) => exact .note (.done _)
  constructor
  · intro h
    obtain ⟨outcome, first, second, rfl, h, h'⟩ := Runs.bind_iff.1 h
    have hend : second = [] ∧ o = outcome := by
      match outcome with
      | .ok a => exact Runs.done_iff.1 h'
      | .error (.fault f) => exact Runs.done_iff.1 h'
      | .error (.error e) => exact Runs.done_iff.1 (Runs.note_iff.1 h')
    obtain ⟨rfl, rfl⟩ := hend
    rwa [List.append_nil]
  · intro h
    exact Runs.bind_iff.2 ⟨o, calls, [], (List.append_nil calls).symm, h, hreport o⟩

/-- The step consists of one call, and a failure of the collaborator is its error. -/
def IsCall (x : PartyStep ε α) (call : Except ε α → Call ε) (wrap : ε → PartyError ε) : Prop :=
  ∀ calls o, Ends x calls o ↔ ∃ reply, calls = [call reply] ∧ o = Outcome.ofError wrap reply

theorem ends_ask {q : PartyQuery} (hq : q.isNote = false)
    {answer : q.Reply ε → Outcome (PartyError ε) α} {o : Outcome (PartyError ε) α} :
    Ends (ExceptT.mk (.ask q fun reply => .done (answer reply))) calls o ↔
      ∃ reply, calls = [⟨q, reply⟩] ∧ o = answer reply := by
  constructor
  · intro h
    obtain ⟨reply, rest, rfl, hdone⟩ := (Runs.call_iff hq).1 h
    obtain ⟨rfl, rfl⟩ := Runs.done_iff.1 hdone
    exact ⟨reply, rfl, rfl⟩
  · rintro ⟨reply, rfl, rfl⟩
    exact .call hq reply (.done _)

theorem isCall_adapt (union : IndexMap) :
    IsCall (ε := ε) (adapt union) (fun reply => ⟨.adapt union, reply⟩) .adapter :=
  fun _ _ => ends_ask rfl

theorem isCall_shareRowCount (owner : Role) (count : Option UInt32) :
    IsCall (ε := ε) (shareRowCount owner count) (fun reply => ⟨.shareRowCount owner count, reply⟩)
      (.dataProcessor (.rowCount owner)) :=
  fun _ _ => ends_ask rfl

theorem isCall_shareOwnRows (owner : Role) (rows : List Bytes) (size : Nat) :
    IsCall (ε := ε) (shareOwnRows owner rows size) (fun reply => ⟨.shareOwnRows rows size, reply⟩)
      (.dataProcessor (.rows owner)) :=
  fun _ _ => ends_ask rfl

theorem isCall_sharePeerRows (owner : Role) (count : UInt32) (map : IndexMap) (width : Nat) :
    IsCall (ε := ε) (sharePeerRows owner count map width)
      (fun reply => ⟨.sharePeerRows count map width, reply⟩) (.dataProcessor (.rows owner)) :=
  fun _ _ => ends_ask rfl

theorem IsCall.note_bind {x : PartyStep ε α} {call : Except ε α → Call ε}
    {wrap : ε → PartyError ε} (h : IsCall x call wrap) (entry : LogEntry) :
    IsCall (note entry >>= fun _ => x) call wrap :=
  fun calls o => ends_note_bind.trans (h calls o)

/-- A call whose failure ends the step. -/
theorem IsCall.bind_iff {x : PartyStep ε α} {call : Except ε α → Call ε}
    {wrap : ε → PartyError ε} (h : IsCall x call wrap) {f : α → PartyStep ε β}
    {o : Outcome (PartyError ε) β} :
    Ends (x >>= f) calls o ↔
      (∃ e, calls = [call (.error e)] ∧ o = .error (.error (wrap e))) ∨
        ∃ a rest, calls = call (.ok a) :: rest ∧ Ends (f a) rest o := by
  rw [ends_bind]
  constructor
  · rintro (⟨a, first, second, rfl, hx, hf⟩ | ⟨halt, rfl, hx⟩)
    · obtain ⟨reply, rfl, hreply⟩ := (h _ _).1 hx
      cases reply with
      | ok a' =>
        cases hreply
        exact .inr ⟨a, second, rfl, hf⟩
      | error e => cases hreply
    · obtain ⟨reply, rfl, hreply⟩ := (h _ _).1 hx
      cases reply with
      | ok a' => cases hreply
      | error e =>
        cases hreply
        exact .inl ⟨e, rfl, rfl⟩
  · rintro (⟨e, rfl, rfl⟩ | ⟨a, rest, rfl, hf⟩)
    · exact .inr ⟨.error (wrap e), rfl, (h _ _).2 ⟨.error e, rfl, rfl⟩⟩
    · exact .inl ⟨a, [call (.ok a)], rest, rfl, (h _ _).2 ⟨.ok a, rfl, rfl⟩, hf⟩

end PartyStep

end PrivateLift
