import PrivateLift.Proofs.Session.Settling
import PrivateLift.Simulation.Schedule

/-!
# Polling goes through an interleaving

Whatever a polled program does is one of its steps, and if no poll goes on then no program has a
step. So a run that polls the programs is one of the interleavings: it ends in a state that steps
and lapses can lead to (`Schedule.poll_mayReach`), and without any lapse if the programs settle
balanced dues (`Session.Settles.poll`).
-/

namespace PrivateLift

namespace Schedule

variable {ε α β γ δ : Type} {me : Nat} {p : ChannelProgram (Except ε α)}
  {resume : ChannelProgram (Except ε α) → World → Except ε β × World} {t : Traffic}
  {followed : Except ε β × World}

/-- The answer that the network gives to a request moves the program on. -/
theorem acts_of_answer {q : ChannelQuery} (next : q.Reply → ChannelProgram α) {reply : q.Reply}
    {w : World} (h : t.world.answer me q = some (reply, w)) :
    ∃ t', Acts me (.ask q next) t (next reply) t' ∧ t'.world = w := by
  cases q with
  | note entry =>
    cases h
    exact ⟨_, .note entry next t, rfl⟩
  | perform a => exact ⟨_, .perform (Traffic.attempt_of_world h) next, rfl⟩
  | either a b =>
    rw [World.answer] at h
    split at h
    next hleft =>
      cases h
      exact ⟨_, .left (Traffic.attempt_of_world hleft) b next, rfl⟩
    next =>
      obtain ⟨⟨reply', w'⟩, hright, heq⟩ := Option.map_eq_some_iff.1 h
      cases heq
      exact ⟨_, .right (Traffic.attempt_of_world hright) a next, rfl⟩

theorem not_acts_of_answer {q : ChannelQuery} {next : q.Reply → ChannelProgram α}
    {p' : ChannelProgram α} {t' : Traffic} (h : t.world.answer me q = none) :
    ¬Acts me (.ask q next) t p' t' := by
  intro hacts
  cases hacts with
  | note => cases h
  | perform hattempt =>
    obtain ⟨_, hsome, -⟩ := Option.map_eq_some_iff.1 hattempt
    rw [World.answer, hsome] at h
    cases h
  | left hattempt =>
    obtain ⟨_, hsome, -⟩ := Option.map_eq_some_iff.1 hattempt
    rw [World.answer, hsome] at h
    cases h
  | right hattempt =>
    obtain ⟨_, hsome, -⟩ := Option.map_eq_some_iff.1 hattempt
    rw [World.answer, hsome] at h
    split at h <;> cases h

/-- What follows a poll: the program has gone on or has failed. -/
theorem attempt_eq_some (h : attempt me (p.status resume) t.world = some followed) :
    (∃ p' t', Acts me p t p' t' ∧ followed = resume p' t'.world) ∨
      ∃ e, p = .done (.error e) ∧ followed = (.error e, t.world) := by
  cases p with
  | done outcome =>
    cases outcome with
    | error e =>
      cases h
      exact .inr ⟨e, rfl, rfl⟩
    | ok x => cases h
  | ask q next =>
    obtain ⟨⟨reply, w⟩, hanswer, rfl⟩ := Option.map_eq_some_iff.1 h
    obtain ⟨t', hacts, rfl⟩ := acts_of_answer next hanswer
    exact .inl ⟨_, t', hacts, rfl⟩

/-- A program that is polled in vain has ended well or waits. -/
theorem attempt_eq_none (h : attempt me (p.status resume) t.world = none) :
    (∃ x, p = .done (.ok x)) ∨
      ∃ q next, p = .ask q next ∧ t.world.answer me q = none := by
  cases p with
  | done outcome =>
    cases outcome with
    | error e => cases h
    | ok x => exact .inl ⟨x, rfl⟩
  | ask q next => exact .inr ⟨q, next, rfl, Option.map_eq_none_iff.1 h⟩

/-- A poll in vain: the program has no step. -/
theorem not_acts_of_attempt {p' : ChannelProgram (Except ε α)} {t' : Traffic}
    (h : attempt me (p.status resume) t.world = none) : ¬Acts me p t p' t' := by
  rcases attempt_eq_none h with ⟨x, rfl⟩ | ⟨q, next, rfl, hanswer⟩
  · intro hacts
    cases hacts
  · exact not_acts_of_answer hanswer

theorem fails_expired {q : ChannelQuery} {next : q.Reply → ChannelProgram α}
    (h : t.world.answer me q = none) : Fails (.ask q next) (next q.expired) := by
  cases q with
  | note => cases h
  | perform a => exact .perform a a.expired next
  | either a b => exact .left a b a.expired next

/-- A round goes on with one of the programs, or all three are polled in vain. -/
theorem round_cases (turn : Turn) (a : Status (Except ε α) (End ε α β γ))
    (b : Status (Except ε β) (End ε α β γ)) (c : Status (Except ε γ) (End ε α β γ)) (w : World) :
    attempt 0 a w = some (round turn a b c w) ∨ attempt 1 b w = some (round turn a b c w) ∨
      attempt 2 c w = some (round turn a b c w) ∨
      attempt 0 a w = none ∧ attempt 1 b w = none ∧ attempt 2 c w = none ∧
        round turn a b c w = expire a b c w := by
  cases ha : attempt 0 a w <;> cases hb : attempt 1 b w <;> cases hc : attempt 2 c w <;>
    cases turn <;> simp [round, ha, hb, hc]

end Schedule

namespace Session

variable {ε α β γ : Type}

/-- Polls the programs of a session. -/
def poll (s : Session (Except ε α) (Except ε β) (Except ε γ)) (turn : Schedule.Turn) :
    Schedule.End ε α β γ :=
  Schedule.poll s.first s.second s.third turn s.traffic.world

/-- One of the programs has ended with the error. -/
def FailedWith (s : Session (Except ε α) (Except ε β) (Except ε γ)) (e : ε) : Prop :=
  s.first = .done (.error e) ∨ s.second = .done (.error e) ∨ s.third = .done (.error e)

/-- All programs have ended with these results. -/
def EndedWith (s : Session (Except ε α) (Except ε β) (Except ε γ)) (x : α) (y : β) (z : γ) : Prop :=
  s.first = .done (.ok x) ∧ s.second = .done (.ok y) ∧ s.third = .done (.ok z)

/-- A run goes on with a step if there is one and else with a lapse, until all programs have ended
or one has failed. A program that has failed ends the run before any lapse. -/
inductive Polls (s : Session (Except ε α) (Except ε β) (Except ε γ)) (turn : Schedule.Turn) :
    Prop where
  | step {s' : Session (Except ε α) (Except ε β) (Except ε γ)} {turn' : Schedule.Turn}
      (h : Step s s') (heq : s.poll turn = s'.poll turn')
  | lapse {s' : Session (Except ε α) (Except ε β) (Except ε γ)} {turn' : Schedule.Turn}
      (h : Lapse s s') (stuck : ∀ s', ¬Step s s') (running : ∀ e, ¬s.FailedWith e)
      (heq : s.poll turn = s'.poll turn')
  | failed {e : ε} (h : s.FailedWith e) (heq : s.poll turn = (.error e, s.traffic.world))
  | ended {x : α} {y : β} {z : γ} (h : s.EndedWith x y z)
      (heq : s.poll turn = (.ok (x, y, z), s.traffic.world))

theorem polls (s : Session (Except ε α) (Except ε β) (Except ε γ)) (turn : Schedule.Turn) :
    s.Polls turn := by
  obtain ⟨a, b, c, t⟩ := s
  have hpoll := Schedule.poll_eq a b c turn t.world
  rcases Schedule.round_cases turn (a.status fun a => Schedule.poll a b c .first)
      (b.status fun b => Schedule.poll a b c .second)
      (c.status fun c => Schedule.poll a b c .third) t.world with
    hround | hround | hround | ⟨ha, hb, hc, hround⟩
  · rcases Schedule.attempt_eq_some hround with ⟨a', t', hacts, heq⟩ | ⟨e, rfl, heq⟩
    · exact .step (.first hacts) (hpoll.trans heq)
    · exact .failed (.inl rfl) (hpoll.trans heq)
  · rcases Schedule.attempt_eq_some hround with ⟨b', t', hacts, heq⟩ | ⟨e, rfl, heq⟩
    · exact .step (.second hacts) (hpoll.trans heq)
    · exact .failed (.inr (.inl rfl)) (hpoll.trans heq)
  · rcases Schedule.attempt_eq_some hround with ⟨c', t', hacts, heq⟩ | ⟨e, rfl, heq⟩
    · exact .step (.third hacts) (hpoll.trans heq)
    · exact .failed (.inr (.inr rfl)) (hpoll.trans heq)
  · have stuck : ∀ s', ¬Step ⟨a, b, c, t⟩ s' := by
      intro s' hstep
      cases hstep with
      | first hacts => exact Schedule.not_acts_of_attempt ha hacts
      | second hacts => exact Schedule.not_acts_of_attempt hb hacts
      | third hacts => exact Schedule.not_acts_of_attempt hc hacts
    have running : ∀ e, ¬FailedWith ⟨a, b, c, t⟩ e := by
      rintro e (rfl | rfl | rfl)
      · cases ha
      · cases hb
      · cases hc
    rw [hround] at hpoll
    rcases Schedule.attempt_eq_none ha with ⟨x, rfl⟩ | ⟨q, next, rfl, hq⟩
    · rcases Schedule.attempt_eq_none hb with ⟨y, rfl⟩ | ⟨q, next, rfl, hq⟩
      · rcases Schedule.attempt_eq_none hc with ⟨z, rfl⟩ | ⟨q, next, rfl, hq⟩
        · exact .ended ⟨rfl, rfl, rfl⟩ hpoll
        · exact .lapse (.third (Schedule.fails_expired hq)) stuck running hpoll
      · exact .lapse (.second (Schedule.fails_expired hq)) stuck running hpoll
    · exact .lapse (.first (Schedule.fails_expired hq)) stuck running hpoll

/-- A run ends in a state that steps and lapses lead to, and tells how the programs ended there. -/
theorem poll_mayReach (s : Session (Except ε α) (Except ε β) (Except ε γ)) (turn : Schedule.Turn) :
    ∃ s', s.MayReach s' ∧ ((∃ e, s'.FailedWith e ∧ s.poll turn = (.error e, s'.traffic.world)) ∨
      ∃ x y z, s'.EndedWith x y z ∧ s.poll turn = (.ok (x, y, z), s'.traffic.world)) := by
  induction s using wellFounded_event.induction generalizing turn with
  | _ s ih =>
    cases s.polls turn with
    | step hstep heq =>
      obtain ⟨s', hreach, hend⟩ := ih _ (.inl hstep) _
      rw [heq]
      exact ⟨s', hreach.head (.inl hstep), hend⟩
    | lapse hlapse _ _ heq =>
      obtain ⟨s', hreach, hend⟩ := ih _ (.inr hlapse) _
      rw [heq]
      exact ⟨s', hreach.head (.inr hlapse), hend⟩
    | failed hfailed heq => exact ⟨s, .refl, .inl ⟨_, hfailed, heq⟩⟩
    | ended hended heq => exact ⟨s, .refl, .inr ⟨_, _, _, hended, heq⟩⟩

/-- Polling programs that settle their dues gives the results of all three. -/
theorem Settles.poll {s : Session (Except ε α) (Except ε β) (Except ε γ)} {dues : Nat → Dues}
    {flight : Nat → Nat → List Message} {x : α} {y : β} {z : γ}
    (h : s.Settles dues flight (.ok x) (.ok y) (.ok z)) (turn : Schedule.Turn) :
    ∃ w, s.poll turn = (.ok (x, y, z), w) := by
  induction s using wellFounded_event.induction generalizing dues flight turn with
  | _ s ih =>
    cases s.polls turn with
    | step hstep heq =>
      obtain ⟨dues', flight', h'⟩ := h.step hstep
      rw [heq]
      exact ih _ (.inl hstep) h' _
    | lapse hlapse stuck _ _ =>
      obtain ⟨a, b, c, t⟩ := s
      rcases h.progress with ⟨s', hstep⟩ | ⟨rfl, rfl, rfl, -⟩
      · exact absurd hstep (stuck s')
      · cases hlapse with
        | first hfails => cases hfails
        | second hfails => cases hfails
        | third hfails => cases hfails
    | failed hfailed _ =>
      obtain ⟨a, b, c, t⟩ := s
      rcases hfailed with rfl | rfl | rfl
      · cases h.first
      · cases h.second
      · cases h.third
    | ended hended heq =>
      obtain ⟨a, b, c, t⟩ := s
      obtain ⟨rfl, rfl, rfl⟩ := hended
      cases h.first
      cases h.second
      cases h.third
      exact ⟨_, heq⟩

end Session

end PrivateLift
