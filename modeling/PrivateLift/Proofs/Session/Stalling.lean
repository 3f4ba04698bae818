import PrivateLift.Proofs.Session.Client
import PrivateLift.Proofs.Session.Polling

/-!
# Sessions that stall

A program *stalls* if it settles its dues and then waits for a message from program 2 that nobody
sends (`Stalls`): what it would do with that message does not matter, so neither does the run of a
party that has lost its peer. In a session of two stalling programs the third one can always go on
until it has settled its own dues, and an error with which it ends is the end of the run
(`Session.Stalled.poll`). If the second program has failed to begin with, the first one is polled
until it waits, and then the failure ends the run (`Session.poll_failed_second`). No lapse happens
on the way: a failed program ends the run before anybody has waited too long.
-/

namespace PrivateLift

namespace Dues

/-- Some dues, then others. -/
def append (dues later : Dues) : Dues := fun peer => dues peer ++ later peer

theorem update_append (dues later : Dues) (peer : Nat) (own : List Due) :
    Function.update (append dues later) peer (own ++ later peer) =
      append (Function.update dues peer own) later := by
  funext other
  by_cases h : other = peer
  · subst h
    rw [Function.update_self, append, Function.update_self]
  · rw [Function.update_of_ne h, append, append, Function.update_of_ne h]

theorem append_only (peer : Nat) (own later : List Due) :
    append (only peer own) (only peer later) = only peer (own ++ later) := by
  funext other
  by_cases h : other = peer
  · subst h
    rw [append, only_self, only_self, only_self]
  · rw [append, only_of_ne h, only_of_ne h, only_of_ne h]
    rfl

end Dues

/-- The program settles the dues and then waits for a message from program 2. -/
def Stalls {α : Type} (p : ChannelProgram α) (dues : Dues) : Prop :=
  ∃ m later a, Serves p (dues.append (.only 2 (.receive m :: later))) a

variable {α : Type} {p p' : ChannelProgram α} {dues : Nat → Dues}
  {flight : Nat → Nat → List Message} {t t' : Traffic} {i j : Nat}

/-- The first due of a stalling program is settled, or the program waits for program 2, from which
nothing is on the way. -/
theorem Balanced.attempt_stalled (h : Balanced dues flight t) (hi : i < 2) {m : Message}
    {rest later : List Due} {due : Due}
    (hdue : (dues i).append (.only 2 (.receive m :: rest)) j = due :: later) :
    (∃ own t' flight', later = own ++ Dues.only 2 (.receive m :: rest) j ∧
        t.attempt i (due.action j) = some (.ok (due.result j), t') ∧
        Balanced (assign dues i j own) flight' t') ∨
      j = 2 ∧ flight 2 i = [] ∧ (∀ m' later', dues i 2 ≠ .send m' :: later') ∧
        t.attempt i (due.action j) = none := by
  rw [Dues.append] at hdue
  cases hown : dues i j with
  | cons first own =>
    rw [hown, List.cons_append, List.cons.injEq] at hdue
    obtain ⟨rfl, rfl⟩ := hdue
    rcases h.attempt hown with ⟨t', flight', hsome, hbalanced⟩ | ⟨⟨m', rfl⟩, hempty, hnone⟩
    · exact .inl ⟨own, t', flight', rfl, hsome, hbalanced⟩
    · obtain rfl : j = 2 := by
        have := h.star i j (by rw [hown]; exact List.cons_ne_nil _ _)
        omega
      refine .inr ⟨rfl, hempty, ?_, hnone⟩
      rw [hown]
      intro m later heq
      cases heq
  | nil =>
    obtain rfl : j = 2 := by
      by_contra hne
      rw [hown, Dues.only_of_ne hne] at hdue
      cases hdue
    rw [hown, List.nil_append, Dues.only_self] at hdue
    cases hdue
    have hempty : flight 2 i = [] := by
      have hmatches := h.matching i 2
      rw [hown] at hmatches
      exact hmatches.nil_left.1
    have hconnected : t.world.network.Connected i 2 := by
      rw [Network.Connected, h.parties_eq]
      omega
    have hleft : 2 ∉ t.world.network.left := by
      rw [h.left_eq]
      exact List.not_mem_nil
    have hqueue : t.queue 2 i = [] := by
      rw [h.queue_eq, hempty]
      rfl
    refine .inr ⟨rfl, hempty, ?_, Traffic.attempt_receive_none hconnected hleft hqueue m.1⟩
    rw [hown]
    intro m' later' heq
    cases heq

namespace Stalls

theorem not_done {mine : Dues} {a : α} : ¬Stalls (.done a) mine := by
  rintro ⟨m, later, b, hserves⟩
  cases hserves with
  | done _ hnil =>
    have hnil := hnil 2
    rw [Dues.append, Dues.only_self] at hnil
    exact absurd hnil (by simp)

/-- What is made of a program's result does not matter while it waits. -/
theorem map {β : Type} {mine : Dues} (h : Stalls p mine) (f : α → β) :
    Stalls (do return f (← p)) mine := by
  obtain ⟨m, later, a, hserves⟩ := h
  exact ⟨m, later, f a, hserves.bind rfl⟩

/-- Whatever a stalling program does next, it settles one of its dues. -/
theorem acts (h : Stalls p (dues i)) (hb : Balanced dues flight t) (hi : i < 2)
    (hact : Acts i p t p' t') :
    ∃ mine flight', Stalls p' mine ∧ Balanced (Function.update dues i mine) flight' t' := by
  obtain ⟨m, rest, a, hserves⟩ := h
  generalize hall : (dues i).append (.only 2 (.receive m :: rest)) = all at hserves
  -- An action that has been performed settled the first of the dues.
  have settled : ∀ {k : Nat} {due : Due} {later : List Due} {reply : (due.action k).Reply}
      {t' : Traffic} {q : ChannelProgram α}, all k = due :: later →
      t.attempt i (due.action k) = some (reply, t') →
      (reply = .ok (due.result k) → Serves q (Function.update all k later) a) →
        ∃ mine flight', Stalls q mine ∧ Balanced (Function.update dues i mine) flight' t' := by
    intro k due later reply t' q hdue hattempt hrest
    subst hall
    rcases hb.attempt_stalled hi hdue with
      ⟨own, t'', flight', rfl, hsome, hbalanced⟩ | ⟨-, -, -, hnone⟩
    · rw [hsome] at hattempt
      cases hattempt
      refine ⟨Function.update (dues i) k own, flight', ⟨m, rest, a, ?_⟩, hbalanced⟩
      rw [← Dues.update_append]
      exact hrest rfl
    · rw [hnone] at hattempt
      cases hattempt
  cases hserves with
  | done a _ => cases hact
  | note hrest =>
    cases hact with
    | note =>
      subst hall
      refine ⟨dues i, flight, ⟨m, rest, a, hrest⟩, ?_⟩
      rw [Function.update_eq_self]
      exact hb.note _
  | perform due hdue _ hrest =>
    cases hact with
    | perform hattempt next => exact settled hdue hattempt fun heq => heq ▸ hrest
  | either _ hk hl _ left right =>
    cases hact with
    | left hattempt _ next => exact settled hk hattempt fun heq => heq ▸ left
    | right hattempt _ next => exact settled hl hattempt fun heq => heq ▸ right

/-- A stalling program that cannot go on waits for program 2, to which it has sent all it has to. -/
theorem progress (h : Stalls p (dues i)) (hb : Balanced dues flight t) (hi : i < 2) :
    (∃ p' t', Acts i p t p' t') ∨
      flight 2 i = [] ∧ ∀ m later, dues i 2 ≠ .send m :: later := by
  obtain ⟨m, rest, a, hserves⟩ := h
  generalize hall : (dues i).append (.only 2 (.receive m :: rest)) = all at hserves
  cases hserves with
  | done a hnil =>
    subst hall
    exact absurd ⟨m, rest, a, .done a hnil⟩ not_done
  | @note entry next => exact .inl ⟨_, _, .note entry next t⟩
  | @perform peer due later _ _ hdue _ next =>
    rcases hb.attempt_stalled hi (hall ▸ hdue) with
      ⟨-, t', -, -, hsome, -⟩ | ⟨-, hempty, hsend, -⟩
    · exact .inl ⟨_, t', .perform hsome next⟩
    · exact .inr ⟨hempty, hsend⟩
  | @either k l _ due due' later later' _ _ hk hl _ next =>
    rcases hb.attempt_stalled hi (hall ▸ hk) with
      ⟨-, t', -, -, hsome, -⟩ | ⟨-, hempty, hsend, -⟩
    · exact .inl ⟨_, t', .left hsome _ next⟩
    · exact .inr ⟨hempty, hsend⟩

end Stalls

namespace Session

variable {β γ : Type}

/-- The first two programs stall, and the third one settles its dues and ends with `c`. -/
structure Stalled (s : Session α β γ) (dues : Nat → Dues)
    (flight : (sender receiver : Nat) → List Message) (c : γ) : Prop where
  first : Stalls s.first (dues 0)
  second : Stalls s.second (dues 1)
  third : Serves s.third (dues 2) c
  balanced : Balanced dues flight s.traffic

namespace Stalled

variable {s s' : Session α β γ} {c : γ}

theorem step (h : s.Stalled dues flight c) (hstep : Step s s') :
    ∃ dues' flight', s'.Stalled dues' flight' c := by
  cases hstep with
  | first hact =>
    obtain ⟨mine, flight', hstalls, hbalanced⟩ := h.first.acts h.balanced (by decide) hact
    refine ⟨Function.update dues 0 mine, flight', ?_, h.second, h.third, hbalanced⟩
    rw [Function.update_self]
    exact hstalls
  | second hact =>
    obtain ⟨mine, flight', hstalls, hbalanced⟩ := h.second.acts h.balanced (by decide) hact
    refine ⟨Function.update dues 1 mine, flight', h.first, ?_, h.third, hbalanced⟩
    rw [Function.update_self]
    exact hstalls
  | third hact =>
    obtain ⟨mine, flight', hserves, hbalanced⟩ := h.third.acts h.balanced hact
    refine ⟨Function.update dues 2 mine, flight', h.first, h.second, ?_, hbalanced⟩
    rw [Function.update_self]
    exact hserves

/-- If the third program waits for a stalling one, then that one can go on. -/
theorem party_acts {δ : Type} {p : ChannelProgram δ} (hb : Balanced dues flight t) (hi : i < 2)
    (h : Stalls p (dues i)) {m : Message} {later : List Due}
    (hdue : dues 2 i = .receive m :: later) (hempty : flight i 2 = []) :
    ∃ p' t', Acts i p t p' t' := by
  obtain ⟨rest, hrest⟩ := hb.due_of_waiting hdue hempty
  rcases h.progress hb hi with hacts | ⟨hnone, hsend⟩
  · exact hacts
  · rw [hnone] at hrest
    exact absurd hrest (hsend m rest)

/-- Some program can go on until the third one has ended. -/
theorem progress (h : s.Stalled dues flight c) : (∃ s', Step s s') ∨ s.third = .done c := by
  have hb := h.balanced
  rcases h.third.progress hb with ⟨p', t', hacts⟩ | ⟨hthird, -⟩ | ⟨j, m, later, hdue, hempty⟩
  · exact .inl ⟨_, .third hacts⟩
  · exact .inr hthird
  · have hj : j = 0 ∨ j = 1 := by
      have := hb.star 2 j (by rw [hdue]; exact List.cons_ne_nil _ _)
      omega
    rcases hj with rfl | rfl
    · obtain ⟨p', t', hacts⟩ := party_acts hb (by decide) h.first hdue hempty
      exact .inl ⟨_, .first hacts⟩
    · obtain ⟨p', t', hacts⟩ := party_acts hb (by decide) h.second hdue hempty
      exact .inl ⟨_, .second hacts⟩

end Stalled

variable {ε : Type}

/-- A run in which two programs stall ends with the error of the third one. -/
theorem Stalled.poll {s : Session (Except ε α) (Except ε β) (Except ε γ)} {e : ε}
    (h : s.Stalled dues flight (.error e)) (turn : Schedule.Turn) :
    ∃ w, s.poll turn = (.error e, w) := by
  induction s using wellFounded_event.induction generalizing dues flight turn with
  | _ s ih =>
    cases s.polls turn with
    | step hstep heq =>
      obtain ⟨dues', flight', h'⟩ := h.step hstep
      rw [heq]
      exact ih _ (.inl hstep) h' _
    | lapse _ stuck running _ =>
      rcases h.progress with ⟨s', hstep⟩ | hthird
      · exact absurd hstep (stuck s')
      · exact absurd (.inr (.inr hthird)) (running e)
    | failed hfailed heq =>
      obtain ⟨a, b, c, t⟩ := s
      rcases hfailed with rfl | rfl | rfl
      · exact absurd h.first Stalls.not_done
      · exact absurd h.second Stalls.not_done
      · cases h.third.done_inv
        exact ⟨_, heq⟩
    | ended hended _ =>
      obtain ⟨a, b, c, t⟩ := s
      obtain ⟨rfl, -, -⟩ := hended
      exact absurd h.first Stalls.not_done

/-- A run whose first program has failed ends at once. -/
theorem poll_failed_first (e : ε) (b : ChannelProgram (Except ε β))
    (c : ChannelProgram (Except ε γ)) (t : Traffic) :
    (⟨.done (.error e), b, c, t⟩ : Session (Except ε α) _ _).poll .first = (.error e, t.world) :=
  Schedule.poll_eq ..

/-- A run whose second program has failed ends with its error when the first one has to wait. -/
theorem poll_failed_second {a : ChannelProgram (Except ε α)} (h : Stalls a (dues 0))
    (hb : Balanced dues flight t) (e : ε) (c : ChannelProgram (Except ε γ)) :
    ∃ w, (⟨a, .done (.error e), c, t⟩ : Session _ (Except ε β) _).poll .first = (.error e, w) := by
  induction a using Program.wellFounded_next.induction generalizing dues flight t with
  | _ a ih =>
    have hpoll := Schedule.poll_eq a (.done (.error e) : ChannelProgram (Except ε β)) c .first
      t.world
    cases hfirst : Schedule.attempt 0 (a.status fun a => Schedule.poll a
        (.done (.error e) : ChannelProgram (Except ε β)) c .first) t.world with
    | some followed =>
      have hround := hpoll.trans (by rw [Schedule.round, hfirst]; rfl : _ = followed)
      rcases Schedule.attempt_eq_some hfirst with ⟨a', t', hacts, rfl⟩ | ⟨e', rfl, -⟩
      · obtain ⟨mine, flight', hstalls, hbalanced⟩ := h.acts hb (by decide) hacts
        obtain ⟨w, hw⟩ := ih a' hacts.next (t := t') (by rwa [Function.update_self]) hbalanced
        exact ⟨w, hround.trans hw⟩
      · exact absurd h Stalls.not_done
    | none => exact ⟨t.world, hpoll.trans (by rw [Schedule.round, hfirst]; rfl)⟩

end Session

end PrivateLift
