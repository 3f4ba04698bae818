import PrivateLift.Proofs.Session.Balance

/-!
# Sessions that settle their dues

`Session.Settles` is the invariant of a session of three programs whose dues are balanced. Every
step keeps it (`Session.Settles.step`), and as long as the programs have not all ended some step is
possible (`Session.Settles.progress`): if the third program has to wait for one of the others, then
that one is about to send or to receive what is already on the way to it. What the programs return
is part of the invariant, so it does not depend on the interleaving.
-/

namespace PrivateLift

/-! ## One program among balanced ones -/

namespace Serves

variable {α : Type} {p p' : ChannelProgram α} {dues : Nat → Dues} {a : α}
  {flight : Nat → Nat → List Message} {t t' : Traffic} {i : Nat}

/-- Whatever a program does next, it settles one of its dues. -/
theorem acts (h : Serves p (dues i) a) (hb : Balanced dues flight t) (hact : Acts i p t p' t') :
    ∃ mine flight', Serves p' mine a ∧ Balanced (Function.update dues i mine) flight' t' := by
  cases h with
  | done a _ => cases hact
  | note rest =>
    cases hact with
    | note =>
      refine ⟨dues i, flight, rest, ?_⟩
      rw [Function.update_eq_self]
      exact hb.note _
  | @perform peer due later _ _ hdue _ next rest =>
    cases hact with
    | perform hattempt next =>
      rcases hb.attempt hdue with ⟨t'', flight', hsome, hbalanced⟩ | ⟨-, -, hnone⟩
      · rw [hsome] at hattempt
        cases hattempt
        exact ⟨_, flight', rest, hbalanced⟩
      · rw [hnone] at hattempt
        cases hattempt
  | @either k l _ due due' later later' _ _ hk hl _ next left right =>
    cases hact with
    | left hattempt _ next =>
      rcases hb.attempt hk with ⟨t'', flight', hsome, hbalanced⟩ | ⟨-, -, hnone⟩
      · rw [hsome] at hattempt
        cases hattempt
        exact ⟨_, flight', left, hbalanced⟩
      · rw [hnone] at hattempt
        cases hattempt
    | right hattempt _ next =>
      rcases hb.attempt hl with ⟨t'', flight', hsome, hbalanced⟩ | ⟨-, -, hnone⟩
      · rw [hsome] at hattempt
        cases hattempt
        exact ⟨_, flight', right, hbalanced⟩
      · rw [hnone] at hattempt
        cases hattempt

/-- A program that cannot go on has ended or waits for a message that has not been sent. -/
theorem progress (h : Serves p (dues i) a) (hb : Balanced dues flight t) :
    (∃ p' t', Acts i p t p' t') ∨ (p = .done a ∧ ∀ j, dues i j = []) ∨
      ∃ j m later, dues i j = .receive m :: later ∧ flight j i = [] := by
  cases h with
  | done a hnil => exact .inr (.inl ⟨rfl, hnil⟩)
  | @note entry next => exact .inl ⟨_, _, .note entry next t⟩
  | @perform peer due later _ _ hdue _ next =>
    rcases hb.attempt hdue with ⟨t', _, hsome, -⟩ | ⟨⟨m, rfl⟩, hempty, -⟩
    · exact .inl ⟨_, t', .perform hsome next⟩
    · exact .inr (.inr ⟨peer, m, later, hdue, hempty⟩)
  | @either k l _ due due' later later' _ _ hk hl _ next =>
    rcases hb.attempt hk with ⟨t', _, hsome, -⟩ | ⟨⟨m, rfl⟩, hempty, -⟩
    · exact .inl ⟨_, t', .left hsome _ next⟩
    · exact .inr (.inr ⟨k, m, later, hk, hempty⟩)

end Serves

namespace Balanced

variable {dues : Nat → Dues} {flight : Nat → Nat → List Message} {t : Traffic} {i j : Nat}
  {m : Message} {rest : List Message}

theorem due_of_flight (h : Balanced dues flight t) (hflight : flight i j = m :: rest) :
    ∃ later, dues j i = .receive m :: later := by
  obtain ⟨common, hown, -⟩ := h.matching j i
  rw [hflight] at hown
  exact ⟨_, hown⟩

/-- A program with nothing to receive yet waits for a peer that is to send. -/
theorem due_of_waiting (h : Balanced dues flight t) {later : List Due}
    (hdue : dues i j = .receive m :: later) (hempty : flight j i = []) :
    ∃ rest, dues j i = (flight i j).map .receive ++ .send m :: rest := by
  have hmatches := h.matching i j
  rw [hdue, hempty] at hmatches
  exact hmatches.receive_nil

theorem flight_eq_nil (h : Balanced dues flight t) (hnil : ∀ i j, dues i j = []) (i j : Nat) :
    flight i j = [] := by
  have hmatches := h.matching j i
  rw [hnil j i] at hmatches
  exact hmatches.nil_left.1

end Balanced

/-! ## Three programs -/

namespace Session

variable {α β γ : Type}

/-- The programs of the session settle their dues, which are balanced, and return `a`, `b` and
`c`. -/
structure Settles (s : Session α β γ) (dues : Nat → Dues)
    (flight : (sender receiver : Nat) → List Message) (a : α) (b : β) (c : γ) : Prop where
  first : Serves s.first (dues 0) a
  second : Serves s.second (dues 1) b
  third : Serves s.third (dues 2) c
  balanced : Balanced dues flight s.traffic

namespace Settles

variable {s s' : Session α β γ} {dues : Nat → Dues} {flight : Nat → Nat → List Message} {a : α}
  {b : β} {c : γ}

theorem step (h : s.Settles dues flight a b c) (hstep : Step s s') :
    ∃ dues' flight', s'.Settles dues' flight' a b c := by
  cases hstep with
  | first hact =>
    obtain ⟨mine, flight', hserves, hbalanced⟩ := h.first.acts h.balanced hact
    refine ⟨Function.update dues 0 mine, flight', ?_, h.second, h.third, hbalanced⟩
    rw [Function.update_self]
    exact hserves
  | second hact =>
    obtain ⟨mine, flight', hserves, hbalanced⟩ := h.second.acts h.balanced hact
    refine ⟨Function.update dues 1 mine, flight', h.first, ?_, h.third, hbalanced⟩
    rw [Function.update_self]
    exact hserves
  | third hact =>
    obtain ⟨mine, flight', hserves, hbalanced⟩ := h.third.acts h.balanced hact
    refine ⟨Function.update dues 2 mine, flight', h.first, h.second, ?_, hbalanced⟩
    rw [Function.update_self]
    exact hserves

theorem reaches (h : s.Settles dues flight a b c) (hreaches : s.Reaches s') :
    ∃ dues' flight', s'.Settles dues' flight' a b c := by
  induction hreaches with
  | refl => exact ⟨dues, flight, h⟩
  | tail _ hstep ih =>
    obtain ⟨dues', flight', h'⟩ := ih
    exact h'.step hstep

/-- A party that waits for the third program does so in vain only if that program is to send. -/
theorem party_progress {δ : Type} {p : ChannelProgram δ} {d : δ} {i : Nat} {t : Traffic}
    (hb : Balanced dues flight t) (hi : i < 2) (h : Serves p (dues i) d) :
    (∃ p' t', Acts i p t p' t') ∨ (p = .done d ∧ ∀ j, dues i j = []) ∨
      ∃ m later rest, dues i 2 = .receive m :: later ∧
        dues 2 i = (flight i 2).map .receive ++ .send m :: rest := by
  rcases h.progress hb with hacts | hdone | ⟨j, m, later, hdue, hempty⟩
  · exact .inl hacts
  · exact .inr (.inl hdone)
  · have hne : dues i j ≠ [] := by
      rw [hdue]
      exact List.cons_ne_nil _ _
    obtain rfl : j = 2 := by
      have := hb.star i j hne
      omega
    obtain ⟨rest, hrest⟩ := hb.due_of_waiting hdue hempty
    exact .inr (.inr ⟨m, later, rest, hdue, hrest⟩)

/-- If the third program waits for a party, then the party can go on. -/
theorem party_acts {δ : Type} {p : ChannelProgram δ} {d : δ} {i : Nat} {t : Traffic} {m : Message}
    {later : List Due} (hb : Balanced dues flight t) (hi : i < 2) (h : Serves p (dues i) d)
    (hdue : dues 2 i = .receive m :: later) (hempty : flight i 2 = []) :
    ∃ p' t', Acts i p t p' t' := by
  obtain ⟨rest, hrest⟩ := hb.due_of_waiting hdue hempty
  rcases party_progress hb hi h with hacts | ⟨-, hnil⟩ | ⟨m', later', rest', -, hsend⟩
  · exact hacts
  · rw [hnil 2] at hrest
    exact absurd hrest.symm (by simp)
  · rw [hdue, hempty] at hsend
    cases hsend

/-- Some program can go on unless all have ended. -/
theorem progress (h : s.Settles dues flight a b c) :
    (∃ s', Step s s') ∨ (s.first = .done a ∧ s.second = .done b ∧ s.third = .done c ∧
      ∀ i j, dues i j = []) := by
  have hb := h.balanced
  rcases h.third.progress hb with ⟨p', t', hacts⟩ | ⟨hthird, hnil⟩ | ⟨j, m, later, hdue, hempty⟩
  · exact .inl ⟨_, .third hacts⟩
  · rcases party_progress hb (by decide) h.first with
      ⟨p', t', hacts⟩ | ⟨hfirst, hnil₀⟩ | ⟨m, later, rest, -, hsend⟩
    · exact .inl ⟨_, .first hacts⟩
    · rcases party_progress hb (by decide) h.second with
        ⟨p', t', hacts⟩ | ⟨hsecond, hnil₁⟩ | ⟨m, later, rest, -, hsend⟩
      · exact .inl ⟨_, .second hacts⟩
      · refine .inr ⟨hfirst, hsecond, hthird, ?_⟩
        intro i j
        by_contra hne
        have hi : i = 0 ∨ i = 1 ∨ i = 2 := by
          have := hb.star i j hne
          omega
        rcases hi with rfl | rfl | rfl
        · exact hne (hnil₀ j)
        · exact hne (hnil₁ j)
        · exact hne (hnil j)
      · rw [hnil 1] at hsend
        exact absurd hsend (by simp)
    · rw [hnil 0] at hsend
      exact absurd hsend (by simp)
  · have hne : dues 2 j ≠ [] := by
      rw [hdue]
      exact List.cons_ne_nil _ _
    have hj : j = 0 ∨ j = 1 := by
      have := hb.star 2 j hne
      omega
    rcases hj with rfl | rfl
    · obtain ⟨p', t', hacts⟩ := party_acts hb (by decide) h.first hdue hempty
      exact .inl ⟨_, .first hacts⟩
    · obtain ⟨p', t', hacts⟩ := party_acts hb (by decide) h.second hdue hempty
      exact .inl ⟨_, .second hacts⟩

theorem exists_ended (h : s.Settles dues flight a b c) :
    ∃ s', s.Reaches s' ∧ s'.first = .done a ∧ s'.second = .done b ∧ s'.third = .done c := by
  induction s using wellFounded_event.induction generalizing dues flight with
  | _ s ih =>
    rcases h.progress with ⟨s', hstep⟩ | ⟨hfirst, hsecond, hthird, -⟩
    · obtain ⟨dues', flight', h'⟩ := h.step hstep
      obtain ⟨ended, hreach, hended⟩ := ih s' (.inl hstep) h'
      exact ⟨ended, hreach.head hstep, hended⟩
    · exact ⟨s, .refl, hfirst, hsecond, hthird⟩

end Settles

end Session

end PrivateLift
