import PrivateLift.Fault

/-!
# Computations that can halt

Inversion of a sequence of computations, and lists and loops of computations that all succeed.
-/

namespace PrivateLift

theorem bind_eq_ok {ε α β : Type} {x : Except ε α} {f : α → Except ε β} {b : β} :
    x >>= f = .ok b ↔ ∃ a, x = .ok a ∧ f a = .ok b := by
  cases x with
  | error e => simp [bind, Except.bind]
  | ok a => simp [bind, Except.bind]

/-- A check that gives no value only decides whether the rest is computed. -/
theorem check_bind_eq_ok {ε β : Type} {check : Except ε Unit} {f : Unit → Except ε β} {b : β} :
    check >>= f = .ok b ↔ check = .ok () ∧ f () = .ok b := by
  cases check with
  | error e => simp [bind, Except.bind]
  | ok a => simp [bind, Except.bind]

theorem ite_ok_bind {ε α β : Type} {P : Prop} [Decidable P] {a : α} {e : ε}
    {f : α → Except ε β} :
    (if P then .ok a else .error e : Except ε α) >>= f = if P then f a else .error e := by
  split <;> rfl

theorem Outcome.ofFault_eq_ok {ε α : Type} {x : Except Fault α} {a : α}
    (h : Outcome.ofFault (ε := ε) x = .ok a) : x = .ok a := by
  cases x with
  | error f => cases h
  | ok b =>
    cases h
    rfl

theorem Outcome.ofError_eq_ok {ε ε' α : Type} {wrap : ε' → ε} {x : Except ε' α} {a : α}
    (h : Outcome.ofError wrap x = .ok a) : x = .ok a := by
  cases x with
  | error e => cases h
  | ok b =>
    cases h
    rfl

theorem mapM_map_ok {ε α β : Type} {f : α → Except ε β} {g : α → β} {l : List α}
    (h : ∀ a ∈ l, f a = .ok (g a)) : l.mapM f = .ok (l.map g) := by
  induction l with
  | nil => rfl
  | cons a l ih =>
    rw [List.mapM_cons, h a List.mem_cons_self, ih fun b hb => h b (List.mem_cons_of_mem a hb)]
    rfl

theorem mapM_exists_ok {ε α β : Type} {f : α → Except ε β} {P : α → β → Prop} {l : List α}
    (h : ∀ a ∈ l, ∃ b, f a = .ok b ∧ P a b) :
    ∃ bs, l.mapM f = .ok bs ∧ List.length bs = l.length ∧
      ∀ i (hi : i < l.length) (hi' : i < bs.length), P l[i] bs[i] := by
  induction l with
  | nil => exact ⟨[], rfl, rfl, fun i hi => absurd hi (Nat.not_lt_zero i)⟩
  | cons a l ih =>
    obtain ⟨b, hb, pb⟩ := h a List.mem_cons_self
    obtain ⟨bs, hbs, hlen, pbs⟩ := ih fun c hc => h c (List.mem_cons_of_mem a hc)
    refine ⟨b :: bs, ?_, by rw [List.length_cons, List.length_cons, hlen], ?_⟩
    · rw [List.mapM_cons, hb]
      simp only [bind, Except.bind, hbs, pure, Except.pure]
    · intro i hi hi'
      cases i with
      | zero => exact pb
      | succ i => exact pbs i (Nat.lt_of_succ_lt_succ hi) (Nat.lt_of_succ_lt_succ hi')

/-- A loop over a range succeeds if every step does where the invariant holds, and keeps it. -/
theorem foldlM_range_ok {ε σ : Type} {step : σ → Nat → Except ε σ} {P : Nat → σ → Prop} {n : Nat}
    {s : σ} (hstart : P 0 s)
    (hstep : ∀ k < n, ∀ s, P k s → ∃ s', step s k = .ok s' ∧ P (k + 1) s') :
    ∃ s', (List.range n).foldlM step s = .ok s' ∧ P n s' := by
  induction n with
  | zero => exact ⟨s, rfl, hstart⟩
  | succ n ih =>
    obtain ⟨s', hs', hP⟩ := ih fun k hk => hstep k (Nat.lt_succ_of_lt hk)
    obtain ⟨s'', hs'', hP'⟩ := hstep n (Nat.lt_succ_self n) s' hP
    refine ⟨s'', ?_, hP'⟩
    rw [List.range_succ, List.foldlM_append, hs']
    simp only [bind, Except.bind, List.foldlM_cons, hs'']
    rfl

end PrivateLift
