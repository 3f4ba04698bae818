/-!
# Programs that ask their surroundings

A step of a protocol is a program that puts requests to its surroundings and goes on with the
answers. Which answers it gets is decided by whoever runs it: a network, a script, or a quantifier
in a theorem. A program is a finite tree, so running it ends whatever the answers are;
`Program.Next` is the step from a request to one of its continuations, and it is well founded.
-/

namespace PrivateLift

/-- A program with requests `Q`, where the answer to `q` is an `R q`, and a result in `α`. -/
inductive Program (Q : Type) (R : Q → Type) (α : Type) : Type where
  /-- The program has ended. -/
  | done (a : α)
  /-- The program asks and goes on with the answer. -/
  | ask (q : Q) (next : R q → Program Q R α)

namespace Program

variable {Q : Type} {R : Q → Type} {α β γ : Type}

/-- Runs a program and goes on with its result. -/
protected def bind : Program Q R α → (α → Program Q R β) → Program Q R β
  | done a, f => f a
  | ask q next, f => ask q fun r => (next r).bind f

instance : Monad (Program Q R) where
  pure := done
  bind := Program.bind

@[simp] theorem pure_eq (a : α) : (pure a : Program Q R α) = done a := rfl

@[simp] theorem done_bind (a : α) (f : α → Program Q R β) : (done a >>= f) = f a := rfl

@[simp] theorem ask_bind (q : Q) (next : R q → Program Q R α) (f : α → Program Q R β) :
    (ask q next >>= f) = ask q fun r => next r >>= f := rfl

theorem bind_done (p : Program Q R α) : (p >>= done) = p := by
  induction p with
  | done a => rfl
  | ask q next ih => simp [ih]

theorem bind_assoc (p : Program Q R α) (f : α → Program Q R β) (g : β → Program Q R γ) :
    (p >>= f >>= g) = (p >>= fun a => f a >>= g) := by
  induction p with
  | done a => rfl
  | ask q next ih => simp [ih]

instance : LawfulMonad (Program Q R) :=
  LawfulMonad.mk' (Program Q R) bind_done (fun _ _ => rfl) bind_assoc

/-- Puts one request. -/
def request (q : Q) : Program Q R (R q) := ask q done

/-- Runs a program in a monad that answers the requests. -/
def interpret {m : Type → Type} [Monad m] (answer : (q : Q) → m (R q)) : Program Q R α → m α
  | done a => pure a
  | ask q next => do (next (← answer q)).interpret answer

/-- `p` is what remains of `q` after its first request has been answered. -/
inductive Next : Program Q R α → Program Q R α → Prop where
  | answer (q : Q) (next : R q → Program Q R α) (r : R q) : Next (next r) (ask q next)

theorem acc_next (p : Program Q R α) : Acc Next p := by
  induction p with
  | done a => exact ⟨_, fun _ h => nomatch h⟩
  | ask q next ih => exact ⟨_, fun _ h => by cases h; exact ih _⟩

/-- No program asks forever. -/
theorem wellFounded_next : WellFounded (Next (Q := Q) (R := R) (α := α)) := ⟨acc_next⟩

end Program

end PrivateLift
