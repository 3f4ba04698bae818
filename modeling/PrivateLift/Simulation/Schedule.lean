import PrivateLift.Simulation.World

/-!
# Running three programs together

Three programs with the numbers 0, 1 and 2 share a network. They are polled in turn, and a program
that is polled goes on until it has to wait. The first program that ends with an error ends the run.
When all three wait, time passes, and the first of them that still waits is told that it waited too
long.

`poll_eq` is the equation of a run: the programs are polled once, and whichever goes on is polled
again with the rest of its program.
-/

namespace PrivateLift

/-- What can be seen of a program: it has ended, or it waits for an answer. `K` is what follows the
answer. -/
inductive Status (α K : Type) where
  | ended (a : α)
  | waiting (q : ChannelQuery) (resume : q.Reply → World → K)

namespace Status

variable {α K L : Type}

/-- Changes what follows an answer. -/
def map (f : K → L) : Status α K → Status α L
  | ended a => ended a
  | waiting q resume => waiting q fun reply w => f (resume reply w)

end Status

/-- The status of a program, where `resume` follows with the rest of the program. -/
def Program.status {α K : Type} (p : ChannelProgram α) (resume : ChannelProgram α → World → K) :
    Status α K :=
  match p with
  | .done a => .ended a
  | .ask q next => .waiting q fun reply => resume (next reply)

namespace Schedule

/-- Whose turn it is. -/
inductive Turn where
  | first
  | second
  | third
  deriving DecidableEq, Repr

variable {ε α β γ : Type}

/-- The end of a run: the results of all programs or the error of one, and what is left behind. -/
abbrev End (ε α β γ : Type) := Except ε (α × β × γ) × World

/-- What follows a poll of program `me`. Nothing does if the program has to wait or has ended with a
result; then another one is polled. -/
def attempt (me : Nat) (status : Status (Except ε α) (Except ε β × World)) (w : World) :
    Option (Except ε β × World) :=
  match status with
  | .ended (.error e) => some (.error e, w)
  | .ended (.ok _) => none
  | .waiting q resume => (w.answer me q).map fun (reply, w) => resume reply w

/-- Ends the run if all programs have ended, and otherwise tells the first one that waits that it
waited too long. -/
def expire (a : Status (Except ε α) (End ε α β γ)) (b : Status (Except ε β) (End ε α β γ))
    (c : Status (Except ε γ) (End ε α β γ)) (w : World) : End ε α β γ :=
  match a with
  | .waiting q resume => resume q.expired w
  | .ended (.error e) => (.error e, w)
  | .ended (.ok x) =>
    match b with
    | .waiting q resume => resume q.expired w
    | .ended (.error e) => (.error e, w)
    | .ended (.ok y) =>
      match c with
      | .waiting q resume => resume q.expired w
      | .ended (.error e) => (.error e, w)
      | .ended (.ok z) => (.ok (x, y, z), w)

/-- Polls three programs, beginning with the one whose turn it is, until one of them goes on or
fails. If none does, all wait or have ended. -/
def round (turn : Turn) (a : Status (Except ε α) (End ε α β γ))
    (b : Status (Except ε β) (End ε α β γ)) (c : Status (Except ε γ) (End ε α β γ)) (w : World) :
    End ε α β γ :=
  let first (_ : Unit) := attempt 0 a w
  let second (_ : Unit) := attempt 1 b w
  let third (_ : Unit) := attempt 2 c w
  let polled :=
    match turn with
    | .first => (first ()).orElse fun () => (second ()).orElse third
    | .second => (second ()).orElse fun () => (third ()).orElse first
    | .third => (third ()).orElse fun () => (first ()).orElse second
  match polled with
  | some followed => followed
  | none => expire a b c w

/-- Goes on with a third program beside two programs of known status. -/
def pollThird (a : Status (Except ε α) (ChannelProgram (Except ε γ) → End ε α β γ))
    (b : Status (Except ε β) (ChannelProgram (Except ε γ) → End ε α β γ)) :
    ChannelProgram (Except ε γ) → Turn → World → End ε α β γ
  | .done z, turn, w => round turn (a.map (· (.done z))) (b.map (· (.done z))) (.ended z) w
  | .ask q next, turn, w =>
    round turn (a.map (· (.ask q next))) (b.map (· (.ask q next)))
      (.waiting q fun reply w => pollThird a b (next reply) .third w) w

/-- Goes on with a second and a third program beside a program of known status. -/
def pollSecond
    (a : Status (Except ε α)
      (ChannelProgram (Except ε β) → ChannelProgram (Except ε γ) → End ε α β γ)) :
    ChannelProgram (Except ε β) → ChannelProgram (Except ε γ) → Turn → World → End ε α β γ
  | .done y, c, turn, w => pollThird (a.map (· (.done y))) (.ended y) c turn w
  | .ask q next, c, turn, w =>
    pollThird (a.map (· (.ask q next)))
      (.waiting q fun reply w c => pollSecond a (next reply) c .second w) c turn w

/-- Goes on with three programs. -/
def poll : ChannelProgram (Except ε α) → ChannelProgram (Except ε β) →
    ChannelProgram (Except ε γ) → Turn → World → End ε α β γ
  | .done x, b, c, turn, w => pollSecond (.ended x) b c turn w
  | .ask q next, b, c, turn, w =>
    pollSecond (.waiting q fun reply w b c => poll (next reply) b c .first w) b c turn w

/-- A program that goes on keeps the turn. -/
theorem poll_eq (a : ChannelProgram (Except ε α)) (b : ChannelProgram (Except ε β))
    (c : ChannelProgram (Except ε γ)) (turn : Turn) (w : World) :
    poll a b c turn w =
      round turn (a.status fun a => poll a b c .first) (b.status fun b => poll a b c .second)
        (c.status fun c => poll a b c .third) w := by
  cases a <;> cases b <;> cases c <;> rfl

/-- Runs three programs on a fresh network until all have ended or one has failed. -/
def run (a : ChannelProgram (Except ε α)) (b : ChannelProgram (Except ε β))
    (c : ChannelProgram (Except ε γ)) : End ε α β γ :=
  poll a b c .first ⟨{ parties := 3 }, #[]⟩

end Schedule

end PrivateLift
