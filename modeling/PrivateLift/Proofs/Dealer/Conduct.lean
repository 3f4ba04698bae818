import PrivateLift.Dealer.Run
import PrivateLift.Proofs.Wire

/-!
# The dealer against arbitrary parties

The conduct of the parties is a function from everything that the dealer has exchanged to the next
message, so that either party may make its messages depend on what both have sent and got before. A
program that talks over channels takes one course against a conduct (`Program.against`). The lemmas
below give this course for the steps that the dealer is made of: two receives in either order
(`heard_rule`) and two sends in either order (`told_rule`).
-/

namespace PrivateLift

/-- A message between the dealer and a party. -/
inductive Dealing where
  | received (m : Message)
  | sent (m : Message)

/-- What the dealer has exchanged, in order, with the number of the party each time. -/
abbrev Past := List (Nat × Dealing)

namespace Past

/-- What has been exchanged with one party, in order. -/
def dealings (past : Past) (peer : Nat) : List Dealing :=
  past.filterMap fun (p, dealing) => if p = peer then some dealing else none

theorem mem_dealings {past : Past} {peer : Nat} {dealing : Dealing} :
    dealing ∈ past.dealings peer ↔ (peer, dealing) ∈ past := by
  simp only [dealings, List.mem_filterMap, Option.ite_none_right_eq_some, Option.some.injEq]
  constructor
  · rintro ⟨_, h, rfl, rfl⟩
    exact h
  · intro h
    exact ⟨_, h, rfl, rfl⟩

@[simp] theorem dealings_append (past later : Past) (peer : Nat) :
    dealings (past ++ later) peer = past.dealings peer ++ later.dealings peer := by
  simp [dealings]

@[simp] theorem dealings_self (peer : Nat) (dealing : Dealing) :
    dealings [(peer, dealing)] peer = [dealing] := by
  simp [dealings]

theorem dealings_of_ne {p peer : Nat} (h : p ≠ peer) (dealing : Dealing) :
    dealings [(p, dealing)] peer = [] := by
  simp [dealings, h]

end Past

/-- How the parties behave: the message that a party delivers where one of a kind is awaited from
it, and which of two actions under way ends first. -/
structure Conduct where
  deliver : Past → (sender : Nat) → (kind : MessageKind) → kind.Payload
  leftFirst : Past → Bool

namespace Conduct

/-- What an action gives. -/
def result (c : Conduct) (past : Past) : (a : ChannelAction) → a.Result
  | .send _ _ _ => ()
  | .receive sender kind => c.deliver past sender kind

/-- What an action adds to the past. -/
def dealing (c : Conduct) (past : Past) : ChannelAction → Nat × Dealing
  | .send recipient kind payload => (recipient, .sent ⟨kind, payload⟩)
  | .receive sender kind => (sender, .received ⟨kind, c.deliver past sender kind⟩)

end Conduct

variable {α β : Type}

/-- The past and the result of a program against a conduct, under which every action succeeds. -/
def Program.against (c : Conduct) : ChannelProgram α → Past → Past × α
  | .done a, past => (past, a)
  | .ask (.note _) next, past => (next ()).against c past
  | .ask (.perform a) next, past =>
    (next (.ok (c.result past a))).against c (past ++ [c.dealing past a])
  | .ask (.either a b) next, past =>
    if c.leftFirst past then
      (next (.inl (.ok (c.result past a)))).against c (past ++ [c.dealing past a])
    else (next (.inr (.ok (c.result past b)))).against c (past ++ [c.dealing past b])

theorem Program.against_bind (c : Conduct) (p : ChannelProgram α) (f : α → ChannelProgram β)
    (past : Past) :
    (p >>= f).against c past = (f (p.against c past).2).against c (p.against c past).1 := by
  induction p generalizing past with
  | done a => rfl
  | ask q next ih =>
    cases q with
    | note entry => exact ih () past
    | perform a => exact ih _ _
    | either a b =>
      simp only [ask_bind, against]
      split <;> exact ih _ _

namespace Dealer

/-- The past grows by one dealing with a party and one with its peer. -/
structure Extends (seat : Seats) (owner : Role) (past later : Past) (own peer : Dealing) : Prop where
  subset : past ⊆ later
  own_eq : later.dealings (seat owner) = past.dealings (seat owner) ++ [own]
  peer_eq : later.dealings (seat owner.peer) = past.dealings (seat owner.peer) ++ [peer]

variable {seat : Seats} {past later : Past} {own peer : Dealing}

theorem Extends.dealings_eq {owner : Role} (h : Extends seat owner past later own peer)
    {dealing : Role → Dealing} (hown : dealing owner = own) (hpeer : dealing owner.peer = peer)
    (role : Role) : later.dealings (seat role) = past.dealings (seat role) ++ [dealing role] :=
  Role.forall_of_peer (P := fun role =>
    later.dealings (seat role) = past.dealings (seat role) ++ [dealing role]) owner
    (hown ▸ h.own_eq) (hpeer ▸ h.peer_eq) role

theorem Extends.swap {owner : Role} (h : Extends seat owner past later own peer) :
    Extends seat owner.peer past later peer own := by
  refine ⟨h.subset, h.peer_eq, ?_⟩
  rw [Role.peer_peer]
  exact h.own_eq

theorem extends_own_first {owner : Role} (hseat : seat owner ≠ seat owner.peer) (past : Past)
    (own peer : Dealing) : Extends seat owner past
      (past ++ [(seat owner, own)] ++ [(seat owner.peer, peer)]) own peer := by
  refine ⟨by simp, ?_, ?_⟩
  · simp only [Past.dealings_append, Past.dealings_self, Past.dealings_of_ne hseat.symm,
      List.append_nil]
  · simp only [Past.dealings_append, Past.dealings_self, Past.dealings_of_ne hseat,
      List.append_nil]

theorem extends_peer_first {owner : Role} (hseat : seat owner ≠ seat owner.peer) (past : Past)
    (own peer : Dealing) : Extends seat owner past
      (past ++ [(seat owner.peer, peer)] ++ [(seat owner, own)]) own peer := by
  have hseat' : seat owner.peer ≠ seat owner.peer.peer := by
    rw [Role.peer_peer]
    exact hseat.symm
  simpa only [Role.peer_peer] using (extends_own_first hseat' past peer own).swap

theorem against_both (c : Conduct) (a b : ChannelAction) (f : a.Result × b.Result → Step β)
    (past : Past) :
    (both a b >>= f).run.against c past =
      if c.leftFirst past then
        (f (c.result past a, c.result (past ++ [c.dealing past a]) b)).run.against c
          (past ++ [c.dealing past a] ++ [c.dealing (past ++ [c.dealing past a]) b])
      else
        (f (c.result (past ++ [c.dealing past b]) a, c.result past b)).run.against c
          (past ++ [c.dealing past b] ++ [c.dealing (past ++ [c.dealing past b]) a]) := by
  rfl

theorem against_note (c : Conduct) (entry : LogEntry) (f : Unit → Step β) (past : Past) :
    (note entry >>= f).run.against c past = (f ()).run.against c past := rfl

/-- The dealer hears both parties, in either order, and goes on with what they deliver. -/
theorem heard_rule {P : Past × Outcome DealerError β → Prop} {c : Conduct} {owner : Role}
    (hseat : seat owner ≠ seat owner.peer) {kind kind' : MessageKind}
    {f : kind.Payload × kind'.Payload → Step β}
    (next : ∀ heard earlier earlier', past ⊆ earlier → past ⊆ earlier' →
      Extends seat owner past heard (.received ⟨kind, c.deliver earlier (seat owner) kind⟩)
        (.received ⟨kind', c.deliver earlier' (seat owner.peer) kind'⟩) →
      P ((f (c.deliver earlier (seat owner) kind,
        c.deliver earlier' (seat owner.peer) kind')).run.against c heard)) :
    P ((both (.receive (seat owner) kind) (.receive (seat owner.peer) kind') >>= f).run.against c
      past) := by
  rw [against_both]
  split
  · exact next _ past _ (List.Subset.refl _) (List.subset_append_left _ _)
      (extends_own_first hseat past _ _)
  · exact next _ _ past (List.subset_append_left _ _) (List.Subset.refl _)
      (extends_peer_first hseat past _ _)

/-- The dealer tells both parties, in either order. -/
theorem told_rule {P : Past × Outcome DealerError β → Prop} {c : Conduct} {owner : Role}
    (hseat : seat owner ≠ seat owner.peer) (m m' : Message) {f : Unit × Unit → Step β}
    (next : ∀ told, Extends seat owner past told (.sent m) (.sent m') →
      P ((f ((), ())).run.against c told)) :
    P ((both (.send (seat owner) m.1 m.2) (.send (seat owner.peer) m'.1 m'.2) >>= f).run.against c
      past) := by
  rw [against_both]
  split
  · exact next _ (extends_own_first hseat past _ _)
  · exact next _ (extends_peer_first hseat past _ _)

end Dealer

end PrivateLift
