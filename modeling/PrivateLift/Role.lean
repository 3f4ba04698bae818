import PrivateLift.Text.Blank

/-!
# The two parties of a lift measurement

The publisher knows who saw an ad, the partner knows who bought something. Both run the same steps,
so most of the library is indexed by a `Role`.
-/

namespace PrivateLift

/-- The two parties of a lift measurement. -/
inductive Role where
  /-- Holds the exposure data. -/
  | publisher
  /-- Holds the purchase data. -/
  | partner
  deriving DecidableEq, Repr, Inhabited

namespace Role

/-- The other party. -/
def peer : Role → Role
  | publisher => partner
  | partner => publisher

@[simp] theorem peer_peer (r : Role) : r.peer.peer = r := by cases r <;> rfl

theorem peer_ne (r : Role) : r.peer ≠ r := by cases r <;> decide

theorem forall_of_peer {P : Role → Prop} (owner : Role) (hown : P owner) (hpeer : P owner.peer)
    (role : Role) : P role := by
  cases owner <;> cases role <;> assumption

/-- The first value for the publisher, the second for the partner. -/
def pick {α : Type} (a b : α) : Role → α
  | publisher => a
  | partner => b

@[simp] theorem pick_publisher {α : Type} (a b : α) : pick a b publisher = a := rfl

@[simp] theorem pick_partner {α : Type} (a b : α) : pick a b partner = b := rfl

/-- The name by which a role is written in configurations, logs and error texts. -/
def name : Role → String
  | publisher => "publisher"
  | partner => "partner"

/-- The role with exactly the given name. -/
def ofName? (s : String) : Option Role :=
  if s = publisher.name then some publisher
  else if s = partner.name then some partner
  else none

@[simp] theorem ofName?_name (r : Role) : ofName? r.name = some r := by cases r <;> decide

/-- A text that names no role. -/
structure Unknown where
  /-- The text as it was given, blanks included. -/
  text : String
  deriving DecidableEq, Repr

/-- The report of an unknown role quotes the text unchanged. -/
def Unknown.message (e : Unknown) : String :=
  s!"unknown role '{e.text}', expected 'publisher' or 'partner'"

/-- Reads a role typed by a person: blanks around it and the case of ASCII letters do not matter. -/
def parse (s : String) : Except Unknown Role :=
  match ofName? (Text.word s) with
  | some r => .ok r
  | none => .error ⟨s⟩

end Role

end PrivateLift
