import PrivateLift.Channel
import PrivateLift.Columns
import PrivateLift.UnionMap

/-!
# The trusted dealer

The dealer sees both union maps and all rows in the clear. It computes the intersection, checks that
the parties tell it the same, and hands out shares of the row counts and of the rows in the
intersection. It trusts nothing that it receives: every message is checked against the ones before,
and the first contradiction ends the run.
-/

namespace PrivateLift

/-- Why the dealer gives up. -/
inductive DealerError where
  /-- A message could not be exchanged. -/
  | channel (e : ChannelError)
  /-- A party sent a malformed union map. -/
  | unionMap (e : IndexMap.Error)
  /-- The union maps have different lengths. -/
  | unionSizeMismatch (publisher partner : Nat)
  /-- A row count did not come from its owner alone. -/
  | rowCountOwnership (owner : Role)
  /-- A party echoed another share of the peer's row count than it was given. -/
  | rowCountShareMismatch (party : Role)
  /-- A party asks for another intersection than the computed one. -/
  | intersectionMismatch (party : Role)
  /-- A party sent another number of rows than its union map has positions. -/
  | rowCountMismatch (owner : Role) (expected actual : Nat)
  /-- A party sent a row that does not have the width announced by its peer. -/
  | rowWidthMismatch (owner : Role) (expected actual : Nat)
  deriving DecidableEq, Repr

/-- The text that reports why the dealer gives up. -/
def DealerError.message : DealerError → String
  | channel _ => "channel error"
  | unionMap _ => "malformed union map"
  | unionSizeMismatch publisher partner =>
    s!"unequal union sizes: publisher {publisher} vs partner {partner}"
  | rowCountOwnership owner =>
    s!"the {owner.name} row count must be provided by the {owner.name} alone"
  | rowCountShareMismatch party => s!"the {party.name} sent an unknown row count share"
  | intersectionMismatch party =>
    s!"the {party.name} requested a different intersection than the one that was computed"
  | rowCountMismatch owner expected actual =>
    s!"the {owner.name} announced {expected} rows, but sent {actual}"
  | rowWidthMismatch owner expected actual =>
    s!"the {owner.name} sent a row of {actual} bytes, but rows must be {expected} bytes wide"

namespace Dealer

/-- The dealer's own random draws: one mask for each row count and a stream for the masks of the
rows. -/
structure Randomness where
  countMask : Role → UInt32
  rows : WordStream

/-- A step of the dealer that can halt. -/
abbrev Step (α : Type) := ExceptT (Halt DealerError) ChannelProgram α

/-- Adds an entry to the log. -/
def note (entry : LogEntry) : Step Unit :=
  ExceptT.mk <| .ask (.note entry) fun () => .done (.ok ())

/-- Gives up. -/
def fail {α : Type} (e : DealerError) : Step α := throw (.error e)

/-- A step whose outcome is known. -/
def ofOutcome {α : Type} (o : Outcome DealerError α) : Step α := ExceptT.mk (.done o)

theorem ofOutcome_ok_bind {α β : Type} (a : α) (f : α → Step β) :
    (ofOutcome (.ok a) >>= f) = f a := rfl

/-- Performs two actions in any order. -/
def both (a b : ChannelAction) : Step (a.Result × b.Result) := ExceptT.mk do
  return Outcome.ofError .channel (← (ChannelStep.both a b).run)

/-- The parties' numbers. -/
abbrev Seats := Role → Nat

/-- Receives both union maps, checks them, and sends the intersection map to both parties. The
result is the union map of each party, its number of positions, and the intersection map. -/
def intersect (seat : Seats) : Step ((Role → IndexMap) × (Role → Nat) × IndexMap) := do
  let (publisher, partner) ←
    both (.receive (seat .publisher) .unionMap) (.receive (seat .partner) .unionMap)
  if publisher.length ≠ partner.length then
    fail (.unionSizeMismatch publisher.length partner.length)
  let publisherRows ← ofOutcome (Outcome.ofError .unionMap (IndexMap.validate publisher))
  let partnerRows ← ofOutcome (Outcome.ofError .unionMap (IndexMap.validate partner))
  let intersection := IndexMap.intersect publisher partner
  let _ ← both (.send (seat .publisher) .intersectionMap intersection)
    (.send (seat .partner) .intersectionMap intersection)
  note (.info s!"Dealer computed an intersection of {intersection.setCount} rows")
  let maps | .publisher => publisher | .partner => partner
  let rowCounts | .publisher => publisherRows | .partner => partnerRows
  return (maps, rowCounts, intersection)

/-- Shares the row count of one party, which the owner must give and the peer must not. The owner
receives the mask, the peer the masked count, which is returned. -/
def shareCount (seat : Seats) (mask : UInt32) (owner : Role) : Step UInt32 := do
  let counts ← both (.receive (seat owner) .rowCount) (.receive (seat owner.peer) .rowCount)
  match counts with
  | (some count, none) =>
    let share := count ^^^ mask
    let _ ← both (.send (seat owner) .rowCountShare mask)
      (.send (seat owner.peer) .rowCountShare share)
    return share
  | _ => fail (.rowCountOwnership owner)

/-- The checks of what both parties say about the owner's rows. -/
def checkRows (owner : Role) (intersection : IndexMap) (rowCount : Nat) (countShare : UInt32)
    (own : MessageKind.ownRows.Payload) (peer : MessageKind.peerRows.Payload) :
    Except DealerError Unit :=
  let (rows, outputSize) := own
  let (echoedShare, echoedMap, width) := peer
  if outputSize ≠ intersection.length then .error (.intersectionMismatch owner)
  else if echoedMap ≠ intersection then .error (.intersectionMismatch owner.peer)
  else if echoedShare ≠ countShare then .error (.rowCountShareMismatch owner.peer)
  else if rows.length ≠ rowCount then .error (.rowCountMismatch owner rowCount rows.length)
  else
    match rows.find? (·.length ≠ width) with
    | some row => .error (.rowWidthMismatch owner width row.length)
    | none => .ok ()

/-- Receives the rows of one party, checks them, and shares those in the intersection. -/
def shareRows (seat : Seats) (owner : Role) (union intersection : IndexMap) (rowCount : Nat)
    (countShare : UInt32) (s : WordStream) : Step WordStream := do
  let (own, peer) ←
    both (.receive (seat owner) .ownRows) (.receive (seat owner.peer) .peerRows)
  ofOutcome (Outcome.ofError id (checkRows owner intersection rowCount countShare own peer))
  let (rows, _) := own
  let (_, _, width) := peer
  let selected ← ofOutcome (Outcome.ofFault (IndexMap.selectRows rows union intersection))
  let (mask, masked, s) ← ofOutcome (Outcome.ofFault (RowShares.share selected width s))
  let _ ← both (.send (seat owner) .rowShares mask) (.send (seat owner.peer) .rowShares masked)
  note (.debug s!"Dealer shared {selected.length} {owner.name} rows")
  return s

/-- All steps: the intersection, then the counts, then the rows, each time the publisher's first. -/
def steps (seat : Seats) (random : Randomness) : Step Unit := do
  let (maps, rowCounts, intersection) ← intersect seat
  let publisherCount ← shareCount seat (random.countMask .publisher) .publisher
  let partnerCount ← shareCount seat (random.countMask .partner) .partner
  note (.debug "Dealer shared the row counts")
  let s ← shareRows seat .publisher (maps .publisher) intersection (rowCounts .publisher)
    publisherCount random.rows
  let _ ← shareRows seat .partner (maps .partner) intersection (rowCounts .partner) partnerCount s

/-- The dealer's program for a publisher and a partner with the given numbers. An error is
logged. -/
def run (publisher partner : Nat) (random : Randomness) :
    ChannelProgram (Outcome DealerError Unit) := do
  let seat | .publisher => publisher | .partner => partner
  let outcome ← (steps seat random).run
  match outcome with
  | .error (.error e) => Program.request (ChannelQuery.note (.failure e.message))
  | _ => pure ()
  return outcome

end Dealer

end PrivateLift
