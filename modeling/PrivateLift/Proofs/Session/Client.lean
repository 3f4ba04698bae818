import PrivateLift.Dealer.Client
import PrivateLift.Proofs.Party.Calls
import PrivateLift.Proofs.Session.Dues

/-!
# A party exchanges messages with the dealer

Every call of a party is one exchange with the dealer: a request is sent and its reply is received.
So a party whose calls succeed serves the dues of these exchanges (`Runs.serves`).
-/

namespace PrivateLift

/-- A request and the reply to it. -/
structure Exchange where
  request : Message
  reply : Message

namespace Exchange

/-- What the party that makes the request has to do. -/
def dues (e : Exchange) : List Due := [.send e.request, .receive e.reply]

/-- The exchange by which a party learns the intersection. -/
def adapt (union intersection : IndexMap) : Exchange :=
  ⟨⟨.unionMap, union⟩, ⟨.intersectionMap, intersection⟩⟩

/-- The exchange in which the owner of a row count gives it. -/
def ownCount (count share : UInt32) : Exchange :=
  ⟨⟨.rowCount, some count⟩, ⟨.rowCountShare, share⟩⟩

/-- The exchange in which the other party gets its share of the row count. -/
def peerCount (share : UInt32) : Exchange := ⟨⟨.rowCount, none⟩, ⟨.rowCountShare, share⟩⟩

/-- The exchange in which a party has its own rows shared. -/
def ownRows (rows : List Bytes) (outputSize : Nat) (shares : RowShares) : Exchange :=
  ⟨⟨.ownRows, (rows, outputSize)⟩, ⟨.rowShares, shares⟩⟩

/-- The exchange in which a party gets its shares of the peer's rows. -/
def peerRows (count : UInt32) (map : IndexMap) (width : Nat) (shares : RowShares) : Exchange :=
  ⟨⟨.peerRows, (count, map, width)⟩, ⟨.rowShares, shares⟩⟩

end Exchange

/-- The exchange that answers a call successfully. -/
inductive Call.Exchanges : Call ChannelError → Exchange → Prop where
  | adapt {union map : IndexMap} (h : map.length = union.length) :
      Exchanges ⟨.adapt union, .ok map⟩ (.adapt union map)
  | ownCount (owner : Role) (count share : UInt32) :
      Exchanges ⟨.shareRowCount owner (some count), .ok share⟩ (.ownCount count share)
  | peerCount (owner : Role) (share : UInt32) :
      Exchanges ⟨.shareRowCount owner none, .ok share⟩ (.peerCount share)
  | ownRows (rows : List Bytes) (outputSize : Nat) (shares : RowShares) :
      Exchanges ⟨.shareOwnRows rows outputSize, .ok shares⟩ (.ownRows rows outputSize shares)
  | peerRows (count : UInt32) (map : IndexMap) (width : Nat) (shares : RowShares) :
      Exchanges ⟨.sharePeerRows count map width, .ok shares⟩ (.peerRows count map width shares)

/-- Dues to one peer only. -/
def Dues.only (peer : Nat) (dues : List Due) : Dues := fun other => if other = peer then dues else []

namespace Dues

theorem only_self (peer : Nat) (dues : List Due) : only peer dues peer = dues := if_pos rfl

theorem only_of_ne {peer other : Nat} (h : other ≠ peer) (dues : List Due) :
    only peer dues other = [] := if_neg h

theorem update_only (peer : Nat) (dues later : List Due) :
    Function.update (only peer dues) peer later = only peer later := by
  funext other
  by_cases h : other = peer
  · subst h
    rw [Function.update_self, only_self]
  · rw [Function.update_of_ne h, only_of_ne h, only_of_ne h]

end Dues

section

variable {α : Type} {dealer : Nat}

theorem Serves.exchange (e : Exchange) {sent : Except ChannelError Unit → ChannelProgram α}
    {received : Except ChannelError e.reply.1.Payload → ChannelProgram α} {later : List Due} {a : α}
    (hsent : sent (.ok ()) = .ask (.perform (.receive dealer e.reply.1)) received)
    (rest : Serves (received (.ok e.reply.2)) (Dues.only dealer later) a) :
    Serves (.ask (.perform (.send dealer e.request.1 e.request.2)) sent)
      (Dues.only dealer (e.dues ++ later)) a := by
  refine .perform (.send e.request) (Dues.only_self _ _) (fun h => h.elim) ?_
  rw [Dues.update_only]
  change Serves (sent (.ok ())) (Dues.only dealer (.receive e.reply :: later)) a
  rw [hsent]
  refine .perform (.receive e.reply) (Dues.only_self _ _) ?_ ?_
  · intro _ other hother m rest'
    rw [Dues.only_of_ne hother]
    exact (List.cons_ne_nil _ _).symm
  · rw [Dues.update_only]
    exact rest

theorem Call.Exchanges.serves {q : PartyQuery} {reply : q.Reply ChannelError} {e : Exchange}
    (h : Exchanges ⟨q, reply⟩ e) {next : q.Reply ChannelError → ChannelProgram α}
    {later : List Due} {a : α} (rest : Serves (next reply) (Dues.only dealer later) a) :
    Serves (DealerClient.answer dealer q >>= next) (Dues.only dealer (e.dues ++ later)) a := by
  cases h with
  | @adapt union map hlen =>
    refine .exchange (.adapt union map) rfl ?_
    change Serves ((if map.length = union.length then pure map
      else throw ⟨.intersectionMap, .invalidLength union.length map.length⟩ :
      ChannelStep IndexMap).run >>= next) _ a
    rw [if_pos hlen]
    exact rest
  | ownCount owner count share => exact .exchange (.ownCount count share) rfl rest
  | peerCount owner share => exact .exchange (.peerCount share) rfl rest
  | ownRows rows outputSize shares => exact .exchange (.ownRows rows outputSize shares) rfl rest
  | peerRows count map width shares => exact .exchange (.peerRows count map width shares) rfl rest

/-- A party whose calls are all answered by exchanges serves the dues of these exchanges. -/
theorem Runs.serves {p : Program PartyQuery (PartyQuery.Reply ChannelError) α}
    {calls : List (Call ChannelError)} {a : α} (h : Runs p calls a) {exchanges : List Exchange}
    (hcalls : List.Forall₂ Call.Exchanges calls exchanges) :
    Serves (p.interpret (DealerClient.answer dealer))
      (Dues.only dealer (exchanges.flatMap Exchange.dues)) a := by
  induction h generalizing exchanges with
  | done a =>
    cases hcalls
    exact .done a fun peer => ite_self _
  | note _ ih => exact .note (ih hcalls)
  | call _ reply _ ih =>
    cases hcalls with
    | cons hcall hrest => exact hcall.serves (ih hrest)

end

end PrivateLift
