import PrivateLift.Channel
import PrivateLift.Party.Run

/-!
# The parties' side of the dealer

A trusted dealer can play the adapter and the data processor of both parties. A party then answers
its own requests by sending one message to the dealer and waiting for the dealer's answer.
-/

namespace PrivateLift

namespace DealerClient

open ChannelStep

/-- Sends the union map and receives an intersection map of the same length. -/
def adapt (dealer : Nat) (union : IndexMap) : ChannelStep IndexMap := do
  send dealer .unionMap union
  let map ← receive dealer .intersectionMap
  if map.length = union.length then return map
  else throw ⟨.intersectionMap, .invalidLength union.length map.length⟩

/-- Sends the count, or that there is none to send, and receives a share of it. The dealer knows
whose count is due. -/
def shareRowCount (dealer : Nat) (count : Option UInt32) : ChannelStep UInt32 := do
  send dealer .rowCount count
  receive dealer .rowCountShare

/-- Sends the local rows and receives shares of those in the intersection. -/
def shareOwnRows (dealer : Nat) (rows : List Bytes) (outputSize : Nat) : ChannelStep RowShares := do
  send dealer .ownRows (rows, outputSize)
  receive dealer .rowShares

/-- Sends what is known of the peer's rows and receives shares of those in the intersection. -/
def sharePeerRows (dealer : Nat) (count : UInt32) (intersection : IndexMap) (width : Nat) :
    ChannelStep RowShares := do
  send dealer .peerRows (count, intersection, width)
  receive dealer .rowShares

/-- Answers the requests of a party with the help of the dealer. -/
def answer (dealer : Nat) : (q : PartyQuery) → ChannelProgram (q.Reply ChannelError)
  | .note entry => Program.request (ChannelQuery.note entry)
  | .adapt union => (adapt dealer union).run
  | .shareRowCount _ count => (shareRowCount dealer count).run
  | .shareOwnRows rows outputSize => (shareOwnRows dealer rows outputSize).run
  | .sharePeerRows count intersection width => (sharePeerRows dealer count intersection width).run

end DealerClient

/-- The run of a party whose collaborator is the dealer. -/
def Party.processWith (dealer : Nat) (config : Config) (input : LocalInput) (s : WordStream) :
    ChannelProgram (Outcome (PartyError ChannelError) ProcessedShares) :=
  (Party.process config input s).interpret (DealerClient.answer dealer)

end PrivateLift
