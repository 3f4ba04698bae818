import PrivateLift.UnionMap
import PrivateLift.Wire.Records

/-!
# Messages between the parties and the dealer

Seven kinds of message are exchanged, in six phases: a row count and the share of it that comes back
belong to the same phase. The kind fixes the type of the content and its binary code; it is not part
of the message, so a receiver has to know which kind comes next.
-/

namespace PrivateLift

/-- The kinds of message. -/
inductive MessageKind where
  /-- A party's union map. -/
  | unionMap
  /-- The intersection map computed by the dealer. -/
  | intersectionMap
  /-- A party's row count, or nothing if the count belongs to the other party. -/
  | rowCount
  /-- A share of a row count. -/
  | rowCountShare
  /-- A party's rows and the size of its intersection map. -/
  | ownRows
  /-- A party's share of the peer's row count, its intersection map and the width of the peer's
  rows. -/
  | peerRows
  /-- A share of the rows of one party. -/
  | rowShares
  deriving DecidableEq, Repr

namespace MessageKind

/-- The name of the phase in which a message is exchanged. -/
def phase : MessageKind → String
  | unionMap => "union map (dealer)"
  | intersectionMap => "intersection map (dealer)"
  | rowCount => "row count (dealer)"
  | rowCountShare => "row count (dealer)"
  | ownRows => "my rows (dealer)"
  | peerRows => "peer rows (dealer)"
  | rowShares => "row shares (dealer)"

/-- The content of a message. -/
@[reducible] def Payload : MessageKind → Type
  | unionMap => IndexMap
  | intersectionMap => IndexMap
  | rowCount => Option UInt32
  | rowCountShare => UInt32
  | ownRows => List Bytes × Nat
  | peerRows => UInt32 × IndexMap × Nat
  | rowShares => RowShares

/-- The binary code of the content. -/
def codec : (kind : MessageKind) → Codec kind.Payload
  | unionMap => .list .int32
  | intersectionMap => .list .int32
  | rowCount => .option .uint32
  | rowCountShare => .uint32
  | ownRows => .pair (.list (.list .uint8)) .count
  | peerRows => .pair .uint32 (.pair (.list .int32) .count)
  | rowShares => RowShares.codec

end MessageKind

end PrivateLift
