import PrivateLift.Role

/-!
# Parameters of the input processing

Both parties must agree on the number of conversions kept per user and on the window after a
purchase, otherwise the partner rows written by one party cannot be read by the other.
-/

namespace PrivateLift

/-- Why a configuration is refused. -/
inductive ConfigError where
  | zeroConversionsPerUser
  | zeroThresholdWindow
  deriving DecidableEq, Repr

/-- The text that reports a refused configuration. -/
def ConfigError.message : ConfigError → String
  | zeroConversionsPerUser => "num_conversions_per_user must be positive"
  | zeroThresholdWindow => "purchase_timestamp_threshold_window must be positive"

/-- Parameters of the input processing of one party. -/
structure Config where
  /-- The role of the local party. -/
  role : Role := .publisher
  /-- Length of the fixed sequence of conversions in every partner row. -/
  conversionsPerUser : Nat := 25
  /-- Added to a purchase timestamp to obtain its threshold. -/
  thresholdWindow : UInt32 := 10
  deriving DecidableEq, Repr, Inhabited

namespace Config

/-- A configuration is valid if both parameters are positive; a zero number of conversions is
reported before a zero window. -/
def validate (c : Config) : Except ConfigError Unit :=
  if c.conversionsPerUser = 0 then .error .zeroConversionsPerUser
  else if c.thresholdWindow = 0 then .error .zeroThresholdWindow
  else .ok ()

/-- A configuration from its parameters, if it is valid. -/
def make (role : Role) (conversionsPerUser : Nat) (thresholdWindow : UInt32) :
    Except ConfigError Config :=
  let c : Config := ⟨role, conversionsPerUser, thresholdWindow⟩
  match c.validate with
  | .ok () => .ok c
  | .error e => .error e

/-- The threshold that belongs to a purchase timestamp: the end of the window after the purchase,
modulo 2^32, and 0 where there is no purchase. -/
def threshold (c : Config) (purchase : UInt32) : UInt32 :=
  if purchase = 0 then 0 else purchase + c.thresholdWindow

end Config

end PrivateLift
