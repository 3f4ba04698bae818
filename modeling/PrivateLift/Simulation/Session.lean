import PrivateLift.Dealer.Client
import PrivateLift.Dealer.Run
import PrivateLift.Simulation.Schedule

/-!
# Sessions of two parties and the dealer

A session runs two parties against the trusted dealer on one network. `simulate` is the session of a
publisher and a partner with the same parameters; its two results are the shares of either party.
-/

namespace PrivateLift

/-- A party's configuration, local input and random draws. -/
structure Seat where
  config : Config
  input : LocalInput
  random : WordStream

/-- Which participant of a session failed, and why. -/
inductive SessionError where
  | first (e : PartyError ChannelError)
  | second (e : PartyError ChannelError)
  | dealer (e : DealerError)
  deriving DecidableEq, Repr

/-- Attributes the error of an outcome. -/
def Outcome.attribute {ε ε' α : Type} (wrap : ε → ε') : Outcome ε α → Except (Halt ε') α
  | .ok a => .ok a
  | .error (.fault f) => .error (.fault f)
  | .error (.error e) => .error (.error (wrap e))

/-- Runs two parties, with the numbers 0 and 1, and the dealer, who has the number 2 and takes the
first party for the publisher. The result comes with the log. -/
def runSession (first second : Seat) (dealer : Dealer.Randomness) :
    Outcome SessionError (ProcessedShares × ProcessedShares) × Array LogEntry :=
  let party (seat : Seat) := Party.processWith 2 seat.config seat.input seat.random
  let (outcome, world) := Schedule.run
    (do return Outcome.attribute SessionError.first (← party first))
    (do return Outcome.attribute SessionError.second (← party second))
    (do return Outcome.attribute SessionError.dealer (← Dealer.run 0 1 dealer))
  (outcome.map fun (a, b, _) => (a, b), world.log)

/-- Why a simulation fails. -/
inductive SimulationError where
  | party (role : Role) (e : PartyError ChannelError)
  | dealer (e : DealerError)
  deriving DecidableEq, Repr

/-- The text that reports a failed simulation; the cause is not part of it. -/
def SimulationError.message : SimulationError → String
  | party role _ => s!"input processing failed for the {role.name}"
  | dealer _ => "trusted dealer failed"

/-- All random draws of a simulation. -/
structure SimulationRandomness where
  publisher : WordStream
  partner : WordStream
  dealer : Dealer.Randomness

/-- Runs a publisher and a partner with the same parameters against the dealer. An error is
logged. -/
def simulate (conversionsPerUser : Nat) (thresholdWindow : UInt32) (publisher : PublisherInput)
    (partner : PartnerInput) (random : SimulationRandomness) :
    Outcome SimulationError (ProcessedShares × ProcessedShares) × Array LogEntry :=
  let (outcome, log) := runSession
    ⟨⟨.publisher, conversionsPerUser, thresholdWindow⟩, .publisher publisher, random.publisher⟩
    ⟨⟨.partner, conversionsPerUser, thresholdWindow⟩, .partner partner, random.partner⟩
    random.dealer
  match Outcome.attribute
    (fun | .first e => .party .publisher e | .second e => .party .partner e | .dealer e => .dealer e)
    outcome with
  | .error (.error e) => (.error (.error e), log.push (.failure (SimulationError.message e)))
  | outcome => (outcome, log)

end PrivateLift
