import PrivateLift.Party.Query

/-!
# The run of one party

A run shuffles the local rows, aligns the union map with the peer's, packs the rows in shuffled
order, has the counts and then the rows of both parties shared, and decodes the shares into columns.
No step is tried twice: the first failure ends the run.
-/

namespace PrivateLift

/-- A program of a party that can halt. -/
abbrev PartyStep (ε α : Type) :=
  ExceptT (Halt (PartyError ε)) (Program PartyQuery (PartyQuery.Reply ε)) α

namespace PartyStep

variable {ε α : Type}

/-- Adds an entry to the log. -/
def note (entry : LogEntry) : PartyStep ε Unit :=
  ExceptT.mk <| .ask (.note entry) fun () => .done (.ok ())

/-- A step whose outcome is known. -/
def ofOutcome (o : Outcome (PartyError ε) α) : PartyStep ε α := ExceptT.mk (.done o)

/-- The width of a row, which must fit into 64 bits. -/
def width (role : Role) (conversionsPerUser : Nat) : PartyStep ε Nat :=
  ofOutcome (Outcome.ofFault (role.width conversionsPerUser))

/-- Ends with an error. -/
def fail (e : PartyError ε) : PartyStep ε α := ofOutcome (.error (.error e))

/-- Has the union map turned into the intersection map. -/
def adapt (union : IndexMap) : PartyStep ε IndexMap :=
  ExceptT.mk <| .ask (.adapt union) fun reply => .done (Outcome.ofError .adapter reply)

/-- Has the row count of a party shared. -/
def shareRowCount (owner : Role) (count : Option UInt32) : PartyStep ε UInt32 :=
  ExceptT.mk <| .ask (.shareRowCount owner count) fun reply =>
    .done (Outcome.ofError (.dataProcessor (.rowCount owner)) reply)

/-- Has the local rows shared. -/
def shareOwnRows (owner : Role) (rows : List Bytes) (outputSize : Nat) : PartyStep ε RowShares :=
  ExceptT.mk <| .ask (.shareOwnRows rows outputSize) fun reply =>
    .done (Outcome.ofError (.dataProcessor (.rows owner)) reply)

/-- Has the peer's rows shared. -/
def sharePeerRows (owner : Role) (count : UInt32) (intersection : IndexMap) (width : Nat) :
    PartyStep ε RowShares :=
  ExceptT.mk <| .ask (.sharePeerRows count intersection width) fun reply =>
    .done (Outcome.ofError (.dataProcessor (.rows owner)) reply)

/-- Adds an entry to the log where a step has ended with an error. A fault leaves none. -/
def report (outcome : Outcome (PartyError ε) α) :
    Program PartyQuery (PartyQuery.Reply ε) Unit :=
  match outcome with
  | .error (.error e) => .ask (.note (.failure e.message)) fun () => .done ()
  | _ => .done ()

/-- The same step, with a log entry where it ends with an error. -/
def reporting (step : PartyStep ε α) : PartyStep ε α := ExceptT.mk do
  let outcome ← step.run
  report outcome
  return outcome

end PartyStep

open PartyStep

variable {ε : Type}

/-- Draws the union map of the local rows, unless there are more of them than a map can index. -/
def shuffleRows (dummyRows : List Bool) (s : WordStream) : PartyStep ε (IndexMap × WordStream) := do
  if dummyRows.length > IndexMap.maxUnion then fail (.tooManyRows dummyRows.length)
  note (.info "Shuffling input and preparing union map for the adapter")
  return IndexMap.shuffled dummyRows s

/-- Checks a union map and has it turned into the intersection map. -/
def align (union : IndexMap) : PartyStep ε IndexMap := reporting do
  let _ ← ofOutcome (Outcome.ofError .unionMap union.validate)
  note (.info "Begin adapter protocol")
  adapt union

/-- Serializes the local rows in the order of a union map. -/
def packRows (source : RowSource) (layout : List Field) (union : IndexMap) :
    PartyStep ε (List Bytes) := do
  note (.info "Begin plaintext data serialization as bytes")
  let order ← ofOutcome (Outcome.ofFault union.inverse)
  let labels ← ofOutcome (Outcome.ofFault (layout.mapM (·.label)))
  let fields := String.intercalate ", " labels
  note (.debug s!"{source.role.name} row layout: {fields}")
  let rows ← ofOutcome (Outcome.ofFault (order.mapM source.packRow))
  note (.debug s!"Serialized {rows.length} {source.role.name} rows of {source.rowWidth} bytes")
  return rows

/-- Has the rows of one party shared: the local rows are handed over, the peer's are asked for with
the share of their count. -/
def shareRowsOf (owner : Role) (c : Config) (intersection : IndexMap) (rows : List Bytes)
    (count : UInt32) : PartyStep ε RowShares := do
  if owner = c.role then
    note (.info s!"Begin processing my data ({owner.name})")
    shareOwnRows owner rows intersection.length
  else
    note (.info s!"Begin processing peers data ({owner.name})")
    sharePeerRows owner count intersection (owner.rowWidth c.conversionsPerUser)

/-- The shares of a party's rows have one row per entry of the intersection. -/
def checkBatchSize (owner : Role) (shares : RowShares) (expected : Nat) : PartyStep ε Unit :=
  if shares.batchSize = expected then pure ()
  else fail (.shares (.rowCountMismatch owner expected shares.batchSize))

/-- Has the counts and then the rows of both parties shared, the publisher's first. The widths of
the rows must fit into 64 bits, whichever role the party has. Only the numbers of shared rows are
checked against the intersection. -/
def compact (c : Config) (intersection : IndexMap) (rows : List Bytes) :
    PartyStep ε (RowShares × RowShares) := reporting do
  note (.info "Beginning oblivious data intersection step")
  if rows.length ≥ UInt32.size then fail (.tooManyRows rows.length)
  let own (owner : Role) := if owner = c.role then some (UInt32.ofNat rows.length) else none
  let publisherCount ← shareRowCount .publisher (own .publisher)
  let partnerCount ← shareRowCount .partner (own .partner)
  let publisherWidth ← width .publisher c.conversionsPerUser
  let partnerWidth ← width .partner c.conversionsPerUser
  note (.info s!"Local row count: {rows.length}")
  note (.info s!"Publisher row size in bytes: {publisherWidth}")
  note (.info s!"Partner row size in bytes: {partnerWidth}")
  let publisher ← shareRowsOf .publisher c intersection rows publisherCount
  let partner ← shareRowsOf .partner c intersection rows partnerCount
  let expected := intersection.setCount
  checkBatchSize .publisher publisher expected
  checkBatchSize .partner partner expected
  note (.info s!"{expected} rows in intersection after running data processor")
  return (publisher, partner)

/-- Decodes the shares of both parties' rows into columns. -/
def extractColumns (publisher partner : RowShares) (conversionsPerUser : Nat) :
    PartyStep ε ProcessedShares := reporting do
  note (.info "Begin extraction to MPC types")
  let data ← ofOutcome <|
    match ProcessedShares.extract publisher partner conversionsPerUser with
    | .ok data => .ok data
    | .error (.fault f) => .error (.fault f)
    | .error (.error e) => .error (.error (.shares e))
  note (.info "Finish extraction to MPC types")
  return data

/-- A party with a valid configuration and an input that fits it. -/
structure Party where
  config : Config
  input : LocalInput
  /-- The padded columns of the input. -/
  source : RowSource

namespace Party

/-- Checks the configuration, then the input, and pads the columns. -/
def make (config : Config) (input : LocalInput) : Outcome (PartyError ε) Party := do
  Outcome.ofError .config config.validate
  Outcome.ofError .input (input.validate config)
  let source ← Outcome.ofFault (RowSource.ofInput input config)
  return ⟨config, input, source⟩

/-- The steps after the shuffle. -/
def runFrom (p : Party) (union : IndexMap) : PartyStep ε ProcessedShares := do
  let intersection ← align union
  let layout := p.input.role.layout p.config.conversionsPerUser
  let rows ← packRows p.source layout union
  let (publisher, partner) ← compact p.config intersection rows
  extractColumns publisher partner p.config.conversionsPerUser

/-- All steps. The outcome comes with the stream after the one permutation that is drawn; a party
with too many rows draws nothing. -/
def run (p : Party) (s : WordStream) : Program PartyQuery (PartyQuery.Reply ε)
    (Outcome (PartyError ε) ProcessedShares × WordStream) := do
  let rows := s!"{p.input.unionSize} input rows ({p.input.dummyCount} dummy)"
  Program.request (PartyQuery.note (.info s!"Processing {rows}"))
  let (outcome, s) ← match ← (shuffleRows p.input.dummyRows s).run with
    | .ok (union, s) => do pure (← (p.runFrom union).run, s)
    | .error halt => pure (.error halt, s)
  report outcome
  return (outcome, s)

/-- Checks the configuration and the input and runs all steps. -/
def process (config : Config) (input : LocalInput) (s : WordStream) :
    Program PartyQuery (PartyQuery.Reply ε) (Outcome (PartyError ε) ProcessedShares) :=
  match make config input with
  | .ok p => do return (← p.run s).1
  | .error halt => .done (.error halt)

end Party

end PrivateLift
