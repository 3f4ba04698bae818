import PrivateLift.Proofs.Columns
import PrivateLift.Proofs.Packing
import PrivateLift.Proofs.Party.Calls

/-!
# How the run of a party ends

`Compacted` lists the ways in which the four sharing calls of a party can end, and `Ending` the ways
in which the whole run can end once the rows have been packed. `run_iff` says that a party whose
parameters have been accepted ends in exactly these ways, whatever the collaborators answer.
-/

namespace PrivateLift

variable {ε : Type}

open PartyStep

/-! ## Accepted and refused parameters -/

namespace Party

theorem make_inv {config : Config} {input : LocalInput} {p : Party}
    (h : make (ε := ε) config input = .ok p) :
    config.validate = .ok () ∧ input.validate config = .ok () ∧ p.config = config ∧
      p.input = input ∧ RowSource.ofInput input config = .ok p.source := by
  cases hconfig : config.validate with
  | error e => simp [make, hconfig, Outcome.ofError, bind, Except.bind] at h
  | ok _ =>
    cases hinput : input.validate config with
    | error e => simp [make, hconfig, hinput, Outcome.ofError, bind, Except.bind] at h
    | ok _ =>
      cases hsource : RowSource.ofInput input config with
      | error f =>
        simp [make, hconfig, hinput, hsource, Outcome.ofError, Outcome.ofFault, bind,
          Except.bind] at h
      | ok source =>
        simp only [make, hconfig, hinput, hsource, Outcome.ofError, Outcome.ofFault, bind,
          Except.bind, pure, Except.pure] at h
        cases h
        exact ⟨rfl, rfl, rfl, rfl, rfl⟩

/-- Valid parameters are accepted, if the columns of the slots can be stored. -/
theorem make_ok {config : Config} {input : LocalInput} (hconfig : config.validate = .ok ())
    (hinput : input.validate config = .ok ())
    (hslots : config.conversionsPerUser ≤ PartnerColumns.maxSlots) :
    ∃ p, make (ε := ε) config input = .ok p ∧ p.config = config ∧ p.input = input := by
  have hsource : ∃ source, RowSource.ofInput input config = .ok source :=
    RowSource.ofInput_ok_iff.2 fun _ => hslots
  obtain ⟨source, hsource⟩ := hsource
  refine ⟨⟨config, input, source⟩, ?_, rfl, rfl⟩
  simp only [make, hconfig, hinput, hsource, Outcome.ofError, Outcome.ofFault, bind, Except.bind]
  rfl

theorem make_error_config {config : Config} {input : LocalInput} {e : ConfigError}
    (h : config.validate = .error e) :
    make (ε := ε) config input = .error (.error (.config e)) := by
  rw [make, h]
  rfl

theorem make_error_input {config : Config} {input : LocalInput} {e : InputError}
    (hconfig : config.validate = .ok ()) (h : input.validate config = .error e) :
    make (ε := ε) config input = .error (.error (.input e)) := by
  rw [make, hconfig, h]
  rfl

end Party

theorem LocalInput.role_of_validate {input : LocalInput} {c : Config}
    (h : input.validate c = .ok ()) : input.role = c.role := by
  by_cases hrole : input.role = c.role
  · exact hrole
  · unfold validate at h
    rw [if_pos hrole] at h
    cases h

theorem Role.rowWidth_lt {n : Nat} (h : Role.partner.rowWidth n < UInt64.size) (role : Role) :
    role.rowWidth n < UInt64.size := by
  cases role with
  | publisher =>
    change 5 < UInt64.size
    decide
  | partner => exact h

theorem labels_ok {role : Role} {n : Nat} (h : role.rowWidth n < UInt64.size) :
    ∃ labels, (role.layout n).mapM (·.label) = .ok labels := by
  have hlabel : ∀ f ∈ role.layout n, ∃ label, f.label = .ok label ∧ True := by
    intro f hf
    obtain ⟨hfits, -⟩ := role.layout_fits n f hf
    rw [Field.Fits] at hfits
    rw [Field.label]
    cases hkind : f.kind with
    | flag position => exact ⟨_, rfl, trivial⟩
    | unsigned | signed =>
      simp only [hkind] at hfits ⊢
      rw [checkSize_ok (Nat.lt_of_le_of_lt hfits.2 h)]
      exact ⟨_, rfl, trivial⟩
  obtain ⟨labels, hlabels, -⟩ := mapM_exists_ok hlabel
  exact ⟨labels, hlabels⟩

/-! ## Endings -/

/-- The call by which a party has a row count shared. -/
def countCall (c : Config) (rows : List Bytes) (owner : Role) (reply : Except ε UInt32) : Call ε :=
  ⟨.shareRowCount owner (if owner = c.role then some (UInt32.ofNat rows.length) else none), reply⟩

/-- The call by which a party has rows shared. -/
def rowsCall (c : Config) (intersection : IndexMap) (rows : List Bytes) (owner : Role)
    (count : UInt32) (reply : Except ε RowShares) : Call ε :=
  if owner = c.role then ⟨.shareOwnRows rows intersection.length, reply⟩
  else ⟨.sharePeerRows count intersection (owner.rowWidth c.conversionsPerUser), reply⟩

/-- The checks after the last call: both parties' shares have one row per entry of the
intersection. -/
def checkBatchSizes (map : IndexMap) (publisher partner : RowShares) :
    Outcome (PartyError ε) (RowShares × RowShares) :=
  let expected := map.setCount
  if publisher.batchSize ≠ expected then
    .error (.error (.shares (.rowCountMismatch .publisher expected publisher.batchSize)))
  else if partner.batchSize ≠ expected then
    .error (.error (.shares (.rowCountMismatch .partner expected partner.batchSize)))
  else .ok (publisher, partner)

/-- The calls and the end of the sharing steps. -/
inductive Compacted (c : Config) (map : IndexMap) (rows : List Bytes) :
    List (Call ε) → Outcome (PartyError ε) (RowShares × RowShares) → Prop where
  | publisherCount (e : ε) :
      Compacted c map rows [countCall c rows .publisher (.error e)]
        (.error (.error (.dataProcessor (.rowCount .publisher) e)))
  | partnerCount (i : UInt32) (e : ε) :
      Compacted c map rows [countCall c rows .publisher (.ok i),
        countCall c rows .partner (.error e)]
        (.error (.error (.dataProcessor (.rowCount .partner) e)))
  | publisherRows (i j : UInt32) (e : ε) :
      Compacted c map rows [countCall c rows .publisher (.ok i), countCall c rows .partner (.ok j),
        rowsCall c map rows .publisher i (.error e)]
        (.error (.error (.dataProcessor (.rows .publisher) e)))
  | partnerRows (i j : UInt32) (m : RowShares) (e : ε) :
      Compacted c map rows [countCall c rows .publisher (.ok i), countCall c rows .partner (.ok j),
        rowsCall c map rows .publisher i (.ok m), rowsCall c map rows .partner j (.error e)]
        (.error (.error (.dataProcessor (.rows .partner) e)))
  | shares (i j : UInt32) (m m' : RowShares) :
      Compacted c map rows [countCall c rows .publisher (.ok i), countCall c rows .partner (.ok j),
        rowsCall c map rows .publisher i (.ok m), rowsCall c map rows .partner j (.ok m')]
        (checkBatchSizes map m m')

/-- What a party makes of the shares of both parties' rows. -/
def extracted (c : Config) (publisher partner : RowShares) :
    Outcome (PartyError ε) ProcessedShares :=
  match ProcessedShares.extract publisher partner c.conversionsPerUser with
  | .ok data => .ok data
  | .error (.fault f) => .error (.fault f)
  | .error (.error e) => .error (.error (.shares e))

/-- The calls and the end of a run with the given union map and packed rows. -/
inductive Ending (c : Config) (union : IndexMap) (rows : List Bytes) :
    List (Call ε) → Outcome (PartyError ε) ProcessedShares → Prop where
  | adapter (e : ε) : Ending c union rows [⟨.adapt union, .error e⟩] (.error (.error (.adapter e)))
  | compact (map : IndexMap) {calls : List (Call ε)} {halt : Halt (PartyError ε)}
      (h : Compacted c map rows calls (.error halt)) :
      Ending c union rows (⟨.adapt union, .ok map⟩ :: calls) (.error halt)
  | extract (map : IndexMap) {calls : List (Call ε)} {m m' : RowShares}
      (h : Compacted c map rows calls (.ok (m, m'))) :
      Ending c union rows (⟨.adapt union, .ok map⟩ :: calls) (extracted c m m')

/-! ## The steps of a run -/

theorem isCall_shareRowsOf (owner : Role) (c : Config) (map : IndexMap) (rows : List Bytes)
    (count : UInt32) :
    IsCall (ε := ε) (shareRowsOf owner c map rows count) (rowsCall c map rows owner count)
      (.dataProcessor (.rows owner)) := by
  by_cases h : owner = c.role
  · have hstep : shareRowsOf (ε := ε) owner c map rows count = (do
        note (.info s!"Begin processing my data ({owner.name})")
        shareOwnRows owner rows map.length) := if_pos h
    have hcall : rowsCall (ε := ε) c map rows owner count =
        fun reply => ⟨.shareOwnRows rows map.length, reply⟩ := funext fun _ => if_pos h
    rw [hstep, hcall]
    exact (isCall_shareOwnRows owner rows map.length).note_bind _
  · have hstep : shareRowsOf (ε := ε) owner c map rows count = (do
        note (.info s!"Begin processing peers data ({owner.name})")
        sharePeerRows owner count map (owner.rowWidth c.conversionsPerUser)) := if_neg h
    have hcall : rowsCall (ε := ε) c map rows owner count =
        fun reply => ⟨.sharePeerRows count map (owner.rowWidth c.conversionsPerUser), reply⟩ :=
      funext fun _ => if_neg h
    rw [hstep, hcall]
    exact (isCall_sharePeerRows owner count map _).note_bind _

theorem ends_checkBatchSizes {map : IndexMap} {publisher partner : RowShares} {entry : LogEntry}
    {calls : List (Call ε)} {o : Outcome (PartyError ε) (RowShares × RowShares)} :
    Ends (do
      checkBatchSize .publisher publisher map.setCount
      checkBatchSize .partner partner map.setCount
      note entry
      return (publisher, partner)) calls o ↔
      calls = [] ∧ o = checkBatchSizes map publisher partner := by
  by_cases hpub : publisher.batchSize = map.setCount
  · by_cases hpar : partner.batchSize = map.setCount
    · rw [checkBatchSize, if_pos hpub, checkBatchSize, if_pos hpar, checkBatchSizes,
        if_neg (Classical.not_not.2 hpub), if_neg (Classical.not_not.2 hpar)]
      exact ends_note_bind.trans ends_pure
    · rw [checkBatchSize, if_pos hpub, checkBatchSize, if_neg hpar, checkBatchSizes,
        if_neg (Classical.not_not.2 hpub), if_pos hpar]
      exact Runs.done_iff
  · rw [checkBatchSize, if_neg hpub, checkBatchSizes, if_pos hpub]
    exact Runs.done_iff

theorem width_ok {role : Role} {n : Nat} (h : role.rowWidth n < UInt64.size) :
    width (ε := ε) role n = ofOutcome (.ok (role.rowWidth n)) := by
  rw [width, Role.width_ok h]
  rfl

theorem width_error {role : Role} {n : Nat} (h : ¬role.rowWidth n < UInt64.size) :
    width (ε := ε) role n = ofOutcome (.error (.fault .sizeOverflow)) := by
  rw [width, Role.width_error h]
  rfl

theorem compact_iff {c : Config} {map : IndexMap} {rows : List Bytes} {calls : List (Call ε)}
    {o : Outcome (PartyError ε) (RowShares × RowShares)} (hrows : rows.length < UInt32.size)
    (hwidth : Role.partner.rowWidth c.conversionsPerUser < UInt64.size) :
    Ends (compact c map rows) calls o ↔ Compacted c map rows calls o := by
  have hpublisher := Role.rowWidth_lt hwidth .publisher
  rw [compact, ends_reporting]
  simp only [ends_note_bind, if_neg (Nat.not_le.2 hrows), width_ok hpublisher, width_ok hwidth]
  simp only [(isCall_shareRowCount _ _).bind_iff, ends_ok_bind, ends_note_bind,
    (isCall_shareRowsOf _ _ _ _ _).bind_iff, ends_checkBatchSizes]
  constructor
  · rintro (⟨e, rfl, rfl⟩ | ⟨i, _, rfl, ⟨e, rfl, rfl⟩ | ⟨j, _, rfl, ⟨e, rfl, rfl⟩ |
      ⟨m, _, rfl, ⟨e, rfl, rfl⟩ | ⟨m', _, rfl, rfl, rfl⟩⟩⟩⟩)
    · exact .publisherCount e
    · exact .partnerCount i e
    · exact .publisherRows i j e
    · exact .partnerRows i j m e
    · exact .shares i j m m'
  · intro h
    cases h with
    | publisherCount e => exact .inl ⟨e, rfl, rfl⟩
    | partnerCount i e => exact .inr ⟨i, _, rfl, .inl ⟨e, rfl, rfl⟩⟩
    | publisherRows i j e => exact .inr ⟨i, _, rfl, .inr ⟨j, _, rfl, .inl ⟨e, rfl, rfl⟩⟩⟩
    | partnerRows i j m e =>
      exact .inr ⟨i, _, rfl, .inr ⟨j, _, rfl, .inr ⟨m, _, rfl, .inl ⟨e, rfl, rfl⟩⟩⟩⟩
    | shares i j m m' =>
      exact .inr ⟨i, _, rfl, .inr ⟨j, _, rfl, .inr ⟨m, _, rfl, .inr ⟨m', [], rfl, rfl, rfl⟩⟩⟩⟩

theorem extractColumns_iff {c : Config} {publisher partner : RowShares} {calls : List (Call ε)}
    {o : Outcome (PartyError ε) ProcessedShares} :
    Ends (extractColumns publisher partner c.conversionsPerUser) calls o ↔
      calls = [] ∧ o = extracted c publisher partner := by
  rw [extractColumns, ends_reporting, ends_note_bind, extracted]
  cases ProcessedShares.extract publisher partner c.conversionsPerUser with
  | ok data => exact ends_note_bind.trans ends_pure
  | error halt => cases halt <;> exact Runs.done_iff

/-- A valid union map is handed to the adapter as it is. -/
theorem isCall_align {union : IndexMap} {count : Nat} (h : union.validate = .ok count) :
    IsCall (ε := ε) (align union) (fun reply => ⟨.adapt union, reply⟩) .adapter := by
  intro calls o
  rw [align, ends_reporting, h]
  exact ends_note_bind.trans (isCall_adapt union calls o)

/-- A malformed union map is not handed to the adapter. -/
theorem ends_align_error {union : IndexMap} {e : IndexMap.Error} (h : union.validate = .error e)
    {calls : List (Call ε)} {o : Outcome (PartyError ε) IndexMap} :
    Ends (align union) calls o ↔ calls = [] ∧ o = .error (.error (.unionMap e)) := by
  rw [align, ends_reporting, h]
  exact Runs.done_iff

/-- Where packing succeeds it goes on with the packed rows. -/
theorem ends_packRows_bind {β : Type} {source : RowSource} {map : IndexMap} {rows : List Bytes}
    (hpack : source.pack map = .ok rows) {layout : List Field}
    (hlabels : ∃ labels, layout.mapM (·.label) = .ok labels) {f : List Bytes → PartyStep ε β}
    {calls : List (Call ε)} {o : Outcome (PartyError ε) β} :
    Ends (packRows source layout map >>= f) calls o ↔ Ends (f rows) calls o := by
  obtain ⟨labels, hlabels⟩ := hlabels
  obtain ⟨order, horder, hrows⟩ := bind_eq_ok.1 hpack
  simp only [packRows, bind_assoc, ends_note_bind, horder, hlabels, Outcome.ofFault, ends_ok_bind,
    hrows, pure_bind]

namespace Party

/-- The union map of a party and its packed rows, where nothing on the way to them can fail. -/
structure Prepares (p : Party) (union : IndexMap) (rows : List Bytes) : Prop where
  validate_ok : ∃ count, union.validate = .ok count
  inverse_ok : ∃ order, union.inverse = .ok order ∧ order.mapM p.source.packRow = .ok rows
  labels_ok : ∃ labels,
    (p.input.role.layout p.config.conversionsPerUser).mapM (·.label) = .ok labels
  rows_lt : rows.length < UInt32.size
  width_lt : Role.partner.rowWidth p.config.conversionsPerUser < UInt64.size

theorem runFrom_iff {p : Party} {union : IndexMap} {rows : List Bytes}
    (h : p.Prepares union rows) {calls : List (Call ε)}
    {o : Outcome (PartyError ε) ProcessedShares} :
    Ends (p.runFrom union) calls o ↔ Ending p.config union rows calls o := by
  obtain ⟨count, hcount⟩ := h.validate_ok
  have hpack : p.source.pack union = .ok rows := bind_eq_ok.2 h.inverse_ok
  rw [runFrom, (isCall_align hcount).bind_iff]
  simp only [ends_packRows_bind hpack h.labels_ok]
  constructor
  · rintro (⟨e, rfl, rfl⟩ | ⟨map, rest, rfl, hrest⟩)
    · exact .adapter e
    · rcases ends_bind.1 hrest with ⟨⟨m, m'⟩, first, second, rfl, hcompact, hextract⟩ |
        ⟨halt, rfl, hcompact⟩
      · obtain ⟨rfl, rfl⟩ := extractColumns_iff.1 hextract
        rw [List.append_nil]
        exact .extract map ((compact_iff h.rows_lt h.width_lt).1 hcompact)
      · exact .compact map ((compact_iff h.rows_lt h.width_lt).1 hcompact)
  · intro hend
    cases hend with
    | adapter e => exact .inl ⟨e, rfl, rfl⟩
    | compact map hcompact =>
      refine .inr ⟨map, _, rfl, ends_bind.2 (.inr ⟨_, rfl, ?_⟩)⟩
      exact (compact_iff h.rows_lt h.width_lt).2 hcompact
    | @extract map calls m m' hcompact =>
      refine .inr ⟨map, calls, rfl,
        ends_bind.2 (.inl ⟨(m, m'), calls, [], (List.append_nil calls).symm, ?_, ?_⟩)⟩
      · exact (compact_iff h.rows_lt h.width_lt).2 hcompact
      · exact extractColumns_iff.2 ⟨rfl, rfl⟩

/-- The union map that a party draws. -/
def drawn (p : Party) (s : WordStream) : IndexMap × WordStream :=
  IndexMap.shuffled p.input.dummyRows s

theorem length_drawn (p : Party) (s : WordStream) :
    (p.drawn s).1.length = p.input.unionSize :=
  IndexMap.length_ofPermutation _ _

/-- The rows of a party in the order of the drawn union map. -/
def packed (p : Party) (s : WordStream) : List Bytes :=
  (IndexMap.realRows p.input.dummyRows (Permutation.random p.input.dummyRows.length s).1).map
    p.source.rowAt

theorem drawn_numbers {p : Party} (h : p.input.unionSize ≤ IndexMap.maxUnion) (s : WordStream) :
    IndexMap.Numbers (p.drawn s).1
      (IndexMap.realRows p.input.dummyRows (Permutation.random p.input.dummyRows.length s).1) :=
  IndexMap.shuffled_numbers h s

theorem prepares {config : Config} {input : LocalInput} {p : Party}
    (hmake : make (ε := ε) config input = .ok p) (hunion : input.unionSize ≤ IndexMap.maxUnion)
    (hwidth : Role.partner.rowWidth config.conversionsPerUser < UInt64.size) (s : WordStream) :
    p.Prepares (p.drawn s).1 (p.packed s) := by
  obtain ⟨-, hinput, rfl, rfl, hsource⟩ := make_inv hmake
  have hnumbers := p.drawn_numbers hunion s
  have hpack := RowSource.pack_numbers hsource hnumbers (p.length_drawn s).le
  refine ⟨⟨_, hnumbers.validate_ok⟩, bind_eq_ok.1 hpack, ?_, ?_, hwidth⟩
  · apply PrivateLift.labels_ok
    exact Role.rowWidth_lt hwidth _
  · have := hnumbers.positions_le
    rw [packed, List.length_map]
    have : IndexMap.maxUnion + 1 < UInt32.size := by decide
    omega

theorem run_iff {p : Party} {s s' : WordStream} {rows : List Bytes}
    (hprepares : p.Prepares (p.drawn s).1 rows)
    (hunion : p.input.unionSize ≤ IndexMap.maxUnion) {calls : List (Call ε)}
    {o : Outcome (PartyError ε) ProcessedShares} :
    Runs (p.run s) calls (o, s') ↔
      Ending p.config (p.drawn s).1 rows calls o ∧ s' = (p.drawn s).2 := by
  have hshuffle : shuffleRows (ε := ε) p.input.dummyRows s = (do
      note (.info "Shuffling input and preparing union map for the adapter")
      ofOutcome (.ok (p.drawn s))) := by
    unfold shuffleRows
    exact if_neg (Nat.not_lt.2 hunion)
  have hreport : ∀ {outcome : Outcome (PartyError ε) ProcessedShares} {stream : WordStream}
      {calls : List (Call ε)} {result : Outcome (PartyError ε) ProcessedShares × WordStream},
      Runs (report outcome >>= fun _ => .done (outcome, stream)) calls result ↔
        calls = [] ∧ result = (outcome, stream) := by
    intro outcome stream calls result
    match outcome with
    | .ok data => exact Runs.done_iff
    | .error (.fault f) => exact Runs.done_iff
    | .error (.error e) => exact Runs.note_iff.trans Runs.done_iff
  have hrun : Runs (p.run s) calls (o, s') ↔
      Runs ((p.runFrom (p.drawn s).1).run >>= fun outcome =>
        report outcome >>= fun _ => .done (outcome, (p.drawn s).2)) calls (o, s') := by
    unfold run
    rw [hshuffle]
    exact Runs.note_iff.trans Runs.note_iff
  rw [hrun, Runs.bind_iff]
  constructor
  · rintro ⟨outcome, first, second, rfl, hfrom, hdone⟩
    obtain ⟨rfl, hresult⟩ := hreport.1 hdone
    cases hresult
    rw [List.append_nil]
    exact ⟨(runFrom_iff hprepares).1 hfrom, rfl⟩
  · rintro ⟨hend, rfl⟩
    exact ⟨o, calls, [], (List.append_nil calls).symm, (runFrom_iff hprepares).2 hend,
      hreport.2 ⟨rfl, rfl⟩⟩

/-- The calls and the end of a run with accepted parameters. -/
theorem process_iff {config : Config} {input : LocalInput} {p : Party} {s : WordStream}
    (hmake : make (ε := ε) config input = .ok p) (hunion : input.unionSize ≤ IndexMap.maxUnion)
    (hwidth : Role.partner.rowWidth config.conversionsPerUser < UInt64.size)
    {calls : List (Call ε)} {o : Outcome (PartyError ε) ProcessedShares} :
    Runs (process config input s) calls o ↔
      Ending config (p.drawn s).1 (p.packed s) calls o := by
  obtain ⟨-, -, rfl, rfl, -⟩ := make_inv hmake
  have hprepares := prepares hmake hunion hwidth s
  rw [process, hmake]
  constructor
  · intro h
    obtain ⟨⟨o', s'⟩, first, second, rfl, hrun, hdone⟩ := Runs.bind_iff.1 h
    obtain ⟨rfl, rfl⟩ := Runs.done_iff.1 hdone
    rw [List.append_nil]
    exact ((run_iff hprepares hunion).1 hrun).1
  · intro h
    exact Runs.bind_iff.2 ⟨(o, (p.drawn s).2), calls, [], (List.append_nil calls).symm,
      (run_iff hprepares hunion).2 ⟨h, rfl⟩, .done _⟩

end Party

end PrivateLift
