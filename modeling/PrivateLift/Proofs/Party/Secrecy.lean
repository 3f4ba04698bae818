import PrivateLift.Proofs.Party.Safety

/-!
# The content of rows stays hidden

Two programs are **twins** (`Program.Twin`) if they make the same requests whatever the answers are,
where the rows that they hand over only have to agree in number and lengths. Log entries are
requests, so twins write the same log. Against collaborators that do not look into the rows
(`Behaviour.Blind`) the transcripts of twins are equal once the rows are blanked
(`Program.Twin.transcript`).

Twins are composed step by step like programs. In the run of a party the input enters at one step
only, where the rows are packed; packing takes the same path for all inputs with the same dummy
flags, and what it returns has the same lengths. So the runs on two such inputs are twins
(`Party.twin_run`), and `Party.run_blind` says what this means for the surroundings.
-/

namespace PrivateLift

variable {ε α β γ δ : Type}

/-! ## Transcripts -/

/-- The requests of a program with the answers of a behaviour, log entries included, and its result,
where some calls have been made. -/
def Program.transcript (behaviour : Behaviour ε) :
    Program PartyQuery (PartyQuery.Reply ε) α → (past : List (Call ε)) → List (Call ε) × α
  | .done a, _ => ([], a)
  | .ask q next, past =>
    let reply := behaviour past q
    let rest := (next reply).transcript behaviour (if q.isNote then past else past ++ [⟨q, reply⟩])
    (⟨q, reply⟩ :: rest.1, rest.2)

/-- Rows of the same lengths without content. -/
def blankRows (rows : List Bytes) : List Bytes :=
  (rows.map List.length).map fun length => List.replicate length 0

namespace Call

/-- A call with blank rows in place of the rows that it hands over. -/
def redact : Call ε → Call ε
  | ⟨.shareOwnRows rows size, reply⟩ => ⟨.shareOwnRows (blankRows rows) size, reply⟩
  | call => call

def entry? : Call ε → Option LogEntry
  | ⟨.note entry, _⟩ => some entry
  | _ => none

theorem entry?_redact (call : Call ε) : call.redact.entry? = call.entry? := by
  obtain ⟨q, reply⟩ := call
  cases q <;> rfl

theorem redact_shareOwnRows {rows rows' : List Bytes}
    (h : rows.map List.length = rows'.map List.length) (size : Nat) (reply : Except ε RowShares) :
    redact ⟨.shareOwnRows rows size, reply⟩ = redact ⟨.shareOwnRows rows' size, reply⟩ := by
  have hblank : blankRows rows = blankRows rows' := by rw [blankRows, blankRows, h]
  rw [redact, redact, hblank]

end Call

def logEntries (transcript : List (Call ε)) : List LogEntry := transcript.filterMap Call.entry?

theorem logEntries_redact (transcript : List (Call ε)) :
    logEntries (transcript.map Call.redact) = logEntries transcript := by
  rw [logEntries, List.filterMap_map]
  exact congrArg (transcript.filterMap ·) (funext Call.entry?_redact)

/-- The answers do not depend on the content of the rows that are or have been handed over. -/
structure Behaviour.Blind (behaviour : Behaviour ε) : Prop where
  past : ∀ past past' q, past.map Call.redact = past'.map Call.redact →
    behaviour past q = behaviour past' q
  rows : ∀ past rows rows' size, rows.map List.length = rows'.map List.length →
    behaviour past (.shareOwnRows rows size) = behaviour past (.shareOwnRows rows' size)

theorem Behaviour.blind_steady (intersection : IndexMap → Except ε IndexMap)
    (count : Except ε UInt32) (ownRows peerRows : Except ε RowShares) :
    (steady intersection count ownRows peerRows).Blind := by
  refine ⟨fun past past' q _ => ?_, fun _ _ _ _ _ => rfl⟩
  cases q <;> rfl

/-! ## Twins -/

namespace Program

/-- The programs make the same requests up to the content of rows, and their results are related. -/
inductive Twin (R : α → β → Prop) : Program PartyQuery (PartyQuery.Reply ε) α →
    Program PartyQuery (PartyQuery.Reply ε) β → Prop where
  | done {a : α} {b : β} (h : R a b) : Twin R (.done a) (.done b)
  | ask (q : PartyQuery) {next : q.Reply ε → Program PartyQuery (PartyQuery.Reply ε) α}
      {next' : q.Reply ε → Program PartyQuery (PartyQuery.Reply ε) β}
      (rest : ∀ reply, Twin R (next reply) (next' reply)) : Twin R (.ask q next) (.ask q next')
  | rows {rows rows' : List Bytes} (h : rows.map List.length = rows'.map List.length) (size : Nat)
      {next : Except ε RowShares → Program PartyQuery (PartyQuery.Reply ε) α}
      {next' : Except ε RowShares → Program PartyQuery (PartyQuery.Reply ε) β}
      (rest : ∀ reply, Twin R (next reply) (next' reply)) :
      Twin R (.ask (.shareOwnRows rows size) next) (.ask (.shareOwnRows rows' size) next')

namespace Twin

variable {R : α → β → Prop} {S : γ → δ → Prop} {p : Program PartyQuery (PartyQuery.Reply ε) α}
  {p' : Program PartyQuery (PartyQuery.Reply ε) β}

theorem refl {R : α → α → Prop} (h : ∀ a, R a a) (p : Program PartyQuery (PartyQuery.Reply ε) α) :
    Twin R p p := by
  induction p with
  | done a => exact .done (h a)
  | ask q next ih => exact .ask q ih

theorem bind {f : α → Program PartyQuery (PartyQuery.Reply ε) γ}
    {f' : β → Program PartyQuery (PartyQuery.Reply ε) δ} (h : Twin R p p')
    (hf : ∀ a b, R a b → Twin S (f a) (f' b)) : Twin S (p >>= f) (p' >>= f') := by
  induction h with
  | done h => exact hf _ _ h
  | ask q _ ih => exact .ask q ih
  | rows h size _ ih => exact .rows h size ih

/-- Blind collaborators see twins do the same. -/
theorem transcript {behaviour : Behaviour ε} (hblind : behaviour.Blind) (h : Twin R p p')
    {past past' : List (Call ε)} (hpast : past.map Call.redact = past'.map Call.redact) :
    (p.transcript behaviour past).1.map Call.redact =
        (p'.transcript behaviour past').1.map Call.redact ∧
      R (p.transcript behaviour past).2 (p'.transcript behaviour past').2 := by
  induction h generalizing past past' with
  | done h => exact ⟨rfl, h⟩
  | ask q _ ih =>
    have hreply := hblind.past past past' q hpast
    have hnext : (if q.isNote then past else past ++ [⟨q, behaviour past q⟩]).map Call.redact =
        (if q.isNote then past' else past' ++ [⟨q, behaviour past' q⟩]).map Call.redact := by
      split
      · exact hpast
      · rw [List.map_append, List.map_append, hpast, hreply]
    obtain ⟨hcalls, hresult⟩ := ih (behaviour past q) hnext
    simp only [Program.transcript, List.map_cons, ← hreply]
    rw [← hreply] at hcalls hresult
    exact ⟨congrArg _ hcalls, hresult⟩
  | @rows rows rows' h size _ _ _ ih =>
    have hreply : behaviour past (.shareOwnRows rows size) =
        behaviour past' (.shareOwnRows rows' size) :=
      (hblind.rows past rows rows' size h).trans (hblind.past past past' _ hpast)
    have hcall := Call.redact_shareOwnRows h size (behaviour past (.shareOwnRows rows size))
    have hnext : ∀ reply : Except ε RowShares,
        (past ++ [(⟨.shareOwnRows rows size, reply⟩ : Call ε)]).map Call.redact =
          (past' ++ [(⟨.shareOwnRows rows' size, reply⟩ : Call ε)]).map Call.redact := by
      intro reply
      rw [List.map_append, List.map_append, hpast, List.map_singleton, List.map_singleton,
        Call.redact_shareOwnRows h]
    obtain ⟨hcalls, hresult⟩ := ih (behaviour past (.shareOwnRows rows size)) (hnext _)
    simp only [Program.transcript, PartyQuery.isNote, List.map_cons, ← hreply, hcall]
    exact ⟨congrArg _ hcalls, hresult⟩

end Twin

end Program

/-! ## Twin steps -/

/-- The outcomes are related results or the same halt. -/
inductive Outcome.Alike (R : α → β → Prop) :
    Outcome (PartyError ε) α → Outcome (PartyError ε) β → Prop where
  | ok {a : α} {b : β} (h : R a b) : Alike R (.ok a) (.ok b)
  | error (halt : Halt (PartyError ε)) : Alike R (.error halt) (.error halt)

theorem Outcome.Alike.refl : ∀ o : Outcome (PartyError ε) α, Alike Eq o o
  | .ok _ => .ok rfl
  | .error halt => .error halt

theorem Outcome.Alike.eq {o o' : Outcome (PartyError ε) α} (h : Alike Eq o o') : o = o' := by
  cases h with
  | ok h => rw [h]
  | error halt => rfl

namespace PartyStep

/-- The steps make the same requests up to the content of rows and have alike outcomes. -/
def Twin (R : α → β → Prop) (x : PartyStep ε α) (x' : PartyStep ε β) : Prop :=
  Program.Twin (Outcome.Alike R) x.run x'.run

theorem Twin.pure {R : α → β → Prop} {a : α} {b : β} (h : R a b) :
    Twin (ε := ε) R (Pure.pure a) (Pure.pure b) := .done (.ok h)

theorem Twin.ok {R : α → β → Prop} {a : α} {b : β} (h : R a b) :
    Twin (ε := ε) R (ofOutcome (.ok a)) (ofOutcome (.ok b)) := .done (.ok h)

theorem Twin.bind {R : α → β → Prop} {S : γ → δ → Prop} {x : PartyStep ε α} {x' : PartyStep ε β}
    {f : α → PartyStep ε γ} {f' : β → PartyStep ε δ} (h : Twin R x x')
    (hf : ∀ a b, R a b → Twin S (f a) (f' b)) : Twin S (x >>= f) (x' >>= f') := by
  refine Program.Twin.bind h ?_
  rintro _ _ (h | halt)
  · exact hf _ _ h
  · exact .done (.error halt)

theorem Twin.refl (x : PartyStep ε α) : Twin Eq x x := Program.Twin.refl Outcome.Alike.refl x.run

theorem Twin.andThen {S : γ → δ → Prop} {x x' : PartyStep ε α} {f : α → PartyStep ε γ}
    {f' : α → PartyStep ε δ} (h : Twin Eq x x') (hf : ∀ a, Twin S (f a) (f' a)) :
    Twin S (x >>= f) (x' >>= f') := by
  refine h.bind ?_
  rintro a _ rfl
  exact hf a

theorem Twin.next {S : γ → δ → Prop} (x : PartyStep ε α) {f : α → PartyStep ε γ}
    {f' : α → PartyStep ε δ} (hf : ∀ a, Twin S (f a) (f' a)) : Twin S (x >>= f) (x >>= f') :=
  (refl x).andThen hf

theorem twin_report {R : α → β → Prop} {o : Outcome (PartyError ε) α}
    {o' : Outcome (PartyError ε) β} (h : Outcome.Alike R o o') :
    Program.Twin Eq (report o) (report o') := by
  cases h with
  | ok h => exact .done rfl
  | error halt =>
    cases halt with
    | fault f => exact .done rfl
    | error e => exact .ask _ fun _ => .done rfl

theorem Twin.reporting {R : α → β → Prop} {x : PartyStep ε α} {x' : PartyStep ε β}
    (h : Twin R x x') : Twin R (PartyStep.reporting x) (PartyStep.reporting x') := by
  refine Program.Twin.bind h fun o o' ho => ?_
  exact (twin_report ho).bind fun _ _ _ => .done ho

end PartyStep

open PartyStep

def SameLengths (rows rows' : List Bytes) : Prop := rows.map List.length = rows'.map List.length

theorem SameLengths.length_eq {rows rows' : List Bytes} (h : SameLengths rows rows') :
    rows.length = rows'.length := by
  simpa using congrArg List.length h

section Steps

variable {rows rows' : List Bytes}

theorem twin_shareRowsOf (h : SameLengths rows rows') (owner : Role) (c : Config) (map : IndexMap)
    (count : UInt32) :
    Twin (ε := ε) Eq (shareRowsOf owner c map rows count)
      (shareRowsOf owner c map rows' count) := by
  by_cases howner : owner = c.role
  · rw [shareRowsOf, if_pos howner, shareRowsOf, if_pos howner]
    exact .next _ fun _ => .rows h _ fun _ => .done (.refl _)
  · rw [shareRowsOf, if_neg howner, shareRowsOf, if_neg howner]
    exact .refl _

theorem twin_compact (h : SameLengths rows rows') (c : Config) (map : IndexMap) :
    Twin (ε := ε) Eq (compact c map rows) (compact c map rows') := by
  rw [compact, compact, h.length_eq]
  refine .reporting (.next _ fun _ => ?_)
  by_cases hmany : rows'.length ≥ UInt32.size
  · simp only [if_pos hmany]
    exact .done (.error _)
  · simp only [if_neg hmany]
    -- The counts, the widths and three log entries come before the rows.
    refine .next _ fun i => .next _ fun j => .next _ fun _ => .next _ fun _ => .next _ fun _ =>
      .next _ fun _ => .next _ fun _ => ?_
    exact (twin_shareRowsOf h .publisher c map i).andThen fun _ =>
      (twin_shareRowsOf h .partner c map j).andThen fun _ => .refl _

/-- A shuffle has one result, and only in a union that a map can index. -/
theorem twin_shuffleRows (dummyRows : List Bool) (s : WordStream) :
    Twin (ε := ε) (fun drawn drawn' => drawn = drawn' ∧ drawn = IndexMap.shuffled dummyRows s ∧
        dummyRows.length ≤ IndexMap.maxUnion)
      (shuffleRows dummyRows s) (shuffleRows dummyRows s) := by
  rw [shuffleRows]
  by_cases hmany : dummyRows.length > IndexMap.maxUnion
  · rw [if_pos hmany]
    exact .done (.error _)
  · rw [if_neg hmany]
    exact .next _ fun _ => .pure ⟨rfl, rfl, Nat.le_of_not_lt hmany⟩

theorem twin_packRows {source source' : RowSource} {union : IndexMap} {order : List Nat}
    (hinverse : union.inverse = .ok order) (hrole : source.role = source'.role)
    (hwidth : source.rowWidth = source'.rowWidth)
    (hrows : ∀ i ∈ order, source.packRow i = .ok (source.rowAt i) ∧
      source'.packRow i = .ok (source'.rowAt i) ∧
      (source.rowAt i).length = (source'.rowAt i).length) (layout : List Field) :
    Twin (ε := ε) SameLengths (packRows source layout union) (packRows source' layout union) := by
  have hpack : order.mapM source.packRow = .ok (order.map source.rowAt) :=
    mapM_map_ok fun i hi => (hrows i hi).1
  have hpack' : order.mapM source'.packRow = .ok (order.map source'.rowAt) :=
    mapM_map_ok fun i hi => (hrows i hi).2.1
  have hlengths : SameLengths (order.map source.rowAt) (order.map source'.rowAt) := by
    rw [SameLengths, List.map_map, List.map_map]
    exact List.map_congr_left fun i hi => (hrows i hi).2.2
  rw [packRows, packRows, hinverse, hrole, hwidth]
  refine .next _ fun _ => (Twin.ok (R := fun o o' => o = order ∧ o' = order) ⟨rfl, rfl⟩).bind ?_
  rintro _ _ ⟨rfl, rfl⟩
  rw [hpack, hpack']
  refine .next _ fun labels => .next _ fun _ => (Twin.ok hlengths).bind ?_
  intro rows rows' h
  rw [h.length_eq]
  exact .next _ fun _ => .pure h

end Steps

namespace Party

section Runs

variable {config : Config} {input input' : LocalInput} {p p' : Party}

theorem twin_runFrom (hmake : make (ε := ε) config input = .ok p)
    (hmake' : make (ε := ε) config input' = .ok p') (hdummies : input.dummyRows = input'.dummyRows)
    (hunion : input.unionSize ≤ IndexMap.maxUnion) (s : WordStream) :
    PartyStep.Twin (ε := ε) Eq (p.runFrom (p.drawn s).1) (p'.runFrom (p.drawn s).1) := by
  obtain ⟨-, hvalid, rfl, rfl, hsource⟩ := make_inv hmake
  obtain ⟨-, hvalid', hconfig, rfl, hsource'⟩ := make_inv hmake'
  have hrole : p.input.role = p'.input.role :=
    (LocalInput.role_of_validate hvalid).trans (LocalInput.role_of_validate hvalid').symm
  obtain ⟨hsourceRole, hwidth⟩ := RowSource.ofInput_inv hsource
  obtain ⟨hsourceRole', hwidth'⟩ := RowSource.ofInput_inv hsource'
  have hrows : ∀ i ∈ IndexMap.realRows p.input.dummyRows
      (Permutation.random p.input.dummyRows.length s).1,
      p.source.packRow i = .ok (p.source.rowAt i) ∧ p'.source.packRow i = .ok (p'.source.rowAt i) ∧
        (p.source.rowAt i).length = (p'.source.rowAt i).length := by
    intro i hi
    have hlt : i < p.input.unionSize :=
      ((IndexMap.mem_realRows (Permutation.random_perm _ s)).1 hi).1
    have hlt' : i < p'.input.unionSize := by rwa [LocalInput.unionSize, ← hdummies]
    obtain ⟨hpack, hlen⟩ := RowSource.packRow_ok hsource hlt
    obtain ⟨hpack', hlen'⟩ := RowSource.packRow_ok hsource' hlt'
    exact ⟨hpack, hpack', by rw [hlen, hlen', hrole]⟩
  rw [runFrom, runFrom, hconfig, ← hrole]
  refine .next _ fun map => ?_
  refine (twin_packRows (p.drawn_numbers hunion s).inverse_ok
    (hsourceRole.trans (hrole.trans hsourceRole'.symm)) (by rw [hwidth, hwidth', hrole]) hrows
    _).bind fun rows rows' hlengths => ?_
  exact (twin_compact hlengths _ map).andThen fun _ => .refl _

theorem twin_run (hmake : make (ε := ε) config input = .ok p)
    (hmake' : make (ε := ε) config input' = .ok p') (hdummies : input.dummyRows = input'.dummyRows)
    (s : WordStream) : Program.Twin (ε := ε) Eq (p.run s) (p'.run s) := by
  have hinput : p.input = input := (make_inv hmake).2.2.2.1
  have hinput' : p'.input = input' := (make_inv hmake').2.2.2.1
  rw [run, run, hinput, hinput', LocalInput.unionSize, LocalInput.unionSize, LocalInput.dummyCount,
    LocalInput.dummyCount, ← hdummies]
  refine .bind (R := Eq) (.refl (fun _ => rfl) _) fun _ _ _ =>
    .bind (twin_shuffleRows input.dummyRows s) ?_
  rintro _ _ (⟨rfl, rfl, hunion⟩ | halt)
  · have hfrom := twin_runFrom hmake hmake' hdummies hunion s
    rw [drawn, hinput] at hfrom
    have hrun : Program.Twin (Outcome.Alike Eq)
        (p.runFrom (IndexMap.shuffled input.dummyRows s).1).run
        (p'.runFrom (IndexMap.shuffled input.dummyRows s).1).run := hfrom
    refine hrun.bind fun o o' ho => ?_
    obtain rfl := ho.eq
    exact .refl (fun _ => rfl) _
  · exact .refl (fun _ => rfl) _

/-- Of the input only the dummy flags influence a run, apart from the content of the rows that are
handed over. Against collaborators that do not look into them, two inputs with the same dummy flags
give the same requests and the same answers in the same order up to this content, the same log, the
same outcome and the same rest of the random words. -/
theorem run_blind (hmake : make (ε := ε) config input = .ok p)
    (hmake' : make (ε := ε) config input' = .ok p') (hdummies : input.dummyRows = input'.dummyRows)
    (s : WordStream) {behaviour : Behaviour ε} (hblind : behaviour.Blind) :
    let run := (p.run s).transcript behaviour []
    let run' := (p'.run s).transcript behaviour []
    run.1.map Call.redact = run'.1.map Call.redact ∧ logEntries run.1 = logEntries run'.1 ∧
      run.2 = run'.2 := by
  intro run run'
  obtain ⟨hcalls, hresult⟩ : run.1.map Call.redact = run'.1.map Call.redact ∧ run.2 = run'.2 :=
    (twin_run hmake hmake' hdummies s).transcript hblind rfl
  refine ⟨hcalls, ?_, hresult⟩
  rw [← logEntries_redact, hcalls, logEntries_redact]

end Runs

/-- Two publishers with one row, one of them with an opportunity in the control population, and
collaborators that fail at the rows of the partner. -/
theorem run_blind_two_publishers :
    ∃ p p' : Party,
      make (ε := String) ⟨.publisher, 1, 10⟩
        (.publisher { opportunityTimestamps := [7], dummyRows := [false] }) = .ok p ∧
      make (ε := String) ⟨.publisher, 1, 10⟩ (.publisher
        { opportunityTimestamps := [9], controlPopulation := [true], dummyRows := [false] }) =
          .ok p' ∧
      p.packed (.cyclic #[0]) = [[0, 7, 0, 0, 0]] ∧ p'.packed (.cyclic #[0]) = [[6, 9, 0, 0, 0]] ∧
      let behaviour : Behaviour String :=
        .steady .ok (.ok 0) (.ok default) (.error "connection lost")
      let run := (p.run (.cyclic #[0])).transcript behaviour []
      let run' := (p'.run (.cyclic #[0])).transcript behaviour []
      behaviour.Blind ∧ run.1.map Call.redact = run'.1.map Call.redact ∧
        logEntries run.1 = logEntries run'.1 ∧ run.2 = run'.2 := by
  have hmake : make (ε := String) ⟨.publisher, 1, 10⟩
      (.publisher { opportunityTimestamps := [7], dummyRows := [false] }) =
      .ok ⟨⟨.publisher, 1, 10⟩, _,
        .publisher (.ofInput { opportunityTimestamps := [7], dummyRows := [false] })⟩ := rfl
  have hmake' : make (ε := String) ⟨.publisher, 1, 10⟩ (.publisher
      { opportunityTimestamps := [9], controlPopulation := [true], dummyRows := [false] }) =
      .ok ⟨⟨.publisher, 1, 10⟩, _, .publisher (.ofInput
        { opportunityTimestamps := [9], controlPopulation := [true], dummyRows := [false] })⟩ := rfl
  have hblind := Behaviour.blind_steady (ε := String) .ok (.ok 0) (.ok default)
    (.error "connection lost")
  exact ⟨_, _, hmake, hmake', by decide, by decide, hblind,
    run_blind hmake hmake' rfl (.cyclic #[0]) hblind⟩

end Party

end PrivateLift
