import PrivateLift.Proofs.Party.Ending

/-!
# A run against arbitrary collaborators

The behaviour of the collaborators is a function from the calls made so far to the next answer, so
it covers maps of any length and values, shares of any dimensions and a failure of any call. Against
every behaviour the run of a party whose parameters have been accepted ends without a fault, and its
outcome is one that `Promised` allows: data of the shape of the returned intersection map, the error
of the last call, or shares of the wrong dimensions (`run_promised`).
-/

namespace PrivateLift

variable {ε α : Type}

open PartyStep

/-- The answer to a request after the calls made so far. -/
abbrev Behaviour (ε : Type) := List (Call ε) → (q : PartyQuery) → q.Reply ε

/-- Collaborators that give the same answers at any time: the adapter's depend on the union map, the
data processor's on the request only. -/
def Behaviour.steady (intersection : IndexMap → Except ε IndexMap) (count : Except ε UInt32)
    (ownRows peerRows : Except ε RowShares) : Behaviour ε
  | _, .note _ => ()
  | _, .adapt union => intersection union
  | _, .shareRowCount _ _ => count
  | _, .shareOwnRows _ _ => ownRows
  | _, .sharePeerRows _ _ _ => peerRows

/-- The calls and the result of a program against a behaviour, where some calls have been made. -/
def Program.play (behaviour : Behaviour ε) :
    Program PartyQuery (PartyQuery.Reply ε) α → (past : List (Call ε)) → List (Call ε) × α
  | .done a, past => (past, a)
  | .ask q next, past =>
    let reply := behaviour past q
    (next reply).play behaviour (if q.isNote then past else past ++ [⟨q, reply⟩])

/-- Against a behaviour a program makes calls and ends. -/
theorem runs_play (behaviour : Behaviour ε) (p : Program PartyQuery (PartyQuery.Reply ε) α)
    (past : List (Call ε)) :
    ∃ calls, (p.play behaviour past).1 = past ++ calls ∧ Runs p calls (p.play behaviour past).2 := by
  induction p generalizing past with
  | done a => exact ⟨[], (List.append_nil past).symm, .done a⟩
  | ask q next ih =>
    cases hq : q.isNote with
    | true =>
      cases q with
      | note entry =>
        obtain ⟨calls, hcalls, hruns⟩ := ih () past
        exact ⟨calls, hcalls, .note hruns⟩
      | _ => cases hq
    | false =>
      obtain ⟨calls, hcalls, hruns⟩ := ih (behaviour past q) (past ++ [⟨q, behaviour past q⟩])
      simp only [Program.play, hq, Bool.false_eq_true, if_false]
      refine ⟨⟨q, behaviour past q⟩ :: calls, ?_, .call hq _ hruns⟩
      rw [hcalls, List.append_assoc]
      rfl

/-! ## Promised outcomes -/

/-- The error that a party of the given role makes of a failed call: it carries the collaborator's
own error. -/
def Call.failure? (role : Role) : Call ε → Option (PartyError ε)
  | ⟨.adapt _, .error e⟩ => some (.adapter e)
  | ⟨.shareRowCount owner _, .error e⟩ => some (.dataProcessor (.rowCount owner) e)
  | ⟨.shareOwnRows _ _, .error e⟩ => some (.dataProcessor (.rows role) e)
  | ⟨.sharePeerRows _ _ _, .error e⟩ => some (.dataProcessor (.rows role.peer) e)
  | _ => none

/-- What a run with the given calls may end with. The data has as many rows as the returned
intersection map sets; an error comes from the last call or reports the shape of shares. -/
def Promised (c : Config) (calls : List (Call ε)) :
    Outcome (PartyError ε) ProcessedShares → Prop
  | .ok data =>
    (∃ union map, ⟨.adapt union, .ok map⟩ ∈ calls) ∧
      (∀ union map, ⟨.adapt union, .ok map⟩ ∈ calls → data.rowCount = map.setCount) ∧
      data.columns.HasShape data.rowCount c.conversionsPerUser
  | .error (.fault _) => False
  | .error (.error e) =>
    (∃ call, calls.getLast? = some call ∧ call.failure? c.role = some e) ∨ ∃ m, e = .shares m

theorem failure?_rowsCall {c : Config} {map : IndexMap} {rows : List Bytes} {owner : Role}
    {count : UInt32} (e : ε) : Call.failure? c.role (rowsCall c map rows owner count (.error e)) =
      some (.dataProcessor (.rows owner) e) := by
  by_cases h : owner = c.role
  · rw [rowsCall, if_pos h, Call.failure?, h]
  · have hpeer : c.role.peer = owner := by
      cases hrole : c.role <;> cases owner <;> simp_all [Role.peer]
    rw [rowsCall, if_neg h, Call.failure?, hpeer]

theorem checkBatchSizes_eq_ok_iff {map : IndexMap} {publisher partner : RowShares}
    {shares : RowShares × RowShares} :
    checkBatchSizes (ε := ε) map publisher partner = .ok shares ↔
      publisher.batchSize = map.setCount ∧ partner.batchSize = map.setCount ∧
        shares = (publisher, partner) := by
  rw [checkBatchSizes]
  by_cases hpub : publisher.batchSize = map.setCount
  · by_cases hpar : partner.batchSize = map.setCount
    · simp [hpub, hpar, eq_comm]
    · simp [hpub, hpar]
  · simp [hpub]

theorem checkBatchSizes_error {map : IndexMap} {publisher partner : RowShares}
    {halt : Halt (PartyError ε)} (h : checkBatchSizes map publisher partner = .error halt) :
    ∃ m, halt = .error (.shares m) := by
  rw [checkBatchSizes] at h
  split at h
  · cases h
    exact ⟨_, rfl⟩
  · split at h
    · cases h
      exact ⟨_, rfl⟩
    · cases h

namespace Compacted

variable {c : Config} {map : IndexMap} {rows : List Bytes} {calls : List (Call ε)}

/-- The sharing steps only succeed if all calls do, with shares of the expected number of rows. -/
theorem ok_inv {m m' : RowShares} (h : Compacted c map rows calls (.ok (m, m'))) :
    m.batchSize = map.setCount ∧ m'.batchSize = map.setCount ∧
      ∃ i j, calls = [countCall c rows .publisher (.ok i), countCall c rows .partner (.ok j),
        rowsCall c map rows .publisher i (.ok m), rowsCall c map rows .partner j (.ok m')] := by
  generalize ho : (.ok (m, m') : Outcome (PartyError ε) (RowShares × RowShares)) = o at h
  cases h with
  | shares i j n n' =>
    obtain ⟨hm, hm', heq⟩ := checkBatchSizes_eq_ok_iff.1 ho.symm
    cases heq
    exact ⟨hm, hm', i, j, rfl⟩
  | _ => cases ho

theorem error_inv {halt : Halt (PartyError ε)} (h : Compacted c map rows calls (.error halt)) :
    (∃ call e, calls.getLast? = some call ∧ call.failure? c.role = some e ∧ halt = .error e) ∨
      ∃ m, halt = .error (.shares m) := by
  generalize ho : (.error halt : Outcome (PartyError ε) (RowShares × RowShares)) = o at h
  cases h with
  | publisherCount e | partnerCount i e =>
    cases ho
    exact .inl ⟨_, _, rfl, rfl, rfl⟩
  | publisherRows i j e | partnerRows i j m e =>
    cases ho
    exact .inl ⟨_, _, rfl, failure?_rowsCall e, rfl⟩
  | shares i j n n' => exact .inr (checkBatchSizes_error ho.symm)

theorem ne_nil {o : Outcome (PartyError ε) (RowShares × RowShares)}
    (h : Compacted c map rows calls o) : calls ≠ [] := by
  cases h <;> exact List.cons_ne_nil _ _

theorem adapt_notMem {o : Outcome (PartyError ε) (RowShares × RowShares)}
    (h : Compacted c map rows calls o) {union : IndexMap} {reply : Except ε IndexMap} :
    (⟨.adapt union, reply⟩ : Call ε) ∉ calls := by
  have hrows : ∀ owner count (shares : Except ε RowShares),
      (⟨.adapt union, reply⟩ : Call ε) ≠ rowsCall c map rows owner count shares := by
    intro owner count shares heq
    rw [rowsCall] at heq
    split at heq <;> cases heq
  cases h <;> simp [countCall, hrows]

end Compacted

theorem Ending.promised {c : Config} {union : IndexMap} {rows : List Bytes}
    {calls : List (Call ε)} {o : Outcome (PartyError ε) ProcessedShares}
    (hsize : 8 * Role.partner.rowWidth c.conversionsPerUser < UInt64.size)
    (h : Ending c union rows calls o) : Promised c calls o := by
  cases h with
  | adapter e => exact .inl ⟨_, rfl, rfl⟩
  | @compact map calls halt hcompact =>
    rcases hcompact.error_inv with ⟨call, e, hlast, hfailure, rfl⟩ | ⟨m, rfl⟩
    · refine .inl ⟨call, ?_, hfailure⟩
      rw [List.getLast?_cons_of_ne_nil hcompact.ne_nil]
      exact hlast
    · exact .inr ⟨m, rfl⟩
  | @extract map calls m m' hcompact =>
    obtain ⟨hm, hm', -⟩ := hcompact.ok_inv
    rw [extracted, ProcessedShares.extract_eq m m' hsize]
    by_cases hpub : m.rowBits = 8 * Role.publisher.rowWidth c.conversionsPerUser
    · by_cases hpar : m'.rowBits = 8 * Role.partner.rowWidth c.conversionsPerUser
      · have hcount : m'.batchSize = m.batchSize := hm'.trans hm.symm
        simp only [hpub, hpar, hcount, ne_eq, not_true, if_false]
        refine ⟨⟨union, map, List.mem_cons_self⟩, ?_,
          ProcessedShares.hasShape_ofShares hcount _⟩
        intro union' map' hmem
        rcases List.mem_cons.1 hmem with heq | hmem
        · cases heq
          exact hm
        · exact absurd hmem hcompact.adapt_notMem
      · simp only [hpub, hpar, ne_eq, not_true, not_false_eq_true, if_false, if_true]
        exact .inr ⟨_, rfl⟩
    · simp only [hpub, ne_eq, not_false_eq_true, if_true]
      exact .inr ⟨_, rfl⟩

namespace Party

/-- Whatever the collaborators do, a party whose parameters have been accepted ends without a fault
and with a promised outcome. -/
theorem run_promised {config : Config} {input : LocalInput} {p : Party}
    (hmake : make (ε := ε) config input = .ok p) (hunion : input.unionSize ≤ IndexMap.maxUnion)
    (hsize : 8 * Role.partner.rowWidth config.conversionsPerUser < UInt64.size) (s : WordStream)
    (behaviour : Behaviour ε) :
    Promised config ((p.run s).play behaviour []).1 ((p.run s).play behaviour []).2.1 := by
  obtain ⟨-, -, rfl, rfl, -⟩ := make_inv hmake
  have hprepares := prepares hmake hunion (by omega) s
  obtain ⟨calls, hcalls, hruns⟩ := runs_play behaviour (p.run s) []
  rw [List.nil_append] at hcalls
  rw [hcalls]
  exact ((run_iff hprepares hunion).1 hruns).1.promised hsize

/-- A publisher with one row, whose adapter returns the union map. One data processor fails at the
rows of the partner, another one returns shares of one row for both parties. -/
theorem run_promised_one_row :
    ∃ p : Party,
      make (ε := String) ⟨.publisher, 1, 10⟩ (.publisher { dummyRows := [false] }) = .ok p ∧
      (LocalInput.publisher { dummyRows := [false] }).unionSize ≤ IndexMap.maxUnion ∧
      8 * Role.partner.rowWidth 1 < UInt64.size ∧
      let failing : Behaviour String :=
        .steady .ok (.ok 0) (.ok default) (.error "connection lost")
      let sharing : Behaviour String :=
        .steady .ok (.ok 0) (.ok ⟨⟨40, 1, .replicate 96 0⟩⟩) (.ok ⟨⟨200, 1, .replicate 416 0⟩⟩)
      let failed := (p.run (.cyclic #[0])).play failing []
      let shared := (p.run (.cyclic #[0])).play sharing []
      Promised ⟨.publisher, 1, 10⟩ failed.1 failed.2.1 ∧
        failed.2.1 = .error (.error (.dataProcessor (.rows .partner) "connection lost")) ∧
        Promised ⟨.publisher, 1, 10⟩ shared.1 shared.2.1 ∧
        shared.2.1.map (·.rowCount) = .ok 1 := by
  have hmake : make (ε := String) ⟨.publisher, 1, 10⟩ (.publisher { dummyRows := [false] }) =
      .ok ⟨⟨.publisher, 1, 10⟩, .publisher { dummyRows := [false] },
        .publisher (.ofInput { dummyRows := [false] })⟩ := rfl
  have hpromised := run_promised hmake (by decide) (by decide) (.cyclic #[0])
  refine ⟨_, hmake, by decide, by decide, ?_⟩
  intro failing sharing failed shared
  refine ⟨hpromised failing, rfl, ?_, by decide +kernel⟩
  -- The run need not be evaluated for this.
  clear_value sharing
  exact hpromised sharing

end Party

end PrivateLift
