import PrivateLift.Proofs.Party.Safety

/-!
# The parties have their rows shared in turn

Both roles go through the same four steps: the two counts and then the two lists of rows, the
publisher's first each time. What a role asks for in a step depends on whether the rows are its own
(`sharingPlan`). Against every data processor a party follows the plan up to its first failing call,
and what it ends with is told by the calls (`SharesInTurn`). So the calls of a publisher and of a
partner concern the same rows at every point (`compact_inTurn`): neither waits in one step for a
party that is in another.
-/

namespace PrivateLift

variable {ε : Type}

open PartyStep

/-! ## The plan -/

/-- The request to share the row count of `owner`: only the owner knows the count. -/
def countQuery (c : Config) (rows : List Bytes) (owner : Role) : PartyQuery :=
  .shareRowCount owner (if owner = c.role then some (UInt32.ofNat rows.length) else none)

/-- The request to share the rows of `owner`: own rows are handed over as they are, the peer's are
asked for by the share of their count. -/
def rowsQuery (c : Config) (map : IndexMap) (rows : List Bytes) (owner : Role) (count : UInt32) :
    PartyQuery :=
  if owner = c.role then .shareOwnRows rows map.length
  else .sharePeerRows count map (owner.rowWidth c.conversionsPerUser)

/-- What a party asks for until both parties' rows are shared, where `count owner` is the share of
the row count of `owner`. -/
def sharingPlan (c : Config) (map : IndexMap) (rows : List Bytes) (count : Role → UInt32) :
    List PartyQuery :=
  [countQuery c rows .publisher, countQuery c rows .partner,
    rowsQuery c map rows .publisher (count .publisher),
    rowsQuery c map rows .partner (count .partner)]

/-- The step that a request of a party of the given role belongs to. -/
def PartyQuery.step? (role : Role) : PartyQuery → Option SharingStep
  | shareRowCount owner _ => some (.rowCount owner)
  | shareOwnRows _ _ => some (.rows role)
  | sharePeerRows _ _ _ => some (.rows role.peer)
  | _ => none

/-- The shares that a call has returned. -/
def Call.shares? : Call ε → Option RowShares
  | ⟨.shareOwnRows _ _, .ok m⟩ => some m
  | ⟨.sharePeerRows _ _ _, .ok m⟩ => some m
  | _ => none

theorem Role.eq_peer_of_ne {a b : Role} (h : a ≠ b) : a = b.peer := by
  cases a <;> cases b <;> simp_all [peer]

/-- Both roles plan the same steps. -/
theorem map_step?_sharingPlan (c : Config) (map : IndexMap) (rows : List Bytes)
    (count : Role → UInt32) :
    (sharingPlan c map rows count).map (·.step? c.role) =
      [some (.rowCount .publisher), some (.rowCount .partner), some (.rows .publisher),
        some (.rows .partner)] := by
  have hrows : ∀ owner i, (rowsQuery c map rows owner i).step? c.role = some (.rows owner) := by
    intro owner i
    by_cases h : owner = c.role
    · rw [rowsQuery, if_pos h, PartyQuery.step?, h]
    · rw [rowsQuery, if_neg h, PartyQuery.step?, ← Role.eq_peer_of_ne h]
  simp only [sharingPlan, List.map_cons, List.map_nil, hrows]
  rfl

/-! ## One call -/

section Calls

variable {c : Config} {map : IndexMap} {rows : List Bytes} {owner : Role}

theorem rowsCall_query (i : UInt32) (reply : Except ε RowShares) :
    (rowsCall c map rows owner i reply).1 = rowsQuery c map rows owner i := by
  rw [rowsCall, rowsQuery]
  split <;> rfl

theorem failure?_countCall_ok (i : UInt32) :
    Call.failure? (ε := ε) c.role (countCall c rows owner (.ok i)) = none := rfl

theorem failure?_rowsCall_ok (i : UInt32) (m : RowShares) :
    Call.failure? (ε := ε) c.role (rowsCall c map rows owner i (.ok m)) = none := by
  rw [rowsCall]
  split <;> rfl

theorem shares?_countCall (reply : Except ε UInt32) :
    Call.shares? (countCall c rows owner reply) = none := rfl

theorem shares?_rowsCall_ok (i : UInt32) (m : RowShares) :
    Call.shares? (ε := ε) (rowsCall c map rows owner i (.ok m)) = some m := by
  rw [rowsCall]
  split <;> rfl

theorem shareRowCount_ne_rowsCall {owner' : Role} {own : Option UInt32} {i j : UInt32}
    {reply : Except ε RowShares} :
    (⟨.shareRowCount owner' own, .ok i⟩ : Call ε) ≠ rowsCall c map rows owner j reply := by
  rw [rowsCall]
  split <;> intro h <;> cases h

end Calls

/-! ## The calls of a party -/

/-- The calls follow the plan up to the first failure, and the outcome is the error of the call that
failed or, if none did, what the returned shares give. -/
structure SharesInTurn (c : Config) (map : IndexMap) (rows : List Bytes) (calls : List (Call ε))
    (o : Outcome (PartyError ε) (RowShares × RowShares)) : Prop where
  follows : ∃ count : Role → UInt32,
    (∀ owner own i, (⟨.shareRowCount owner own, .ok i⟩ : Call ε) ∈ calls → i = count owner) ∧
      calls.map (·.1) <+: sharingPlan c map rows count
  stops : ∀ call ∈ calls.dropLast, call.failure? c.role = none
  fails : ∀ call ∈ calls.getLast?, ∀ e, call.failure? c.role = some e → o = .error (.error e)
  completes : (∀ call ∈ calls, call.failure? c.role = none) →
    (calls.length = 4 ∧ ∃ m m', calls.filterMap (·.shares?) = [m, m'] ∧
      o = checkBatchSizes map m m') ∨
    (UInt64.size ≤ Role.partner.rowWidth c.conversionsPerUser ∧ o = .error (.fault .sizeOverflow))

section

variable {c : Config} {map : IndexMap} {rows : List Bytes} {calls : List (Call ε)}
  {o : Outcome (PartyError ε) (RowShares × RowShares)}

/-- Calls that begin the four steps follow the plan, if the peer's rows are asked for by the count
share that was returned. -/
theorem follows_of_begins (r r' : Except ε UInt32) (i j : UInt32) (s s' : Except ε RowShares)
    (hr : ∀ k, r = .ok k → k = i) (hr' : ∀ k, r' = .ok k → k = j)
    (h : calls <+: [countCall c rows .publisher r, countCall c rows .partner r',
      rowsCall c map rows .publisher i s, rowsCall c map rows .partner j s']) :
    ∃ count : Role → UInt32,
      (∀ owner own k, (⟨.shareRowCount owner own, .ok k⟩ : Call ε) ∈ calls → k = count owner) ∧
        calls.map (·.1) <+: sharingPlan c map rows count := by
  refine ⟨Role.pick i j, ?_, ?_⟩
  · intro owner own k hmem
    have hcall := h.subset hmem
    simp only [List.mem_cons, List.not_mem_nil, or_false, shareRowCount_ne_rowsCall] at hcall
    rcases hcall with heq | heq
    · cases heq
      exact hr k rfl
    · cases heq
      exact hr' k rfl
  · have hmap := h.map (·.1)
    simp only [List.map_cons, List.map_nil, rowsCall_query] at hmap
    exact hmap

/-- The sharing steps end as `Compacted` lists, or with a fault where the widths are computed. -/
theorem ends_compact (hrows : rows.length < UInt32.size) (h : Ends (compact c map rows) calls o) :
    Compacted c map rows calls o ∨
      (UInt64.size ≤ Role.partner.rowWidth c.conversionsPerUser ∧
        ∃ i j, calls = [countCall c rows .publisher (.ok i), countCall c rows .partner (.ok j)] ∧
          o = .error (.fault .sizeOverflow)) := by
  by_cases hwidth : Role.partner.rowWidth c.conversionsPerUser < UInt64.size
  · exact .inl ((compact_iff hrows hwidth).1 h)
  have hpublisher : width (ε := ε) .publisher c.conversionsPerUser =
      ofOutcome (.ok publisherRowWidth) := rfl
  have hhalt : ∀ {β : Type} {f : Nat → PartyStep ε β} {calls : List (Call ε)}
      {o : Outcome (PartyError ε) β},
      Ends (ofOutcome (.error (.fault .sizeOverflow)) >>= f) calls o ↔
        calls = [] ∧ o = .error (.fault .sizeOverflow) := Runs.done_iff
  rw [compact, ends_reporting] at h
  simp only [ends_note_bind, if_neg (Nat.not_le.2 hrows), hpublisher, width_error hwidth,
    (isCall_shareRowCount _ _).bind_iff, ends_ok_bind, hhalt] at h
  rcases h with ⟨e, rfl, rfl⟩ | ⟨i, _, rfl, ⟨e, rfl, rfl⟩ | ⟨j, _, rfl, rfl, rfl⟩⟩
  · exact .inl (.publisherCount e)
  · exact .inl (.partnerCount i e)
  · exact .inr ⟨Nat.le_of_not_lt hwidth, i, j, rfl, rfl⟩

/-- Calls that follow the plan, of which only the last one failed. -/
theorem SharesInTurn.of_failed (calls : List (Call ε)) {last : Call ε} {e : PartyError ε}
    (hfollows : ∃ count : Role → UInt32,
      (∀ owner own k, (⟨.shareRowCount owner own, .ok k⟩ : Call ε) ∈ calls ++ [last] →
        k = count owner) ∧ (calls ++ [last]).map (·.1) <+: sharingPlan c map rows count)
    (hok : ∀ call ∈ calls, call.failure? c.role = none) (hlast : last.failure? c.role = some e) :
    SharesInTurn c map rows (calls ++ [last]) (.error (.error e)) := by
  refine ⟨hfollows, by rwa [List.dropLast_concat], ?_, ?_⟩
  · intro call hcall e' he'
    rw [List.getLast?_concat, Option.mem_some_iff] at hcall
    rw [← hcall, hlast] at he'
    cases he'
    rfl
  · intro hall
    rw [hall last (by simp)] at hlast
    cases hlast

/-- Calls that follow the plan without a failure. -/
theorem SharesInTurn.of_succeeded
    (hfollows : ∃ count : Role → UInt32,
      (∀ owner own k, (⟨.shareRowCount owner own, .ok k⟩ : Call ε) ∈ calls → k = count owner) ∧
        calls.map (·.1) <+: sharingPlan c map rows count)
    (hok : ∀ call ∈ calls, call.failure? c.role = none)
    (hend : (calls.length = 4 ∧ ∃ m m', calls.filterMap (·.shares?) = [m, m'] ∧
        o = checkBatchSizes map m m') ∨
      (UInt64.size ≤ Role.partner.rowWidth c.conversionsPerUser ∧
        o = .error (.fault .sizeOverflow))) :
    SharesInTurn c map rows calls o := by
  refine ⟨hfollows, fun call hcall => hok call (List.dropLast_subset _ hcall), ?_, fun _ => hend⟩
  intro call hcall e he
  rw [hok call (List.mem_of_getLast? hcall)] at he
  cases he

theorem Compacted.inTurn (h : Compacted c map rows calls o) : SharesInTurn c map rows calls o := by
  have hcount : ∀ {r : Except ε UInt32} {i : UInt32}, r = .ok i → ∀ k, r = .ok k → k = i :=
    fun h k hk => Except.ok.inj (hk.symm.trans h)
  cases h with
  | publisherCount e =>
    exact .of_failed [] (follows_of_begins (.error e) (.error e) 0 0 (.error e) (.error e)
      nofun nofun ⟨_, rfl⟩) nofun rfl
  | partnerCount i e =>
    exact .of_failed [_] (follows_of_begins (.ok i) (.error e) i 0 (.error e) (.error e)
      (hcount rfl) nofun ⟨_, rfl⟩) (by simp [failure?_countCall_ok]) rfl
  | publisherRows i j e =>
    exact .of_failed [_, _] (follows_of_begins (.ok i) (.ok j) i j (.error e) (.error e)
      (hcount rfl) (hcount rfl) ⟨_, rfl⟩) (by simp [failure?_countCall_ok]) (failure?_rowsCall e)
  | partnerRows i j m e =>
    exact .of_failed [_, _, _] (follows_of_begins (.ok i) (.ok j) i j (.ok m) (.error e)
      (hcount rfl) (hcount rfl) ⟨_, rfl⟩)
      (by simp [failure?_countCall_ok, failure?_rowsCall_ok]) (failure?_rowsCall e)
  | shares i j m m' =>
    refine .of_succeeded (follows_of_begins (.ok i) (.ok j) i j (.ok m) (.ok m')
      (hcount rfl) (hcount rfl) ⟨[], rfl⟩)
      (by simp [failure?_countCall_ok, failure?_rowsCall_ok]) (.inl ⟨rfl, m, m', ?_, rfl⟩)
    simp only [List.filterMap_cons, shares?_countCall, shares?_rowsCall_ok, List.filterMap_nil]

theorem compact_sharesInTurn (hrows : rows.length < UInt32.size)
    (h : Ends (compact c map rows) calls o) : SharesInTurn c map rows calls o := by
  rcases ends_compact hrows h with hcompacted | ⟨hwidth, i, j, rfl, rfl⟩
  · exact hcompacted.inTurn
  · have hcount : ∀ {i : UInt32} k, (.ok i : Except ε UInt32) = .ok k → k = i :=
      fun _ hk => (Except.ok.inj hk).symm
    exact .of_succeeded (follows_of_begins (.ok i) (.ok j) i j (.ok default) (.ok default)
      hcount hcount ⟨_, rfl⟩) (by simp [failure?_countCall_ok]) (.inr ⟨hwidth, rfl⟩)

/-- At every point of their runs two parties are in the same step. -/
theorem SharesInTurn.step_eq {c' : Config} {map' : IndexMap} {rows' : List Bytes}
    {calls' : List (Call ε)} {o' : Outcome (PartyError ε) (RowShares × RowShares)}
    (h : SharesInTurn c map rows calls o) (h' : SharesInTurn c' map' rows' calls' o') {k : Nat}
    {call call' : Call ε} (hcall : calls[k]? = some call) (hcall' : calls'[k]? = some call') :
    call.1.step? c.role = call'.1.step? c'.role := by
  have hstep : ∀ {c : Config} {map : IndexMap} {rows : List Bytes} {calls : List (Call ε)}
      {o : Outcome (PartyError ε) (RowShares × RowShares)} {call : Call ε},
      SharesInTurn c map rows calls o → calls[k]? = some call →
        [some (SharingStep.rowCount .publisher), some (.rowCount .partner),
          some (.rows .publisher), some (.rows .partner)][k]? = some (call.1.step? c.role) := by
    intro c map rows calls o call h hcall
    obtain ⟨count, -, hprefix⟩ := h.follows
    obtain ⟨hk, rfl⟩ := List.getElem?_eq_some_iff.1 hcall
    rw [← map_step?_sharingPlan c map rows count, List.getElem?_map,
      List.prefix_iff_getElem?.1 hprefix k (by rwa [List.length_map]), List.getElem_map]
    rfl
  exact Option.some.inj ((hstep h hcall).symm.trans (hstep h' hcall'))

end

/-- Against every data processor a party has the rows shared in turn, and at every point it is in
the same step as any other party that has got there. -/
theorem compact_inTurn (c : Config) (map : IndexMap) (rows : List Bytes)
    (hrows : rows.length < UInt32.size) (behaviour : Behaviour ε) :
    SharesInTurn c map rows ((compact c map rows).run.play behaviour []).1
        ((compact c map rows).run.play behaviour []).2 ∧
      ∀ (c' : Config) (map' : IndexMap) (rows' : List Bytes) (behaviour' : Behaviour ε),
        rows'.length < UInt32.size → ∀ (k : Nat) (call call' : Call ε),
          ((compact c map rows).run.play behaviour []).1[k]? = some call →
          ((compact c' map' rows').run.play behaviour' []).1[k]? = some call' →
            call.1.step? c.role = call'.1.step? c'.role := by
  have hplay : ∀ (c : Config) (map : IndexMap) (rows : List Bytes) (behaviour : Behaviour ε),
      rows.length < UInt32.size →
        SharesInTurn c map rows ((compact c map rows).run.play behaviour []).1
          ((compact c map rows).run.play behaviour []).2 := by
    intro c map rows behaviour hrows
    obtain ⟨calls, hcalls, hruns⟩ := runs_play behaviour (compact c map rows).run []
    rw [hcalls, List.nil_append]
    exact compact_sharesInTurn hrows hruns
  refine ⟨hplay c map rows behaviour hrows, ?_⟩
  intro c' map' rows' behaviour' hrows' k call call' hcall hcall'
  exact (hplay c map rows behaviour hrows).step_eq (hplay c' map' rows' behaviour' hrows') hcall
    hcall'

/-- A partner with one row, whose data processor fails where it is given this row. -/
theorem compact_inTurn_connection_lost :
    ∃ behaviour : Behaviour String,
      let run := (compact ⟨.partner, 0, 10⟩ [0, -1] [[0, 0, 0, 0, 0]]).run.play behaviour []
      SharesInTurn ⟨.partner, 0, 10⟩ [0, -1] [[0, 0, 0, 0, 0]] run.1 run.2 ∧
        run.1.length = 4 ∧
        run.2 = .error (.error (.dataProcessor (.rows .partner) "connection lost")) :=
  ⟨.steady .ok (.ok 0) (.error "connection lost") (.ok default),
    (compact_inTurn _ _ _ (by decide) _).1, rfl, rfl⟩

end PrivateLift
