import PrivateLift.Proofs.Party.Safety
import PrivateLift.Proofs.Session.Accepted
import PrivateLift.Proofs.Session.Lockstep

/-!
# Parties that succeed agree

Nothing is assumed here about whether the two parties fit together, and every action on a channel
may fail. A party that succeeds has had five exchanges with the dealer (`Party.exchanged`), so if
both parties succeed, then the dealer has accepted a deal and their exchanges agree with it. A party
then has its result from its shares in the deal (`Deal.Accepted.agrees`), and the two shares of the
same rows have the same dimensions. So the parties agree on the number of conversions, the size of
the union and the shape of the result (`Session.agreement`).
-/

namespace PrivateLift

/-! ## The exchanges of a party that succeeds -/

/-- A party only succeeds if all its calls do. -/
theorem Ending.ok_inv {ε : Type} {c : Config} {union : IndexMap} {rows : List Bytes}
    {calls : List (Call ε)} {data : ProcessedShares} (h : Ending c union rows calls (.ok data)) :
    ∃ map i j m m', ProcessedShares.extract m m' c.conversionsPerUser = .ok data ∧
      calls = [⟨.adapt union, .ok map⟩, countCall c rows .publisher (.ok i),
        countCall c rows .partner (.ok j), rowsCall c map rows .publisher i (.ok m),
        rowsCall c map rows .partner j (.ok m')] := by
  generalize ho : (.ok data : Outcome (PartyError ε) ProcessedShares) = o at h
  cases h with
  | @extract map calls m m' hcompact =>
    obtain ⟨-, -, i, j, rfl⟩ := hcompact.ok_inv
    refine ⟨map, i, j, m, m', ?_, rfl⟩
    unfold extracted at ho
    split at ho
    · next heq =>
      cases ho
      exact heq
    · cases ho
    · cases ho
  | _ => cases ho

theorem Call.succeeds_rowsCall {ε : Type} {c : Config} {map : IndexMap} {rows : List Bytes}
    {owner : Role} {count : UInt32} {m : RowShares} :
    (rowsCall (ε := ε) c map rows owner count (.ok m)).Succeeds := by
  unfold rowsCall
  split <;> rfl

theorem Call.Exchanges.rowsCall_inv {c : Config} {map : IndexMap} {rows : List Bytes} {owner : Role}
    {count : UInt32} {m : RowShares} {e : Exchange}
    (h : (rowsCall c map rows owner count (.ok m)).Exchanges e) :
    ∃ request, e = ⟨request, ⟨.rowShares, m⟩⟩ := by
  unfold rowsCall at h
  split at h <;> cases h <;> exact ⟨_, rfl⟩

/-- A party that succeeds has had five exchanges. The first one has its union map and the last two
have the shares from which it has made its result. -/
theorem Party.exchanged {c : Config} {input : LocalInput} {s : WordStream} {record : Record}
    {data : ProcessedShares} (hunion : input.unionSize ≤ IndexMap.maxUnion)
    (hwidth : 8 * Role.partner.rowWidth c.conversionsPerUser < UInt64.size)
    (h : Leaves (Party.processWith 2 c input s) record (.ok data)) :
    ∃ (union map : IndexMap) (e e' : Exchange) (request request' : Message) (m m' : RowShares),
      union.length = input.unionSize ∧
      ProcessedShares.extract m m' c.conversionsPerUser = .ok data ∧
      Chain Exchange.Made [.adapt union map, e, e', ⟨request, ⟨.rowShares, m⟩⟩,
        ⟨request', ⟨.rowShares, m'⟩⟩] (record 2) := by
  obtain ⟨calls, hruns, hexchanges⟩ := Runs.of_leaves h
  cases hmake : make (ε := ChannelError) c input with
  | error halt =>
    rw [process, hmake] at hruns
    cases hruns
  | ok p =>
    have hwidth : Role.partner.rowWidth c.conversionsPerUser < UInt64.size := by omega
    have hinput : p.input = input := (make_inv hmake).2.2.2.1
    obtain ⟨map, i, j, m, m', hextract, rfl⟩ :=
      ((process_iff hmake hunion hwidth).1 hruns).ok_inv
    obtain ⟨exchanges, hforall, hchain⟩ := hexchanges (by
      simp only [List.mem_cons, List.not_mem_nil, or_false]
      rintro call (rfl | rfl | rfl | rfl | rfl)
      · rfl
      · rfl
      · rfl
      · exact Call.succeeds_rowsCall
      · exact Call.succeeds_rowsCall)
    simp only [List.forall₂_cons_left_iff, List.forall₂_nil_left_iff] at hforall
    obtain ⟨_, _, hadapt, ⟨e, _, -, ⟨e', _, -, ⟨_, _, hrows, ⟨_, _, hrows', rfl, rfl⟩, rfl⟩, rfl⟩,
      rfl⟩, rfl⟩ := hforall
    obtain ⟨request, rfl⟩ := hrows.rowsCall_inv
    obtain ⟨request', rfl⟩ := hrows'.rowsCall_inv
    cases hadapt with
    | adapt hlen =>
      refine ⟨_, map, e, e', request, request', m, m', ?_, hextract, hchain⟩
      rw [Party.length_drawn, hinput]

/-! ## The deal behind the exchanges -/

namespace Deal

variable {d : Deal} {random : Dealer.Randomness} {role : Role}

namespace Accepted

theorem rowBits_eq (h : d.Accepted random) (party owner : Role) :
    (d.rowShares party owner).rowBits = 8 * d.width owner := by
  obtain ⟨selected, -, hsplits⟩ := h.splits owner
  rcases d.rowShares_cases party owner with heq | heq
  · rw [heq]
    exact hsplits.rowBits_left
  · rw [heq]
    exact hsplits.rowBits_right

theorem batchSize_eq (h : d.Accepted random) (party party' owner : Role) :
    (d.rowShares party owner).batchSize = (d.rowShares party' owner).batchSize := by
  obtain ⟨selected, -, hsplits⟩ := h.splits owner
  have hsize : ∀ party, (d.rowShares party owner).batchSize = selected.length := by
    intro party
    rcases d.rowShares_cases party owner with heq | heq
    · rw [heq]
      exact hsplits.batchSize_left
    · rw [heq]
      exact hsplits.batchSize_right
  rw [hsize, hsize]

theorem rowShares_eq (h : d.Accepted random) {party owner : Role} {request : Message}
    {m : RowShares}
    (hagrees : Exchange.Agrees ⟨request, ⟨.rowShares, m⟩⟩ (d.rowsExchange party owner)) :
    d.rowShares party owner = m := by
  have hread := hagrees.2
  rw [rowsExchange_reply] at hread
  exact Except.ok.inj ((MessageKind.read_encode (h.sendable_rowShares party owner)).symm.trans hread)

/-- If the exchanges of a party agree with the deal, then the deal has its union map and shares. -/
theorem agrees (h : d.Accepted random) {union map : IndexMap} {e e' : Exchange}
    {request request' : Message} {m m' : RowShares} (hunion : union.length < UInt64.size)
    (hagrees : List.Forall₂ Exchange.Agrees [.adapt union map, e, e', ⟨request, ⟨.rowShares, m⟩⟩,
      ⟨request', ⟨.rowShares, m'⟩⟩] (d.exchanges role)) :
    d.union role = union ∧ d.rowShares role .publisher = m ∧ d.rowShares role .partner = m' := by
  simp only [exchanges, List.forall₂_cons] at hagrees
  obtain ⟨hadapt, -, -, hrows, hrows', -⟩ := hagrees
  refine ⟨?_, h.rowShares_eq hrows, h.rowShares_eq hrows'⟩
  have hread : MessageKind.unionMap.codec.read (MessageKind.unionMap.codec.encode union) =
      .ok union := MessageKind.read_encode hunion
  exact Except.ok.inj (hadapt.1.symm.trans hread)

/-- Results from the shares of an accepted deal have the same shape. -/
theorem results_agree (h : d.Accepted random) {n n' : Nat} {a b : ProcessedShares}
    {party party' : Role} (ha : ProcessedShares.extract (d.rowShares party .publisher)
      (d.rowShares party .partner) n = .ok a)
    (hb : ProcessedShares.extract (d.rowShares party' .publisher)
      (d.rowShares party' .partner) n' = .ok b) :
    n = n' ∧ a.rowCount = b.rowCount ∧ a.columns.HasShape a.rowCount n ∧
      b.columns.HasShape a.rowCount n := by
  obtain ⟨-, -, hbits, hsize, rfl⟩ := ProcessedShares.extract_inv ha
  obtain ⟨-, -, hbits', hsize', rfl⟩ := ProcessedShares.extract_inv hb
  rw [h.rowBits_eq] at hbits hbits'
  have hslots : n = n' := by
    simp only [Role.rowWidth, conversionWidth] at hbits hbits'
    omega
  subst hslots
  have hcount : (ProcessedShares.ofShares (d.rowShares party .publisher)
      (d.rowShares party .partner) n).rowCount = (ProcessedShares.ofShares
      (d.rowShares party' .publisher) (d.rowShares party' .partner) n).rowCount :=
    h.batchSize_eq party party' .publisher
  refine ⟨rfl, hcount, ProcessedShares.hasShape_ofShares hsize n, ?_⟩
  rw [hcount]
  exact ProcessedShares.hasShape_ofShares hsize' n

end Accepted

end Deal

/-! ## Both parties -/

theorem sends_of_made {exchanges : List Exchange} {record record' : List Deed}
    {queue : List Bytes} (h : Chain Exchange.Made exchanges record)
    (hqueue : record'.filterMap Deed.sent? = record.filterMap Deed.took? ++ queue) :
    exchanges.length ≤ sends record' := by
  have htook : (record.filterMap Deed.took?).length = exchanges.length := by
    clear hqueue
    induction exchanges generalizing record with
    | nil =>
      cases h
      rfl
    | cons e exchanges ih =>
      obtain ⟨rest, ⟨bytes, -, rfl⟩, hrest⟩ := h
      exact congrArg (· + 1) (ih hrest)
  rw [sends, hqueue, List.length_append, htook]
  exact Nat.le_add_right _ _

namespace Session

/-- If both parties succeed in a session with the dealer, then they have the same number of
conversions, the same size of the union, and results of the same shape, which can be revealed.
Nothing else is known about their parameters, and any action may have failed on the way. -/
theorem agreement {c c' : Config} {input input' : LocalInput} {s s' : WordStream}
    {random : Dealer.Randomness} (hunion : input.unionSize ≤ IndexMap.maxUnion)
    (hunion' : input'.unionSize ≤ IndexMap.maxUnion)
    (hwidth : 8 * Role.partner.rowWidth c.conversionsPerUser < UInt64.size)
    (hwidth' : 8 * Role.partner.rowWidth c'.conversionsPerUser < UInt64.size)
    {state : Session _ _ _}
    (hreach : (start (Party.processWith 2 c input s) (Party.processWith 2 c' input' s')
      (Dealer.run 0 1 random)).MayReach state) {a b : ProcessedShares}
    (hfirst : state.first = .done (.ok a)) (hsecond : state.second = .done (.ok b)) :
    c.conversionsPerUser = c'.conversionsPerUser ∧ input.unionSize = input'.unionSize ∧
      a.rowCount = b.rowCount ∧ a.columns.HasShape a.rowCount c.conversionsPerUser ∧
      b.columns.HasShape a.rowCount c.conversionsPerUser ∧
      ∃ columns, a.reveal b = .ok columns := by
  obtain ⟨records, hrecords⟩ := exists_records hreach
  obtain ⟨union, map, e₁, e₂, request, request', m, m', hlength, hextract, hchain⟩ :=
    Party.exchanged hunion hwidth (hrecords.first.leaves hfirst)
  obtain ⟨union', map', e₁', e₂', request₂, request₂', n, n', hlength', hextract', hchain'⟩ :=
    Party.exchanged hunion' hwidth' (hrecords.second.leaves hsecond)
  obtain ⟨_, hdealer⟩ := hrecords.third.exists_leaves
  -- Each party has received five replies, so the dealer has sent them.
  obtain ⟨d, haccepted, hanswered, hanswered'⟩ := Dealer.exists_deal hdealer
    (sends_of_made hchain (hrecords.accounts 2 0)) (sends_of_made hchain' (hrecords.accounts 2 1))
  have hlt : ∀ {size : Nat}, size ≤ IndexMap.maxUnion → size < UInt64.size := fun hle =>
    Nat.lt_of_le_of_lt hle (by decide)
  obtain ⟨rfl, rfl, rfl⟩ := haccepted.agrees (hlength ▸ hlt hunion)
    (hchain.agree hanswered (hrecords.accounts 0 2) (hrecords.accounts 2 0) rfl)
  obtain ⟨rfl, rfl, rfl⟩ := haccepted.agrees (hlength' ▸ hlt hunion')
    (hchain'.agree hanswered' (hrecords.accounts 1 2) (hrecords.accounts 2 1) rfl)
  obtain ⟨hslots, hcount, hshape, hshape'⟩ := haccepted.results_agree hextract hextract'
  refine ⟨hslots, ?_, hcount, hshape, hshape', _,
    ProcessedShares.reveal_ok hcount hshape (hcount ▸ hshape')⟩
  rw [← hlength, ← hlength', haccepted.length_eq]

/-- Two parties with different windows, where the partner has no row, so that the dealer cannot
check the width of its rows. -/
theorem agreement_no_partner_row : ∃ state a b,
    (start
      (Party.processWith 2 ⟨.publisher, 1, 10⟩ (.publisher { dummyRows := [false, true] })
        (.splitMix 1))
      (Party.processWith 2 ⟨.partner, 1, 20⟩ (.partner { dummyRows := [true, true] })
        (.splitMix 2))
      (Dealer.run 0 1 ⟨fun _ => 7, .splitMix 3⟩)).MayReach state ∧
    state.first = .done (.ok a) ∧ state.second = .done (.ok b) ∧ 1 = 1 ∧ 2 = 2 ∧
      a.rowCount = b.rowCount ∧ a.columns.HasShape a.rowCount 1 ∧
      b.columns.HasShape a.rowCount 1 ∧ ∃ columns, a.reveal b = .ok columns := by
  obtain ⟨state, a, b, hreach, hfirst, hsecond⟩ := exists_success ⟨.publisher, 1, 10⟩
    ⟨.partner, 1, 20⟩ (.publisher { dummyRows := [false, true] })
    (.partner { dummyRows := [true, true] }) rfl rfl rfl rfl rfl rfl rfl rfl (by decide) (by decide)
    (.splitMix 1) (.splitMix 2) ⟨fun _ => 7, .splitMix 3⟩
  exact ⟨state, a, b, hreach.mayReach, hfirst, hsecond,
    agreement (by decide) (by decide) (by decide) (by decide) hreach.mayReach hfirst hsecond⟩

end Session

end PrivateLift
