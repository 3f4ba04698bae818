import PrivateLift.Proofs.Dealer.Conduct
import PrivateLift.Proofs.Dealer.Transcript

/-!
# The dealer is sound against arbitrary parties

`run_sound`: against any conduct of the parties, what the dealer exchanges is a transcript up to the
first round that does not pass, and its outcome tells which check that was. So the dealer never
faults, and it succeeds on the sessions that pass all rounds and on no other.

A program of the dealer is followed round by round from a past that has been `Reached`: the rounds
before have passed and nothing else was said. The lemma of a round either stops at its violation or
hands the past with one more round to the rest of the program. The transcript is filled in on the
way, since a round that has not been reached can still be replaced.
-/

namespace PrivateLift

namespace Conduct

/-- The union maps can be indexed, and a party that echoes the intersection map that it was sent
asks for a width at which the shares of the intersection can be stored. -/
structure Admissible (c : Conduct) : Prop where
  length_le : ∀ past sender, (c.deliver past sender .unionMap).length ≤ IndexMap.maxUnion
  storable : ∀ past sender map, (sender, .sent ⟨.intersectionMap, map⟩) ∈ past →
    (c.deliver past sender .peerRows).2.1 = map →
      BitMatrix.Storable map.setCount (8 * (c.deliver past sender .peerRows).2.2)

end Conduct

namespace Transcript

variable (t : Transcript) (random : Dealer.Randomness)

/-- The dealings with a party in rounds that have passed. -/
def dealings (rounds : List Round) (party : Role) : List Dealing :=
  rounds.flatMap fun round => [.received (t.request round party), .sent (t.reply random round party)]

/-- The shares that are handed out in a round split the rows that both parties have in common. -/
def Shares : Round → Prop
  | .rows owner => RowShares.Splits (t.rows owner).ownShares (t.rows owner).peerShares
      (IndexMap.commonRows t.union owner (t.rows owner).rows) (t.rows owner).width
  | _ => True

def withCount (owner : Role) (r : CountRound) : Transcript :=
  { t with counts := Function.update t.counts owner r }

def withRows (owner : Role) (r : RowsRound) : Transcript :=
  { t with rows := Function.update t.rows owner r }

end Transcript

namespace Dealer

open Transcript

/-- The rounds `passed` have passed, and nothing else has been exchanged. -/
structure Reached (random : Randomness) (seat : Seats) (t : Transcript) (passed : List Round)
    (past : Past) : Prop where
  length_le : ∀ party, (t.union party).length ≤ IndexMap.maxUnion
  settled : passed.Forall fun round => t.Passes random round ∧ t.Shares round
  dealings_eq : ∀ party, past.dealings (seat party) = t.dealings random passed party

/-- The course of the dealer goes through the rounds of a transcript and ends with the first of them
that does not pass. -/
def Sound (random : Randomness) (seat : Seats) (course : Past × Outcome DealerError Unit) : Prop :=
  ∃ (t : Transcript) (passed : List Round),
    (∀ round ∈ passed, t.Passes random round ∧ t.Shares round) ∧
    ((passed = Round.all ∧ course.2 = .ok () ∧
        ∀ party, course.1.dealings (seat party) = t.dealings random passed party) ∨
      ∃ round rest e, Round.all = passed ++ round :: rest ∧ t.Violation random round e ∧
        course.2 = .error (.error e) ∧
        ∀ party, course.1.dealings (seat party) =
          t.dealings random passed party ++ [.received (t.request round party)])

variable {random : Randomness} {seat : Seats} {t : Transcript} {passed rest : List Round}
  {round : Round} {past heard told : Past} {c : Conduct}

namespace Reached

theorem snoc (h : Reached random seat t passed past) (hpasses : t.Passes random round)
    (hshares : t.Shares round)
    (hheard : ∀ party, heard.dealings (seat party) =
      past.dealings (seat party) ++ [.received (t.request round party)])
    (htold : ∀ party, told.dealings (seat party) =
      heard.dealings (seat party) ++ [.sent (t.reply random round party)]) :
    Reached random seat t (passed ++ [round]) told := by
  refine ⟨h.length_le, List.forall_append.2 ⟨h.settled, hpasses, hshares⟩, ?_⟩
  intro party
  rw [htold, hheard, h.dealings_eq]
  simp [Transcript.dealings]

theorem passes (h : Reached random seat t passed past) (hround : round ∈ passed) :
    t.Passes random round := (List.forall_iff_forall_mem.1 h.settled round hround).1

/-- Every party has been sent the intersection map. -/
theorem intersection_mem (h : Reached random seat t passed past) (hmaps : .maps ∈ passed)
    (party : Role) : (seat party, .sent ⟨.intersectionMap, t.intersection⟩) ∈ past := by
  rw [← Past.mem_dealings, h.dealings_eq]
  exact List.mem_flatMap.2 ⟨.maps, hmaps, by simp [reply]⟩

/-- The dealer gives up in a round that does not pass. -/
theorem sound_of_violation (h : Reached random seat t passed past)
    (hall : Round.all = passed ++ round :: rest) {e : DealerError}
    (hviolation : t.Violation random round e)
    (hheard : ∀ party, heard.dealings (seat party) =
      past.dealings (seat party) ++ [.received (t.request round party)]) :
    Sound random seat (heard, .error (.error e)) := by
  refine ⟨t, passed, List.forall_iff_forall_mem.1 h.settled,
    .inr ⟨round, rest, e, hall, hviolation, rfl, ?_⟩⟩
  intro party
  rw [hheard, h.dealings_eq]

theorem sound (h : Reached random seat t Round.all past) : Sound random seat (past, .ok ()) :=
  ⟨t, Round.all, List.forall_iff_forall_mem.1 h.settled, .inl ⟨rfl, rfl, h.dealings_eq⟩⟩

end Reached

/-! ## Rounds -/

theorem sound_intersect (hseat : ∀ owner, seat owner ≠ seat owner.peer) (hc : c.Admissible)
    {f : (Role → IndexMap) × (Role → Nat) × IndexMap → Step Unit}
    (next : ∀ (t : Transcript) maps counts past, Reached random seat t [.maps] past →
      (∀ party, maps party = t.union party) →
      (∀ party, counts party = (t.union party).setCount) →
      Sound random seat ((f (maps, counts, t.intersection)).run.against c past)) :
    Sound random seat ((intersect seat >>= f).run.against c []) := by
  rw [intersect, bind_assoc]
  refine heard_rule (P := Sound random seat) (hseat .publisher) ?_
  intro heard earlier earlier' _ _ hheard
  have hmax := hc.length_le earlier (seat .publisher)
  have hmax' := hc.length_le earlier' (seat Role.publisher.peer)
  generalize c.deliver earlier (seat .publisher) .unionMap = publisher at hheard hmax ⊢
  generalize c.deliver earlier' (seat Role.publisher.peer) .unionMap = partner at hheard hmax' ⊢
  let t : Transcript :=
    { (default : Transcript) with union := Role.pick publisher partner }
  have hstart : Reached random seat t [] [] :=
    ⟨by rintro (_ | _) <;> assumption, trivial, fun _ => rfl⟩
  have hrequest : ∀ party, heard.dealings (seat party) = Past.dealings [] (seat party) ++
      [.received (t.request .maps party)] := hheard.dealings_eq rfl rfl
  have hstop : ∀ {e}, UnionsViolation t.union e → Sound random seat (heard, .error (.error e)) :=
    fun hviolation => hstart.sound_of_violation rfl hviolation hrequest
  dsimp only
  split
  · next hlength => exact hstop (.size hlength)
  · next hlength =>
    have hlength := Classical.not_not.1 hlength
    cases hm : IndexMap.validate publisher with
    | error e => exact hstop (.publisher hlength hm)
    | ok m =>
      cases hn : IndexMap.validate partner with
      | error e => exact hstop (.partner hlength hm hn)
      | ok n =>
        simp only [Outcome.ofError, ofOutcome_ok_bind, bind_assoc]
        refine told_rule (P := Sound random seat) (hseat .publisher) ⟨.intersectionMap, _⟩
          ⟨.intersectionMap, _⟩ ?_
        intro told htold
        have hvalid : ∀ party, ∃ k, (t.union party).validate = .ok k := by
          rintro (_ | _)
          · exact ⟨m, hm⟩
          · exact ⟨n, hn⟩
        refine next t _ _ told
          (hstart.snoc ⟨hlength, hvalid⟩ trivial hrequest (htold.dealings_eq rfl rfl)) ?_ ?_
        · rintro (_ | _) <;> rfl
        · rintro (_ | _)
          · exact IndexMap.setCount_of_validate hm
          · exact IndexMap.setCount_of_validate hn

theorem sound_shareCount (hseat : ∀ owner, seat owner ≠ seat owner.peer) {owner : Role}
    (hall : Round.all = passed ++ .count owner :: rest)
    (h : ∀ r, Reached random seat (t.withCount owner r) passed past) {f : UInt32 → Step Unit}
    (next : ∀ r told, Reached random seat (t.withCount owner r) (passed ++ [.count owner]) told →
      Sound random seat
        ((f ((t.withCount owner r).countShare random owner)).run.against c told)) :
    Sound random seat
      ((shareCount seat (random.countMask owner) owner >>= f).run.against c past) := by
  rw [shareCount, bind_assoc]
  refine heard_rule (P := Sound random seat) (hseat owner) ?_
  intro heard earlier earlier' _ _ hheard
  generalize c.deliver earlier (seat owner) .rowCount = own at hheard ⊢
  generalize c.deliver earlier' (seat owner.peer) .rowCount = peer at hheard ⊢
  have hcounts : (t.withCount owner ⟨own, peer⟩).counts owner = ⟨own, peer⟩ :=
    Function.update_self ..
  have hrequest : ∀ party, heard.dealings (seat party) = past.dealings (seat party) ++
      [.received ((t.withCount owner ⟨own, peer⟩).request (.count owner) party)] :=
    hheard.dealings_eq (by simp [request, hcounts]) (by simp [request, hcounts, owner.peer_ne])
  have hfail : ¬CountRound.Passes ⟨own, peer⟩ →
      Sound random seat (heard, .error (.error (.rowCountOwnership owner))) := by
    intro hnot
    refine (h ⟨own, peer⟩).sound_of_violation hall ?_ hrequest
    rw [Transcript.Violation, hcounts]
    exact .ownership hnot
  cases own with
  | none =>
    refine hfail fun hpass => ?_
    obtain ⟨count, hcount⟩ := hpass.own
    cases hcount
  | some count =>
    cases peer with
    | some count' =>
      refine hfail fun hpass => ?_
      cases hpass.peer
    | none =>
      have hshare : (t.withCount owner ⟨some count, none⟩).countShare random owner =
          count ^^^ random.countMask owner := by
        rw [countShare, hcounts, Option.getD_some]
      simp only [bind_assoc, pure_bind]
      refine told_rule (P := Sound random seat) (hseat owner) ⟨.rowCountShare, _⟩
        ⟨.rowCountShare, _⟩ ?_
      intro told htold
      rw [← hshare]
      refine next _ told ((h _).snoc ?_ trivial hrequest (htold.dealings_eq ?_ ?_))
      · rw [Transcript.Passes, hcounts]
        exact ⟨⟨count, rfl⟩, rfl⟩
      · simp [reply]
      · simp [reply, hshare, owner.peer_ne]

theorem sound_shareRows (hseat : ∀ owner, seat owner ≠ seat owner.peer) (hc : c.Admissible)
    {owner : Role} {s : WordStream} (hall : Round.all = passed ++ .rows owner :: rest)
    (h : ∀ r, Reached random seat (t.withRows owner r) passed past) (hmaps : .maps ∈ passed)
    {f : WordStream → Step Unit}
    (next : ∀ r s told, Reached random seat (t.withRows owner r) (passed ++ [.rows owner]) told →
      Sound random seat ((f s).run.against c told)) :
    Sound random seat ((shareRows seat owner (t.union owner) t.intersection
      (t.union owner).setCount (t.countShare random owner) s >>= f).run.against c past) := by
  rw [shareRows, bind_assoc]
  refine heard_rule (P := Sound random seat) (hseat owner) ?_
  intro heard earlier earlier' _ hsubset hheard
  have hunions : UnionsPass t.union := (h default).passes hmaps
  have hstorable := hc.storable earlier' (seat owner.peer) t.intersection
    (hsubset ((h default).intersection_mem hmaps owner.peer))
  generalize c.deliver earlier (seat owner) .ownRows = own at hheard ⊢
  generalize c.deliver earlier' (seat owner.peer) .peerRows = peer at hheard hstorable ⊢
  obtain ⟨rows, outputSize⟩ := own
  obtain ⟨echoedShare, echoedMap, width⟩ := peer
  -- The shares of the round are not known before its rows have passed.
  have hrequest : ∀ mask masked party, heard.dealings (seat party) = past.dealings (seat party) ++
      [.received ((t.withRows owner
        ⟨rows, outputSize, echoedShare, echoedMap, width, mask, masked⟩).request
          (.rows owner) party)] := by
    intro mask masked
    refine hheard.dealings_eq ?_ ?_
    · simp [request, withRows]
    · simp [request, withRows, owner.peer_ne]
  have hrows : ∀ r, (t.withRows owner r).rows owner = r := fun r => Function.update_self ..
  rcases RowsRound.checkRows_cases owner
    ⟨rows, outputSize, echoedShare, echoedMap, width, default, default⟩ t.intersection
    (t.countShare random owner) (t.union owner).setCount with
    ⟨hcheck, hpasses⟩ | ⟨e, hcheck, hviolation⟩
  · obtain ⟨mask, masked, s', hselect, hshare, hsplits⟩ := hpasses.share_ok hunions
      (hstorable hpasses.echoedMap_eq) s
    have hselect : IndexMap.selectRows rows (t.union owner) t.intersection = .ok _ := hselect
    simp only [hcheck, hselect, hshare, Outcome.ofError, Outcome.ofFault, ofOutcome_ok_bind,
      bind_assoc]
    refine told_rule (P := Sound random seat) (hseat owner) ⟨.rowShares, mask⟩
      ⟨.rowShares, masked⟩ ?_
    intro told htold
    refine next ⟨rows, outputSize, echoedShare, echoedMap, width, mask, masked⟩ s' told
      ((h _).snoc ?_ ?_ (hrequest mask masked) (htold.dealings_eq ?_ ?_))
    · rw [Transcript.Passes, hrows]
      exact ⟨hpasses.outputSize_eq, hpasses.echoedMap_eq, hpasses.echoedShare_eq,
        hpasses.length_eq, hpasses.width_eq⟩
    · rw [Transcript.Shares, hrows]
      exact hsplits
    · simp [reply, hrows]
    · simp [reply, hrows, owner.peer_ne]
  · simp only [hcheck, bind_assoc]
    refine (h _).sound_of_violation hall ?_ (hrequest default default)
    rw [Transcript.Violation, hrows]
    exact hviolation

/-! ## A whole session -/

theorem sound_steps (hseat : ∀ owner, seat owner ≠ seat owner.peer) (hc : c.Admissible) :
    Sound random seat ((steps seat random).run.against c []) := by
  unfold steps
  refine sound_intersect hseat hc ?_
  intro t maps counts past h hmaps hcounts
  simp only [hmaps, hcounts]
  -- The rounds that have passed do not mention the one that is filled in next.
  have hcount : ∀ r, Reached random seat (t.withCount .publisher r) [.maps] past :=
    fun _ => ⟨h.length_le, h.settled, h.dealings_eq⟩
  refine sound_shareCount hseat rfl hcount ?_
  intro r past h
  have hcount' : ∀ r', Reached random seat ((t.withCount .publisher r).withCount .partner r')
      [.maps, .count .publisher] past :=
    fun _ => ⟨h.length_le, h.settled, h.dealings_eq⟩
  refine sound_shareCount hseat rfl hcount' ?_
  intro r' past h
  rw [against_note]
  have hrows : ∀ r₁, Reached random seat
      (((t.withCount .publisher r).withCount .partner r').withRows .publisher r₁)
      [.maps, .count .publisher, .count .partner] past :=
    fun _ => ⟨h.length_le, h.settled, h.dealings_eq⟩
  refine sound_shareRows hseat hc rfl hrows (by simp) ?_
  intro r₁ s past h
  have hrows' : ∀ r₂, Reached random seat
      ((((t.withCount .publisher r).withCount .partner r').withRows .publisher r₁).withRows
        .partner r₂) [.maps, .count .publisher, .count .partner, .rows .publisher] past :=
    fun _ => ⟨h.length_le, h.settled, h.dealings_eq⟩
  refine sound_shareRows hseat hc rfl hrows' (by simp) ?_
  intro r₂ s past h
  exact h.sound

/-- The numbers of a publisher and a partner. -/
def seats (publisher partner : Nat) : Seats
  | .publisher => publisher
  | .partner => partner

/-- After its steps the dealer only logs an error. -/
theorem against_run (c : Conduct) (random : Randomness) (publisher partner : Nat) (past : Past) :
    (run publisher partner random).against c past =
      (steps (seats publisher partner) random).run.against c past := by
  change Program.against c ((steps (seats publisher partner) random).run >>= _) past = _
  rw [Program.against_bind]
  generalize (steps (seats publisher partner) random).run.against c past = course
  obtain ⟨past', (f | e) | ⟨⟩⟩ := course <;> rfl

theorem mem_all (round : Round) : round ∈ Round.all := by
  rcases round with _ | (_ | _) | (_ | _) <;> decide

/-- Whatever the parties deliver, the dealer goes through the rounds until one does not pass. In the
rounds that pass, each party gets its reply, and shares that split the rows which both parties have
in common. The dealer succeeds if all rounds pass, and otherwise ends with the error of the first
check that fails, without a reply to the messages of that round. -/
theorem run_sound {c : Conduct} (hc : c.Admissible) (random : Randomness) {publisher partner : Nat}
    (hne : publisher ≠ partner) :
    ∃ (t : Transcript) (passed : List Round) (past : Past) (outcome : Outcome DealerError Unit),
      (run publisher partner random).against c [] = (past, outcome) ∧
      (∀ round ∈ passed, t.Passes random round) ∧
      (∀ owner, .rows owner ∈ passed → RowShares.Splits (t.rows owner).ownShares
        (t.rows owner).peerShares (IndexMap.commonRows t.union owner (t.rows owner).rows)
        (t.rows owner).width) ∧
      (outcome = .ok () ↔ ∀ round, t.Passes random round) ∧
      ((passed = Round.all ∧ outcome = .ok () ∧
          past.dealings publisher = t.dealings random passed .publisher ∧
          past.dealings partner = t.dealings random passed .partner) ∨
        ∃ round rest e, Round.all = passed ++ round :: rest ∧ t.Violation random round e ∧
          outcome = .error (.error e) ∧
          past.dealings publisher = t.dealings random passed .publisher ++
            [.received (t.request round .publisher)] ∧
          past.dealings partner = t.dealings random passed .partner ++
            [.received (t.request round .partner)]) := by
  have hseat : ∀ owner, seats publisher partner owner ≠ seats publisher partner owner.peer := by
    rintro (_ | _)
    · exact hne
    · exact hne.symm
  obtain ⟨t, passed, hpassed, hend⟩ := @sound_steps random _ c hseat hc
  rw [← against_run] at hend
  generalize (run publisher partner random).against c [] = course at hend ⊢
  obtain ⟨past, outcome⟩ := course
  refine ⟨t, passed, past, outcome, rfl, fun round hround => (hpassed round hround).1,
    fun owner howner => (hpassed _ howner).2, ?_, ?_⟩
  · rcases hend with ⟨rfl, hok, -⟩ | ⟨round, rest, e, -, hviolation, herror, -⟩
    · exact iff_of_true hok fun round => (hpassed round (mem_all round)).1
    · refine iff_of_false ?_ fun hall => not_passes_of_violation hviolation (hall round)
      rintro rfl
      cases herror
  · rcases hend with ⟨hall, hok, hdealings⟩ | ⟨round, rest, e, hall, hviolation, herror, hdealings⟩
    · exact .inl ⟨hall, hok, hdealings .publisher, hdealings .partner⟩
    · exact .inr ⟨round, rest, e, hall, hviolation, herror, hdealings .publisher,
        hdealings .partner⟩

/-- Both parties keep to the protocol, with two rows and one row of one byte, until party 1 asks for
rows of two bytes. -/
def wideRequest : Conduct where
  deliver
    | _, sender, .unionMap => if sender = 0 then [1, 0] else [-1, 0]
    | past, sender, .rowCount =>
      -- A party gives its own count when as much has been exchanged as its round comes after.
      if (past.dealings sender).length = 2 * (sender + 1) then some 2 else none
    | _, sender, .ownRows => (if sender = 0 then [[7], [8]] else [[9]], 2)
    | _, _, .peerRows => (2, [-1, 0], 2)
    | _, _, .intersectionMap => []
    | _, _, .rowCountShare => 0
    | _, _, .rowShares => default
  leftFirst past := past.length % 4 = 0

theorem run_sound_wide_request :
    wideRequest.Admissible ∧ 0 ≠ 1 ∧
      ∃ (t : Transcript) (past : Past),
        (run 0 1 ⟨fun _ => 0, .cyclic #[1]⟩).against wideRequest [] =
          (past, .error (.error (.rowWidthMismatch .publisher 2 1))) ∧
        t.Violation ⟨fun _ => 0, .cyclic #[1]⟩ (.rows .publisher)
          (.rowWidthMismatch .publisher 2 1) ∧
        past.dealings 1 = t.dealings ⟨fun _ => 0, .cyclic #[1]⟩
          [.maps, .count .publisher, .count .partner] .partner ++
            [.received (t.request (.rows .publisher) .partner)] := by
  have hadmissible : wideRequest.Admissible := by
    constructor
    · intro past sender
      simp only [wideRequest]
      split <;> decide
    · rintro past sender map - rfl
      change BitMatrix.Storable (IndexMap.setCount [-1, 0]) (8 * 2)
      decide
  obtain ⟨t, passed, past, outcome, hrun, -, -, -, hend⟩ :=
    run_sound hadmissible ⟨fun _ => 0, .cyclic #[1]⟩ (by decide : 0 ≠ 1)
  have houtcome : ((run 0 1 ⟨fun _ => 0, .cyclic #[1]⟩).against wideRequest []).2 =
      .error (.error (.rowWidthMismatch .publisher 2 1)) := by
    rfl
  rw [hrun] at houtcome
  subst houtcome
  refine ⟨hadmissible, by decide, t, past, hrun, ?_⟩
  rcases hend with ⟨-, hok, -⟩ | ⟨round, rest, e, hall, hviolation, herror, -, hpartner⟩
  · cases hok
  · cases herror
    obtain rfl : round = .rows .publisher := by
      generalize he : DealerError.rowWidthMismatch .publisher 2 1 = e at hviolation
      rcases round with _ | owner | owner
      · cases hviolation <;> cases he
      · cases hviolation
        cases he
      · cases hviolation with
        | rowWidth =>
          injection he with howner
          rw [← howner]
        | _ => cases he
    obtain ⟨rfl, -⟩ : passed = [.maps, .count .publisher, .count .partner] ∧
        rest = [.rows .partner] := by
      simpa [Round.all, List.cons_eq_append_iff] using hall
    exact ⟨hviolation, hpartner⟩

end Dealer

end PrivateLift
