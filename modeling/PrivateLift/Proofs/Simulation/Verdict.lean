import PrivateLift.Proofs.Session.Waiting
import PrivateLift.Proofs.Simulation

/-!
# How a simulation ends

The *error* of a simulation is read off its parameters and inputs (`simulationError?`): the
publisher is refused, or the partner is, or their unions differ in size, and of several reasons the
first one counts. A simulation ends with its error (`simulate_of_error`), although the other
programs wait for messages that nobody sends any more: a refused publisher ends the run at once, a
refused partner when the publisher first waits, and the dealer's error comes before anybody has
waited too long.

Without an error all checks of the parties and of the dealer pass, and the simulation succeeds. The
one thing that can still stop it is that the shares of the common rows take more bits than can be
addressed (`simulate_of_no_error`).
-/

namespace PrivateLift

/-! ## Refused and accepted parties -/

namespace Seat

/-- The party is refused with an error. -/
def Refused (seat : Seat) (e : PartyError ChannelError) : Prop :=
  Party.make seat.config seat.input = .error (.error e)

/-- The party is accepted, its union can be indexed and its rows can be measured. -/
structure Accepted (seat : Seat) (p : Party) : Prop where
  make_ok : Party.make (ε := ChannelError) seat.config seat.input = .ok p
  unionSize_le : seat.input.unionSize ≤ IndexMap.maxUnion
  width_lt : Role.partner.rowWidth seat.config.conversionsPerUser < UInt64.size

/-- A refused party has ended before it has sent anything. -/
theorem Refused.program_eq {seat : Seat} {e : PartyError ChannelError} (h : seat.Refused e)
    (wrap : PartyError ChannelError → SessionError) :
    seat.program wrap = .done (.error (.error (wrap e))) := by
  rw [program, Party.processWith, Party.process, h]
  rfl

theorem exists_accepted (seat : Seat) (hconfig : seat.config.validate = .ok ())
    (hinput : seat.input.validate seat.config = .ok ())
    (hunion : seat.input.unionSize ≤ IndexMap.maxUnion)
    (hwidth : 8 * Role.partner.rowWidth seat.config.conversionsPerUser < UInt64.size) :
    ∃ p, seat.Accepted p := by
  obtain ⟨p, hmake, -, -⟩ :=
    Party.make_ok (ε := ChannelError) hconfig hinput (Role.slots_le_of_size_lt hwidth)
  exact ⟨p, hmake, hunion, by omega⟩

namespace Accepted

variable {seat : Seat} {p : Party}

/-- The first thing that an accepted party has to do. -/
def due (seat : Seat) (p : Party) : Due := .send ⟨.unionMap, (p.drawn seat.random).1⟩

theorem stalls (h : seat.Accepted p) (wrap : PartyError ChannelError → SessionError) :
    Stalls (seat.program wrap) (Dues.only 2 [due seat p]) :=
  (Party.stalls h.make_ok h.unionSize_le h.width_lt seat.random).map _

theorem length_drawn (h : seat.Accepted p) :
    (p.drawn seat.random).1.length = seat.input.unionSize := by
  obtain ⟨-, -, -, hinput, -⟩ := Party.make_inv h.make_ok
  rw [Party.length_drawn, hinput]

theorem beginning (h : seat.Accepted p) : Beginning [due seat p] := by
  refine ⟨⟨[.adapt (p.drawn seat.random).1 []], List.prefix_append [_] _⟩, fun due hdue => ?_⟩
  cases List.mem_singleton.1 hdue
  change (p.drawn seat.random).1.length < UInt64.size
  rw [h.length_drawn]
  exact Nat.lt_of_le_of_lt h.unionSize_le (by decide)

end Accepted

end Seat

/-! ## Sessions that fail -/

section

variable {first second : Seat} {random : Dealer.Randomness} {e : PartyError ChannelError}
  {p q : Party}

theorem runSession_error {halt : Halt SessionError}
    (h : ∃ w, (Session.ofSeats first second random).poll .first = (.error halt, w)) :
    (runSession first second random).1 = .error halt :=
  runSession_of_poll h

theorem runSession_first_refused (h : first.Refused e) :
    (runSession first second random).1 = .error (.error (.first e)) := by
  apply runSession_error
  rw [Session.ofSeats, h.program_eq]
  exact ⟨_, Session.poll_failed_first _ _ _ _⟩

theorem runSession_second_refused (hfirst : first.Accepted p) (h : second.Refused e) :
    (runSession first second random).1 = .error (.error (.second e)) := by
  apply runSession_error
  -- Before the first step the traffic is the same for all programs.
  have hbalanced := Balanced.start hfirst.beginning ⟨⟨[], List.prefix_rfl⟩, nofun⟩
    (first.program .first) (second.program .second) (Dealer.run 0 1 random)
  rw [Session.ofSeats, h.program_eq]
  exact Session.poll_failed_second (hfirst.stalls .first) hbalanced _ _

/-- The dealer refuses unions of different sizes. -/
theorem runSession_mismatch (hfirst : first.Accepted p) (hsecond : second.Accepted q)
    (hsize : first.input.unionSize ≠ second.input.unionSize) :
    (runSession first second random).1 = .error (.error (.dealer
      (.unionSizeMismatch first.input.unionSize second.input.unionSize))) := by
  have hstalled : (Session.ofSeats first second random).Stalled
      (starDues [Seat.Accepted.due first p] [Seat.Accepted.due second q]) (fun _ _ => [])
      (.error (.error (.dealer
        (.unionSizeMismatch first.input.unionSize second.input.unionSize)))) := by
    refine ⟨hfirst.stalls .first, hsecond.stalls .second, ?_,
      Balanced.start hfirst.beginning hsecond.beginning _ _ _⟩
    rw [← hfirst.length_drawn, ← hsecond.length_drawn] at hsize ⊢
    exact (Dealer.serves_run (Dealer.serves_intersect_mismatch (by decide) hsize)).bind rfl
  exact runSession_error (hstalled.poll .first)

end

/-- The dealer cannot share the rows of two compatible parties if the shares of the partner's rows
cannot be stored. -/
theorem runSession_overflow {parties : Role → Party} {slots : Nat} (hc : Compatible parties slots)
    (hstorable : ¬BitMatrix.Storable (8 * Role.partner.rowWidth slots)
      (commonRows (parties .publisher).input (parties .partner).input).length)
    (streams : Role → WordStream) (random : Dealer.Randomness) :
    (runSession
      ⟨(parties .publisher).config, (parties .publisher).input, streams .publisher⟩
      ⟨(parties .partner).config, (parties .partner).input, streams .partner⟩ random).1 =
      .error (.fault .sizeOverflow) := by
  obtain ⟨s, hopened⟩ := hc.exists_opened streams random
  obtain ⟨d, -, -, hd, h, -⟩ := hopened default default
  have hshare : RowShares.share ((commonRows (parties .publisher).input
      (parties .partner).input).map (parties .partner).source.rowAt) (d.width .partner) s =
      .error .sizeOverflow := by
    refine RowShares.share_error (fun hs => hstorable ?_) s
    rw [List.length_map, h.width_eq] at hs
    exact BitMatrix.storable_comm hs
  have hstalled : (Session.ofSeats
      ⟨(parties .publisher).config, (parties .publisher).input, streams .publisher⟩
      ⟨(parties .partner).config, (parties .partner).input, streams .partner⟩ random).Stalled
      (starDues (d.pending .publisher) (d.pending .partner)) (fun _ _ => [])
      (.error (.fault .sizeOverflow)) := by
    refine ⟨(h.stalls hc .publisher).map _, (h.stalls hc .partner).map _, ?_,
      Balanced.start (h.beginning_pending hc hd .publisher) (h.beginning_pending hc hd .partner)
        _ _ _⟩
    rw [starDues, Deal.map_flip_pending, Deal.map_flip_pending]
    refine Serves.bind (a := .error (.fault .sizeOverflow)) ?_ rfl
    refine Dealer.serves_run (hd.serves_steps (by decide) ?_)
    exact Dealer.serves_shareRows_fault .partner (by decide) (hd.width_eq _)
      (h.selectRows hc .partner) hshare
  exact runSession_error (hstalled.poll .first)

/-! ## Simulations -/

/-- The seat of a publisher in a simulation. -/
def PublisherInput.seat (p : PublisherInput) (n : Nat) (w : UInt32) (s : WordStream) : Seat :=
  ⟨⟨.publisher, n, w⟩, .publisher p, s⟩

/-- The seat of a partner in a simulation. -/
def PartnerInput.seat (q : PartnerInput) (n : Nat) (w : UInt32) (s : WordStream) : Seat :=
  ⟨⟨.partner, n, w⟩, .partner q, s⟩

/-- The error of a session whose first party is the publisher. -/
def SessionError.toSimulation : SessionError → SimulationError
  | first e => .party .publisher e
  | second e => .party .partner e
  | dealer e => .dealer e

/-- The error of a simulation, if there is one: the first reason to refuse the parameters, the
publisher's input or the partner's, or else unions of different sizes. -/
def simulationError? (n : Nat) (w : UInt32) (p : PublisherInput) (q : PartnerInput) :
    Option SimulationError :=
  if n = 0 then some (.party .publisher (.config .zeroConversionsPerUser))
  else if w = 0 then some (.party .publisher (.config .zeroThresholdWindow))
  else
    match (LocalInput.publisher p).validate ⟨.publisher, n, w⟩ with
    | .error e => some (.party .publisher (.input e))
    | .ok () =>
      match (LocalInput.partner q).validate ⟨.partner, n, w⟩ with
      | .error e => some (.party .partner (.input e))
      | .ok () =>
        if p.dummyRows.length = q.dummyRows.length then none
        else some (.dealer (.unionSizeMismatch p.dummyRows.length q.dummyRows.length))

theorem Config.validate_ok {n : Nat} {w : UInt32} (hn : n ≠ 0) (hw : w ≠ 0) (role : Role) :
    (⟨role, n, w⟩ : Config).validate = .ok () := by
  rw [validate, if_neg hn, if_neg hw]

section

variable {n : Nat} {w : UInt32} {p : PublisherInput} {q : PartnerInput}

theorem simulationError?_eq_none_iff :
    simulationError? n w p q = none ↔ 0 < n ∧ 0 < w ∧
      (LocalInput.publisher p).validate ⟨.publisher, n, w⟩ = .ok () ∧
      (LocalInput.partner q).validate ⟨.partner, n, w⟩ = .ok () ∧
      p.dummyRows.length = q.dummyRows.length := by
  rw [Nat.pos_iff_ne_zero, UInt32.pos_iff_ne_zero]
  unfold simulationError?
  by_cases hn : n = 0
  · simp [hn]
  by_cases hw : w = 0
  · simp [hn, hw]
  rw [if_neg hn, if_neg hw]
  cases (LocalInput.publisher p).validate ⟨.publisher, n, w⟩ with
  | error e => simp
  | ok _ =>
    cases (LocalInput.partner q).validate ⟨.partner, n, w⟩ with
    | error e => simp
    | ok _ => simp [hn, hw]

theorem simulate_fst (n : Nat) (w : UInt32) (p : PublisherInput) (q : PartnerInput)
    (random : SimulationRandomness) :
    (simulate n w p q random).1 = Outcome.attribute SessionError.toSimulation
      (runSession (p.seat n w random.publisher) (q.seat n w random.partner) random.dealer).1 := by
  unfold simulate PublisherInput.seat PartnerInput.seat
  generalize runSession _ _ _ = session
  obtain ⟨outcome, log⟩ := session
  match outcome with
  | .ok _ => rfl
  | .error (.fault _) => rfl
  | .error (.error e) => cases e <;> rfl

/-- A simulation ends with its error. -/
theorem simulate_of_error (hp : p.dummyRows.length ≤ IndexMap.maxUnion)
    (hq : q.dummyRows.length ≤ IndexMap.maxUnion)
    (hwidth : 8 * Role.partner.rowWidth n < UInt64.size) {e : SimulationError}
    (h : simulationError? n w p q = some e) (random : SimulationRandomness) :
    (simulate n w p q random).1 = .error (.error e) := by
  rw [simulate_fst]
  unfold simulationError? at h
  by_cases hn : n = 0
  · rw [if_pos hn] at h
    cases h
    have hconfig : (p.seat n w random.publisher).Refused (.config .zeroConversionsPerUser) :=
      Party.make_error_config (if_pos hn)
    rw [runSession_first_refused hconfig]
    rfl
  by_cases hw : w = 0
  · rw [if_neg hn, if_pos hw] at h
    cases h
    have hconfig : (p.seat n w random.publisher).Refused (.config .zeroThresholdWindow) :=
      Party.make_error_config ((if_neg hn).trans (if_pos hw))
    rw [runSession_first_refused hconfig]
    rfl
  rw [if_neg hn, if_neg hw] at h
  have hconfig := Config.validate_ok hn hw
  cases hvalid : (LocalInput.publisher p).validate ⟨.publisher, n, w⟩ with
  | error invalid =>
    rw [hvalid] at h
    cases h
    have hrefused : (p.seat n w random.publisher).Refused (.input invalid) :=
      Party.make_error_input (hconfig _) hvalid
    rw [runSession_first_refused hrefused]
    rfl
  | ok _ =>
    obtain ⟨publisher, hpublisher⟩ :=
      Seat.exists_accepted (p.seat n w random.publisher) (hconfig _) hvalid hp hwidth
    cases hvalid' : (LocalInput.partner q).validate ⟨.partner, n, w⟩ with
    | error invalid =>
      rw [hvalid, hvalid'] at h
      cases h
      have hrefused : (q.seat n w random.partner).Refused (.input invalid) :=
        Party.make_error_input (hconfig _) hvalid'
      rw [runSession_second_refused hpublisher hrefused]
      rfl
    | ok _ =>
      obtain ⟨partner, hpartner⟩ :=
        Seat.exists_accepted (q.seat n w random.partner) (hconfig _) hvalid' hq hwidth
      rw [hvalid, hvalid'] at h
      by_cases hsize : p.dummyRows.length = q.dummyRows.length
      · simp [hsize] at h
      · simp only [if_neg hsize] at h
        cases h
        rw [runSession_mismatch hpublisher hpartner hsize]
        rfl

/-- A simulation without an error succeeds, unless the shares of the common rows cannot be
stored. -/
theorem simulate_of_no_error (hp : p.dummyRows.length ≤ IndexMap.maxUnion)
    (hwidth : 8 * Role.partner.rowWidth n < UInt64.size) (h : simulationError? n w p q = none)
    (random : SimulationRandomness) :
    if BitMatrix.Storable (8 * Role.partner.rowWidth n)
        (commonRows (.publisher p) (.partner q)).length then
      ∃ a b, (simulate n w p q random).1 = .ok (a, b)
    else (simulate n w p q random).1 = .error (.fault .sizeOverflow) := by
  obtain ⟨hn, hw, hvalid, hvalid', hsize⟩ := simulationError?_eq_none_iff.1 h
  have hconfig := Config.validate_ok (Nat.pos_iff_ne_zero.1 hn) (UInt32.pos_iff_ne_zero.1 hw)
  obtain ⟨parties, hc, hcp, hip, hcq, hiq⟩ := exists_compatible rfl rfl (hconfig .publisher)
    (hconfig .partner) hvalid hvalid' rfl hsize hp hwidth
  let streams := Role.pick random.publisher random.partner
  rw [simulate_fst, PublisherInput.seat, PartnerInput.seat, ← hcp, ← hcq, ← hip, ← hiq]
  split
  · next hstorable =>
    obtain ⟨d, hd, hfits⟩ := hc.exists_deal hstorable streams random.dealer
    exact ⟨_, _, congrArg (Outcome.attribute _) (hfits.runSession_ok hc hd)⟩
  · next hstorable =>
    exact congrArg (Outcome.attribute _) (runSession_overflow hc hstorable streams random.dealer)

end

/-- The end of a simulation, for every choice of the random draws. It reports an error if and only
if it has one, and then this error. It succeeds if and only if both parameters are positive, both
inputs are valid and their unions have the same size, provided that the shares of the common rows
can be stored. Otherwise sharing them is a fault, and nothing is reported. -/
theorem simulate_verdict {n : Nat} {p : PublisherInput} {q : PartnerInput}
    (hp : p.dummyRows.length ≤ IndexMap.maxUnion) (hq : q.dummyRows.length ≤ IndexMap.maxUnion)
    (hwidth : 8 * Role.partner.rowWidth n < UInt64.size) (w : UInt32)
    (random : SimulationRandomness) :
    let storable := BitMatrix.Storable (8 * Role.partner.rowWidth n)
      (commonRows (.publisher p) (.partner q)).length
    let admissible := 0 < n ∧ 0 < w ∧
      (LocalInput.publisher p).validate ⟨.publisher, n, w⟩ = .ok () ∧
      (LocalInput.partner q).validate ⟨.partner, n, w⟩ = .ok () ∧
      p.dummyRows.length = q.dummyRows.length
    (∀ e, (simulate n w p q random).1 = .error (.error e) ↔ simulationError? n w p q = some e) ∧
      (storable → ((∃ a b, (simulate n w p q random).1 = .ok (a, b)) ↔ admissible)) ∧
      (¬storable → admissible → (simulate n w p q random).1 = .error (.fault .sizeOverflow)) := by
  intro storable admissible
  have hadmissible : simulationError? n w p q = none ↔ admissible := simulationError?_eq_none_iff
  cases herror : simulationError? n w p q with
  | some e =>
    have hend := simulate_of_error hp hq hwidth herror random
    have hnot : ¬admissible := by
      rw [← hadmissible, herror]
      exact Option.some_ne_none e
    refine ⟨fun e' => ?_, fun _ => ?_, fun _ h => absurd h hnot⟩
    · rw [hend]
      simp
    · rw [hend]
      simp [hnot]
  | none =>
    have hend := simulate_of_no_error hp hwidth herror random
    have hyes : admissible := hadmissible.1 herror
    by_cases hstorable : storable
    · rw [if_pos hstorable] at hend
      obtain ⟨a, b, hok⟩ := hend
      refine ⟨fun e => ?_, fun _ => ?_, fun h => absurd hstorable h⟩
      · rw [hok]
        simp
      · exact ⟨fun _ => hyes, fun _ => ⟨a, b, hok⟩⟩
    · rw [if_neg hstorable] at hend
      refine ⟨fun e => ?_, fun h => absurd h hstorable, fun _ _ => hend⟩
      rw [hend]
      simp

/-- A partner with too many conversions is reported, not the sizes of the unions. -/
theorem simulate_verdict_partner_first :
    (simulate 1 10 { dummyRows := [false, true] }
      { purchaseTimestamps := [[1, 2]], dummyRows := [false] }
      ⟨.splitMix 1, .splitMix 2, fun _ => 7, .splitMix 3⟩).1 =
      .error (.error (.party .partner (.input (.tooManyConversions .purchaseTimestamps 0 2 1)))) :=
  ((simulate_verdict (by decide) (by decide) (by decide) 10 _).1 _).2 rfl

end PrivateLift
