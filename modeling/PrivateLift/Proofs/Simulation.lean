import PrivateLift.Proofs.Session.Lockstep
import PrivateLift.Proofs.Session.Polling
import PrivateLift.Simulation.Session

/-!
# What a simulation reveals

A simulation with valid parameters and inputs of one size succeeds, whatever is drawn at random, and
both results together reveal the columns of the rows that are dummies for neither party, in the
order of the union (`simulate_joins`).
-/

namespace PrivateLift

/-- The columns of the given rows of the union, computed from the inputs of both parties. -/
def joinedColumns (slots : Nat) (window : UInt32) (p : PublisherInput) (q : PartnerInput)
    (rows : List Nat) : RevealedColumns :=
  let opportunity i := p.opportunityTimestamps.getD i 0
  let control i := p.controlPopulation.getD i false
  let test i := p.testPopulation.getD i false
  let purchase i slot := (q.purchaseTimestamps.getD i []).getD slot 0
  { breakdownIds := rows.map fun i => p.breakdownIds.getD i 0 != 0
    controlPopulation := rows.map control
    validOpportunity := rows.map fun i => opportunity i > 0 && (control i || test i)
    testReach := rows.map fun i => test i && p.impressions.getD i 0 > 0
    opportunityTimestamps := rows.map opportunity
    anyPurchase := rows.map fun i => (q.purchaseTimestamps.getD i []).any (· > 0)
    cohortGroupIds := rows.map fun i => q.cohortGroupIds.getD i 0
    purchaseTimestamps := (List.range slots).map fun slot => rows.map fun i => purchase i slot
    thresholdTimestamps := (List.range slots).map fun slot => rows.map fun i =>
      if purchase i slot = 0 then 0 else purchase i slot + window
    purchaseValues := (List.range slots).map fun slot => rows.map fun i =>
      ((q.purchaseValues.getD i []).getD slot 0).toInt32
    purchaseValuesSquared := (List.range slots).map fun slot => rows.map fun i =>
      (q.purchaseValuesSquared.getD i []).getD slot 0 }

theorem slotColumns_rowAt {α : Type} {q : PartnerInput} {c : Config} {rowAt : Nat → Bytes}
    {rows : List Nat} (value : ConversionRow → α)
    (h : ∀ i ∈ rows, PartnerRow.ofBytes (rowAt i) c.conversionsPerUser = q.rowAt c i) :
    (LiftColumns.slotColumns (LiftColumns.conversionTable (rows.map rowAt) c.conversionsPerUser)
        value).map (·.entries) =
      (List.range c.conversionsPerUser).map fun slot =>
        rows.map fun i => value (q.conversionAt c i slot) := by
  simp only [LiftColumns.slotColumns, LiftColumns.conversionTable, List.map_map]
  apply List.map_congr_left
  intro slot hslot
  simp only [Function.comp_apply, List.map_map]
  apply List.map_congr_left
  intro i hi
  have hconversions : (List.range c.conversionsPerUser).map (ConversionRow.ofBytes (rowAt i)) =
      (List.range c.conversionsPerUser).map (q.conversionAt c i) :=
    congrArg PartnerRow.conversions (h i hi)
  exact congrArg value (List.map_inj_left.1 hconversions slot hslot)

/-- Rows that stand for the records of both inputs give the columns of the inputs. -/
theorem entries_ofBytes {p : PublisherInput} {q : PartnerInput} {c : Config}
    {publisher partner : Nat → Bytes} {rows : List Nat}
    (hp : ∀ i ∈ rows, PublisherRow.ofBytes (publisher i) = p.rowAt i)
    (hq : ∀ i ∈ rows, PartnerRow.ofBytes (partner i) c.conversionsPerUser = q.rowAt c i) :
    (LiftColumns.ofBytes (rows.map publisher) (rows.map partner) c.conversionsPerUser).entries =
      joinedColumns c.conversionsPerUser c.thresholdWindow p q rows := by
  have hpublisher : (rows.map publisher).map PublisherRow.ofBytes = rows.map p.rowAt := by
    rw [List.map_map]
    exact List.map_congr_left hp
  have hpartner : (rows.map partner).map (PartnerRow.ofBytes · c.conversionsPerUser) =
      rows.map (q.rowAt c) := by
    rw [List.map_map]
    exact List.map_congr_left hq
  rw [LiftColumns.ofBytes, hpublisher, hpartner, LiftColumns.entries, joinedColumns,
    LiftColumns.mk.injEq]
  exact ⟨List.map_map, List.map_map, List.map_map, List.map_map, List.map_map, List.map_map,
    List.map_map, slotColumns_rowAt _ hq, slotColumns_rowAt _ hq, slotColumns_rowAt _ hq,
    slotColumns_rowAt _ hq⟩

/-- The program of a party in a session. -/
def Seat.program (seat : Seat) (wrap : PartyError ChannelError → SessionError) :
    ChannelProgram (Outcome SessionError ProcessedShares) := do
  return Outcome.attribute wrap (← Party.processWith 2 seat.config seat.input seat.random)

/-- The session of two parties and the dealer. -/
def Session.ofSeats (first second : Seat) (random : Dealer.Randomness) :
    Session (Outcome SessionError ProcessedShares) (Outcome SessionError ProcessedShares)
      (Outcome SessionError Unit) :=
  start (first.program .first) (second.program .second) do
    return Outcome.attribute SessionError.dealer (← Dealer.run 0 1 random)

theorem runSession_of_poll {first second : Seat} {random : Dealer.Randomness}
    {o : Outcome SessionError (ProcessedShares × ProcessedShares × Unit)}
    (h : ∃ w, (Session.ofSeats first second random).poll .first = (o, w)) :
    (runSession first second random).1 = o.map fun (a, b, _) => (a, b) := by
  obtain ⟨w, hpoll⟩ := h
  exact congrArg (fun ended => ended.1.map fun (a, b, _) => (a, b)) hpoll

namespace Deal.Fits

variable {d : Deal} {parties : Role → Party} {streams : Role → WordStream} {slots : Nat}

/-- The results of both parties have as many rows as there are common rows. -/
theorem rowCount_result (h : d.Fits parties streams slots) (role : Role) :
    (d.result role slots).rowCount =
      (commonRows (parties .publisher).input (parties .partner).input).length := by
  rw [← h.setRows_eq, ← IndexMap.setCount_eq]
  exact h.batchSize_rowShares role .publisher

/-- Both results together reveal the columns of the shared rows. -/
theorem reveal_result (h : d.Fits parties streams slots) (hc : Compatible parties slots) :
    (d.result .publisher slots).reveal (d.result .partner slots) =
      .ok (LiftColumns.ofBytes
        ((commonRows (parties .publisher).input (parties .partner).input).map
          (parties .publisher).source.rowAt)
        ((commonRows (parties .publisher).input (parties .partner).input).map
          (parties .partner).source.rowAt) slots).entries := by
  have hwidth : ∀ owner, ∀ row ∈
      (IndexMap.setRows d.intersection).map (parties owner).source.rowAt,
      row.length = owner.rowWidth slots := by
    intro owner row hrow
    obtain ⟨i, hi, rfl⟩ := List.mem_map.1 hrow
    exact hc.length_rowAt owner (hc.lt_unionSize_of_mem owner (h.setRows_eq ▸ hi))
  have hreveal := ProcessedShares.reveal_ofShares (n := slots) (h.splits .publisher)
    (h.splits .partner).symm (by rw [List.length_map, List.length_map]) (hwidth .publisher)
    (hwidth .partner)
  rw [h.setRows_eq] at hreveal
  exact hreveal

/-- Polled in turn, a session that fits the deal ends with the results of both parties. -/
theorem runSession_ok (h : d.Fits parties streams slots) (hc : Compatible parties slots)
    {random : Dealer.Randomness} (hd : d.Accepted random) :
    (runSession
      ⟨(parties .publisher).config, (parties .publisher).input, streams .publisher⟩
      ⟨(parties .partner).config, (parties .partner).input, streams .partner⟩ random).1 =
      .ok (d.result .publisher slots, d.result .partner slots) := by
  have hstart := h.settles_start hc hd
  have hsettles : (Session.ofSeats
      ⟨(parties .publisher).config, (parties .publisher).input, streams .publisher⟩
      ⟨(parties .partner).config, (parties .partner).input, streams .partner⟩ random).Settles
      (starDues ((d.exchanges .publisher).flatMap Exchange.dues)
        ((d.exchanges .partner).flatMap Exchange.dues)) (fun _ _ => [])
      (.ok (d.result .publisher slots)) (.ok (d.result .partner slots)) (.ok ()) :=
    ⟨hstart.first.bind rfl, hstart.second.bind rfl, hstart.third.bind rfl, hstart.balanced⟩
  exact runSession_of_poll (hsettles.poll .first)

end Deal.Fits

/-- A simulation succeeds for every choice of the random draws, and reveals the columns of the rows
that both parties have, computed from the inputs. The last hypothesis is the dealer's own condition
that shares of so many rows can be stored. -/
theorem simulate_joins {n : Nat} {w : UInt32} {p : PublisherInput} {q : PartnerInput} (hn : 0 < n)
    (hw : 0 < w) (hp : (LocalInput.publisher p).validate ⟨.publisher, n, w⟩ = .ok ())
    (hq : (LocalInput.partner q).validate ⟨.partner, n, w⟩ = .ok ())
    (hsize : p.dummyRows.length = q.dummyRows.length)
    (hunion : p.dummyRows.length ≤ IndexMap.maxUnion)
    (hstorable : BitMatrix.Storable (8 * Role.partner.rowWidth n)
      (commonRows (.publisher p) (.partner q)).length) (random : SimulationRandomness) :
    ∃ a b, (simulate n w p q random).1 = .ok (a, b) ∧
      a.rowCount = (commonRows (.publisher p) (.partner q)).length ∧
      b.rowCount = (commonRows (.publisher p) (.partner q)).length ∧
      a.reveal b = .ok (joinedColumns n w p q (commonRows (.publisher p) (.partner q))) := by
  have hconfig : ∀ role, (⟨role, n, w⟩ : Config).validate = .ok () := by
    intro role
    have hw' : w ≠ 0 := by
      rintro rfl
      exact absurd hw (by decide)
    rw [Config.validate, if_neg (Nat.pos_iff_ne_zero.1 hn), if_neg hw']
  obtain ⟨parties, hc, hcp, hip, hcq, hiq⟩ := exists_compatible rfl rfl (hconfig .publisher)
    (hconfig .partner) hp hq rfl hsize hunion hstorable.rows_lt
  rw [← hip, ← hiq] at hstorable
  obtain ⟨d, hd, hfits⟩ :=
    hc.exists_deal hstorable (Role.pick random.publisher random.partner)
      random.dealer
  have hrun := hfits.runSession_ok hc hd
  have hrows := hfits.rowCount_result
  have hreveal := hfits.reveal_result hc
  rw [hip, hiq] at hrows hreveal
  rw [hcp, hip, hcq, hiq, Role.pick_publisher, Role.pick_partner] at hrun
  refine ⟨_, _, ?_, hrows .publisher, hrows .partner, ?_⟩
  · unfold simulate
    generalize runSession _ _ _ = session at hrun ⊢
    obtain ⟨outcome, log⟩ := session
    subst hrun
    rfl
  · obtain ⟨-, -, -, -, hsource⟩ := Party.make_inv (hc.make_ok .publisher)
    obtain ⟨-, -, -, -, hsource'⟩ := Party.make_inv (hc.make_ok .partner)
    rw [hcp, hip] at hsource
    rw [hcq, hiq] at hsource'
    have hpublisher : ∀ i ∈ commonRows (.publisher p) (.partner q),
        PublisherRow.ofBytes ((parties .publisher).source.rowAt i) = p.rowAt i := by
      intro i hi
      exact RowSource.ofBytes_publisher hsource (mem_commonRows.1 hi).1
    have hpartner : ∀ i ∈ commonRows (.publisher p) (.partner q),
        PartnerRow.ofBytes ((parties .partner).source.rowAt i) n = q.rowAt ⟨.partner, n, w⟩ i := by
      intro i hi
      have hlt : i < q.dummyRows.length := hsize ▸ (mem_commonRows.1 hi).1
      obtain ⟨-, hvalid⟩ := (LocalInput.validate_partner_eq_ok_iff _ _).1 hq
      exact RowSource.ofBytes_partner hsource' hvalid hlt
    rw [hreveal]
    exact congrArg Except.ok (entries_ofBytes (c := ⟨.partner, n, w⟩) hpublisher hpartner)

/-- Of three rows only the middle one is a dummy for neither party. -/
theorem simulate_joins_middle_row : ∃ a b,
    (simulate 2 10
      { opportunityTimestamps := [5, 100], testPopulation := [true, true], impressions := [0, 3]
        breakdownIds := [0, 2], dummyRows := [false, false, true] }
      { cohortGroupIds := [7, 8, 9], purchaseTimestamps := [[], [200], []]
        purchaseValues := [[], [-1], []], purchaseValuesSquared := [[], [1], []]
        dummyRows := [true, false, false] }
      ⟨.splitMix 1, .splitMix 2, fun _ => 7, .splitMix 3⟩).1 = .ok (a, b) ∧
      a.rowCount = 1 ∧ b.rowCount = 1 ∧
      a.reveal b = .ok
        { breakdownIds := [true], controlPopulation := [false], validOpportunity := [true]
          testReach := [true], opportunityTimestamps := [100], anyPurchase := [true]
          cohortGroupIds := [8], purchaseTimestamps := [[200], [0]]
          thresholdTimestamps := [[210], [0]], purchaseValues := [[-1], [0]]
          purchaseValuesSquared := [[1], [0]] } :=
  simulate_joins (by decide) (by decide) rfl rfl rfl (by decide) (by decide) _

end PrivateLift
