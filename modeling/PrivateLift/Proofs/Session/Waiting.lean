import PrivateLift.Proofs.Session.Lockstep
import PrivateLift.Proofs.Session.Stalling

/-!
# Parties that wait for the dealer

Whatever the dealer might reply, a party with valid parameters first sends its union map and waits
for the intersection (`Party.stalls`). Two compatible parties that have got their shares of the
publisher's rows both send what is asked of the partner's rows and wait for their shares
(`Deal.Concerns.stalls`). In both cases the replies that a party waits for are made up: a deal says
how the party would go on, and nothing else is used of it.
-/

namespace PrivateLift

/-- A party to which the replies of a deal are given comes to an end. -/
theorem Deal.exists_ending (d : Deal) (c : Config) :
    ∃ o, Ending c (d.union c.role) (d.rows c.role) (d.calls c) o := by
  have hshares : Compacted (ε := ChannelError) c d.intersection (d.rows c.role) _ _ :=
    .shares (d.countShare c.role .publisher) (d.countShare c.role .partner)
      (d.rowShares c.role .publisher) (d.rowShares c.role .partner)
  generalize checkBatchSizes d.intersection _ _ = sizes at hshares
  cases sizes with
  | ok shares => exact ⟨_, .extract d.intersection hshares⟩
  | error halt => exact ⟨_, .compact d.intersection hshares⟩

section

variable {d : Deal} {c : Config} {input : LocalInput} {p : Party} {s : WordStream}

/-- A party serves the exchanges of every deal that is about its rows. -/
theorem Deal.exists_serves (hmake : Party.make (ε := ChannelError) c input = .ok p)
    (hunion : input.unionSize ≤ IndexMap.maxUnion)
    (hwidth : Role.partner.rowWidth c.conversionsPerUser < UInt64.size)
    (hmap : d.union c.role = (p.drawn s).1) (hrows : d.rows c.role = p.packed s)
    (hcalls : List.Forall₂ Call.Exchanges (d.calls c) (d.exchanges c.role)) :
    ∃ o, Serves (Party.processWith 2 c input s)
      (Dues.only 2 ((d.exchanges c.role).flatMap Exchange.dues)) o := by
  obtain ⟨o, hending⟩ := d.exists_ending c
  rw [hmap, hrows] at hending
  exact ⟨o, ((Party.process_iff hmake hunion hwidth).2 hending).serves hcalls⟩

/-- A deal in which a party gets its own union map back. -/
def Party.echo (p : Party) (s : WordStream) : Deal where
  union _ := (p.drawn s).1
  intersection := (p.drawn s).1
  count _ := .ofNat (p.packed s).length
  countMask _ := 0
  rows _ := p.packed s
  width owner := owner.rowWidth p.config.conversionsPerUser
  mask _ := default
  masked _ := default

/-- A party with valid parameters sends its union map and waits. -/
theorem Party.stalls (hmake : Party.make (ε := ChannelError) c input = .ok p)
    (hunion : input.unionSize ≤ IndexMap.maxUnion)
    (hwidth : Role.partner.rowWidth c.conversionsPerUser < UInt64.size) (s : WordStream) :
    Stalls (Party.processWith 2 c input s)
      (Dues.only 2 [.send ⟨.unionMap, (p.drawn s).1⟩]) := by
  obtain ⟨-, -, rfl, -⟩ := Party.make_inv hmake
  obtain ⟨o, hserves⟩ := Deal.exists_serves (d := p.echo s) hmake hunion hwidth rfl rfl
    (Deal.exchanges_calls rfl rfl fun _ => rfl)
  refine ⟨⟨.intersectionMap, (p.drawn s).1⟩,
    ((p.echo s).exchanges p.config.role).tail.flatMap Exchange.dues, o, ?_⟩
  rw [Dues.append_only]
  exact hserves

end

namespace Deal

/-- The dues of a party until it waits for its shares of the partner's rows. -/
def pending (d : Deal) (party : Role) : List Due :=
  (d.opening party).flatMap Exchange.dues ++ [.send (d.rowsExchange party .partner).request]

theorem exchanges_dues (d : Deal) (party : Role) :
    (d.exchanges party).flatMap Exchange.dues =
      d.pending party ++ [.receive (d.rowsExchange party .partner).reply] := by
  rw [exchanges_eq, List.flatMap_append, pending, List.append_assoc]
  rfl

theorem map_flip_pending (d : Deal) (party : Role) :
    (d.pending party).map Due.flip = (d.opening party).flatMap Exchange.answers ++
      [.receive (d.rowsExchange party .partner).request] := by
  rw [pending, List.map_append, Exchange.map_flip_dues]
  rfl

namespace Concerns

variable {d : Deal} {parties : Role → Party} {streams : Role → WordStream} {slots : Nat}

/-- Two compatible parties wait for their shares of the partner's rows. -/
theorem stalls (h : d.Concerns parties streams slots) (hc : Compatible parties slots) (role : Role) :
    Stalls (Party.processWith 2 (parties role).config (parties role).input (streams role))
      (Dues.only 2 (d.pending role)) := by
  have hrole := hc.role_eq role
  obtain ⟨o, hserves⟩ := exists_serves (hc.make_ok role) (hc.unionSize_le role) (hc.width_lt role)
    (by rw [hrole]; exact h.union_eq role) (by rw [hrole]; exact h.rows_eq role)
    (by rw [hrole]; exact h.exchanges_calls hc role)
  rw [hrole, exchanges_dues] at hserves
  refine ⟨(d.rowsExchange role .partner).reply, [], o, ?_⟩
  rw [Dues.append_only]
  exact hserves

theorem beginning_pending (h : d.Concerns parties streams slots) (hc : Compatible parties slots)
    {random : Dealer.Randomness} {s : WordStream} (hd : d.Opened random s) (role : Role) :
    Beginning (d.pending role) := by
  refine ⟨⟨d.exchanges role, _, (d.exchanges_dues role).symm⟩, fun due hdue => ?_⟩
  rcases List.mem_append.1 hdue with hopening | hrequest
  · exact Exchange.sendable_dues (h.sendable_opening hc (hd.sendable_rowShares role)) hopening
  · cases List.mem_singleton.1 hrequest
    exact h.sendable_rowsRequest hc role .partner

end Concerns

end Deal

end PrivateLift
