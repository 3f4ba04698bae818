import PrivateLift.Proofs.Session.Parties
import PrivateLift.Proofs.Session.Settling

/-!
# Compatible parties and the dealer in lockstep

A session of two compatible parties and the dealer begins with balanced dues
(`Deal.Fits.settles_start`), so in whatever order the programs go on, no channel holds more than one
message, this message is the one that its receiver reads next, some program can go on until all have
ended, and the results do not depend on the order.
-/

namespace PrivateLift

/-! ## Dues around one program -/

namespace Alternates

variable {dues : List Due}

theorem send (h : Alternates dues) (m : Message) : Alternates (.send m :: dues) := by
  cases dues with
  | nil => exact .singleton _
  | cons due dues => exact List.isChain_cons_cons.2 ⟨fun hboth => hboth.1, h⟩

theorem receive (h : Alternates dues) (hnext : NotReceiving dues) (m : Message) :
    Alternates (.receive m :: dues) := by
  cases dues with
  | nil => exact .singleton _
  | cons due dues =>
    refine List.isChain_cons_cons.2 ⟨?_, h⟩
    rintro ⟨-, hdue⟩
    cases due with
    | send m' => exact hdue
    | receive m' => exact hnext m' dues rfl

theorem exchange_dues (exchanges : List Exchange) : Alternates (exchanges.flatMap Exchange.dues) := by
  induction exchanges with
  | nil => exact List.isChain_nil
  | cons e exchanges ih =>
    have hnext : NotReceiving (exchanges.flatMap Exchange.dues) := by
      intro m rest heq
      cases exchanges <;> cases heq
    exact (ih.receive hnext e.reply).send e.request

theorem exchange_answers (exchanges : List Exchange) :
    Alternates (exchanges.flatMap Exchange.answers) := by
  induction exchanges with
  | nil => exact List.isChain_nil
  | cons e exchanges ih =>
    refine (ih.send e.reply).receive ?_ e.request
    intro m rest heq
    cases heq

end Alternates

/-- Every message of the exchange can be sent. -/
def Exchange.Sendable (e : Exchange) : Prop :=
  e.request.Sendable ∧ e.reply.Sendable

theorem Exchange.sendable_dues {exchanges : List Exchange} (h : ∀ e ∈ exchanges, e.Sendable)
    {due : Due} (hdue : due ∈ exchanges.flatMap Exchange.dues) : due.message.Sendable := by
  obtain ⟨e, he, hmem⟩ := List.mem_flatMap.1 hdue
  simp only [Exchange.dues, List.mem_cons, List.not_mem_nil, or_false] at hmem
  rcases hmem with rfl | rfl
  · exact (h e he).1
  · exact (h e he).2

/-- The dues of three programs, of which the first two settle the given ones with the third. -/
def starDues (first second : List Due) : Nat → Dues
  | 0 => .only 2 first
  | 1 => .only 2 second
  | 2 => .two 0 1 (first.map .flip) (second.map .flip)
  | _ => fun _ => []

/-- Either two programs have nothing to settle, or one of them is the third one, and its dues are
the other side of the dues of the other one. -/
theorem starDues_cases (first second : List Due) (i j : Nat) :
    (starDues first second i j = [] ∧ starDues first second j i = []) ∨
      ∃ own, (own = first ∨ own = second) ∧
        ((i < 2 ∧ j = 2 ∧ starDues first second i j = own ∧
          starDues first second j i = own.map .flip) ∨
        (i = 2 ∧ j < 2 ∧ starDues first second i j = own.map .flip ∧
          starDues first second j i = own)) := by
  match i, j with
  | 0, 2 => exact .inr ⟨first, .inl rfl, .inl ⟨by decide, rfl, rfl, rfl⟩⟩
  | 1, 2 => exact .inr ⟨second, .inr rfl, .inl ⟨by decide, rfl, rfl, rfl⟩⟩
  | 2, 0 => exact .inr ⟨first, .inl rfl, .inr ⟨rfl, by decide, rfl, rfl⟩⟩
  | 2, 1 => exact .inr ⟨second, .inr rfl, .inr ⟨rfl, by decide, rfl, rfl⟩⟩
  | 0, 0 | 0, 1 | 1, 0 | 1, 1 | 2, 2 => exact .inl ⟨rfl, rfl⟩
  | 0, j + 3 | 1, j + 3 | 2, j + 3 => exact .inl ⟨rfl, rfl⟩
  | i + 3, 0 | i + 3, 1 | i + 3, 2 | i + 3, j + 3 => exact .inl ⟨rfl, rfl⟩

/-- The dues begin a list of exchanges, perhaps with a request alone at the end, and their messages
can be sent. -/
structure Beginning (own : List Due) : Prop where
  begins : ∃ exchanges : List Exchange, own <+: exchanges.flatMap Exchange.dues
  sendable : ∀ due ∈ own, due.message.Sendable

theorem Beginning.alternates {own : List Due} (h : Beginning own) : Alternates own := by
  obtain ⟨exchanges, rest, hrest⟩ := h.begins
  have hchain := Alternates.exchange_dues exchanges
  rw [← hrest] at hchain
  exact hchain.left_of_append

theorem Beginning.alternates_flip {own : List Due} (h : Beginning own) :
    Alternates (own.map .flip) := by
  obtain ⟨exchanges, rest, hrest⟩ := h.begins
  have hchain := Alternates.exchange_answers exchanges
  rw [← Exchange.map_flip_dues, ← hrest, List.map_append] at hchain
  exact hchain.left_of_append

theorem Exchange.beginning {exchanges : List Exchange} (h : ∀ e ∈ exchanges, e.Sendable) :
    Beginning (exchanges.flatMap Exchange.dues) :=
  ⟨⟨exchanges, List.prefix_rfl⟩, fun _ hdue => sendable_dues h hdue⟩

/-- At the start nothing is on the way, and the dealer's dues to a party are the other side of the
party's dues. -/
theorem Balanced.start {α β γ : Type} {first second : List Due} (hfirst : Beginning first)
    (hsecond : Beginning second) (a : ChannelProgram α) (b : ChannelProgram β)
    (c : ChannelProgram γ) :
    Balanced (starDues first second) (fun _ _ => []) (Session.start a b c).traffic := by
  have hbeginning : ∀ own, own = first ∨ own = second → Beginning own := by
    rintro own (rfl | rfl) <;> assumption
  refine ⟨rfl, rfl, ?_, ?_, ?_, fun _ _ => rfl, fun _ _ => rfl, ?_⟩
  · intro i j hne
    rcases starDues_cases first second i j with ⟨hnil, -⟩ | ⟨-, -, ⟨hi, hj, -⟩ | ⟨hi, hj, -⟩⟩
    · exact absurd hnil hne
    · exact .inl ⟨hi, hj⟩
    · exact .inr ⟨hi, hj⟩
  · intro i j
    rcases starDues_cases first second i j with
      ⟨hnil, -⟩ | ⟨own, hown, ⟨-, -, heq, -⟩ | ⟨-, -, heq, -⟩⟩
    · rw [hnil]
      exact List.isChain_nil
    · rw [heq]
      exact (hbeginning own hown).alternates
    · rw [heq]
      exact (hbeginning own hown).alternates_flip
  · intro i j due hdue
    rcases starDues_cases first second i j with
      ⟨hnil, -⟩ | ⟨own, hown, ⟨-, -, heq, -⟩ | ⟨-, -, heq, -⟩⟩
    · rw [hnil] at hdue
      cases hdue
    · rw [heq] at hdue
      exact (hbeginning own hown).sendable due hdue
    · rw [heq] at hdue
      obtain ⟨due', hmem, rfl⟩ := List.mem_map.1 hdue
      have hsendable := (hbeginning own hown).sendable due' hmem
      cases due' <;> exact hsendable
  · intro i j
    rcases starDues_cases first second i j with
      ⟨hnil, hnil'⟩ | ⟨own, -, ⟨-, -, heq, heq'⟩ | ⟨-, -, heq, heq'⟩⟩
    · rw [hnil, hnil']
      exact .start []
    · rw [heq, heq']
      exact .start own
    · rw [heq, heq']
      exact (Matches.start own).symm

/-! ## Compatible parties -/

namespace Deal.Concerns

variable {d : Deal} {parties : Role → Party} {streams : Role → WordStream} {slots : Nat}

theorem union_lt (h : d.Concerns parties streams slots) (hc : Compatible parties slots)
    (role : Role) : (d.union role).length < UInt64.size := by
  rw [h.union_eq, Party.length_drawn]
  refine Nat.lt_of_le_of_lt (hc.unionSize_le role) ?_
  decide

theorem intersection_lt (h : d.Concerns parties streams slots) (hc : Compatible parties slots) :
    d.intersection.length < UInt64.size :=
  h.length_intersection hc .publisher ▸ h.union_lt hc .publisher

theorem sendable_rowsRequest (h : d.Concerns parties streams slots) (hc : Compatible parties slots)
    (role owner : Role) : (d.rowsExchange role owner).request.Sendable := by
  rw [rowsExchange]
  have hwidth : owner.rowWidth slots < UInt64.size :=
    Role.rowWidth_lt (hc.slots_eq owner ▸ hc.width_lt owner) owner
  have hunion : (parties owner).input.unionSize < UInt64.size :=
    Nat.lt_of_le_of_lt (hc.unionSize_le owner) (by decide)
  split
  · refine ⟨⟨?_, ?_⟩, h.intersection_lt hc⟩
    · rw [h.rows_eq]
      exact Nat.lt_of_le_of_lt (hc.length_packed_le owner _) hunion
    · intro row hrow
      rw [h.rows_eq] at hrow
      rw [hc.length_of_mem_packed owner _ hrow]
      exact hwidth
  · refine ⟨h.intersection_lt hc, ?_⟩
    rw [h.width_eq]
    exact hwidth

theorem sendable_rowsExchange (h : d.Concerns parties streams slots)
    (hc : Compatible parties slots) {role owner : Role}
    (hshares : MessageKind.rowShares.Sendable (d.rowShares role owner)) :
    (d.rowsExchange role owner).Sendable := by
  refine ⟨h.sendable_rowsRequest hc role owner, ?_⟩
  rw [rowsExchange_reply]
  exact hshares

theorem sendable_opening (h : d.Concerns parties streams slots) (hc : Compatible parties slots)
    {role : Role} (hshares : MessageKind.rowShares.Sendable (d.rowShares role .publisher)) :
    ∀ e ∈ d.opening role, e.Sendable := by
  have hcount : ∀ owner, (d.countExchange role owner).Sendable := by
    intro owner
    rw [countExchange]
    split <;> exact ⟨trivial, trivial⟩
  intro e he
  simp only [opening, List.mem_cons, List.not_mem_nil, or_false] at he
  rcases he with rfl | rfl | rfl | rfl
  · exact ⟨h.union_lt hc role, h.intersection_lt hc⟩
  · exact hcount _
  · exact hcount _
  · exact h.sendable_rowsExchange hc hshares

theorem sendable (h : d.Concerns parties streams slots) (hc : Compatible parties slots)
    {random : Dealer.Randomness} (hd : d.Accepted random) (role : Role) :
    ∀ e ∈ d.exchanges role, e.Sendable := by
  intro e he
  rw [exchanges_eq, List.mem_append, List.mem_singleton] at he
  rcases he with he | rfl
  · exact h.sendable_opening hc (hd.sendable_rowShares _ _) e he
  · exact h.sendable_rowsExchange hc (hd.sendable_rowShares _ _)

end Deal.Concerns

namespace Deal.Fits

variable {d : Deal} {parties : Role → Party} {streams : Role → WordStream} {slots : Nat}

/-- A session that fits the deal starts with nothing on the way, settles the dues of all exchanges
with both parties, and returns the results of the deal. -/
theorem settles_start (h : d.Fits parties streams slots) (hc : Compatible parties slots)
    {random : Dealer.Randomness} (hd : d.Accepted random) :
    (Session.start
      (Party.processWith 2 (parties .publisher).config (parties .publisher).input
        (streams .publisher))
      (Party.processWith 2 (parties .partner).config (parties .partner).input (streams .partner))
      (Dealer.run 0 1 random)).Settles
      (starDues ((d.exchanges .publisher).flatMap Exchange.dues)
        ((d.exchanges .partner).flatMap Exchange.dues)) (fun _ _ => [])
      (.ok (d.result .publisher slots)) (.ok (d.result .partner slots)) (.ok ()) := by
  refine ⟨h.serves_party hc .publisher, h.serves_party hc .partner, ?_, Balanced.start
    (Exchange.beginning (h.sendable hc hd .publisher))
    (Exchange.beginning (h.sendable hc hd .partner)) _ _ _⟩
  rw [starDues, Exchange.map_flip_dues, Exchange.map_flip_dues]
  exact hd.serves_run

end Deal.Fits

/-! ## Lockstep -/

namespace Session

/-- The receiver's next message from the sender is of the given kind. -/
def ReadsNext {α β γ : Type} (s : Session α β γ) (receiver sender : Nat) (kind : MessageKind) :
    Prop :=
  match receiver with
  | 0 => PrivateLift.ReadsNext sender kind s.first
  | 1 => PrivateLift.ReadsNext sender kind s.second
  | 2 => PrivateLift.ReadsNext sender kind s.third
  | _ => False

/-- The state of a session of two parties and the dealer in which nothing can go wrong any more. -/
structure InLockstep {ε ε' α β : Type}
    (s : Session (Outcome ε α) (Outcome ε β) (Outcome ε' Unit)) (a : α) (b : β) : Prop where
  /-- A channel holds at most one message. -/
  length_le : ∀ sender receiver, (s.traffic.queue sender receiver).length ≤ 1
  /-- A message on the way is of the kind that its receiver reads next, and can be read. -/
  head : ∀ sender receiver message later, s.traffic.queue sender receiver = message :: later →
    ∃ kind kinds payload, s.traffic.kinds sender receiver = kind :: kinds ∧
      s.ReadsNext receiver sender kind ∧ kind.codec.read message = .ok payload
  /-- Some program can go on unless all have ended well. -/
  progress : (∃ s', Step s s') ∨
    (s.first = .done (.ok a) ∧ s.second = .done (.ok b) ∧ s.third = .done (.ok ()))
  /-- Programs that have ended have ended well. -/
  first_eq : ∀ o, s.first = .done o → o = .ok a
  second_eq : ∀ o, s.second = .done o → o = .ok b
  third_eq : ∀ o, s.third = .done o → o = .ok ()
  /-- No message is left unread. -/
  unread : ∀ o o' o'', s.first = .done o → s.second = .done o' → s.third = .done o'' →
    ∀ sender receiver, s.traffic.queue sender receiver = []

theorem Settles.inLockstep {ε ε' α β : Type}
    {s : Session (Outcome ε α) (Outcome ε β) (Outcome ε' Unit)} {dues : Nat → Dues}
    {flight : Nat → Nat → List Message} {a : α} {b : β}
    (h : s.Settles dues flight (.ok a) (.ok b) (.ok ())) : s.InLockstep a b := by
  have hb := h.balanced
  refine ⟨?_, ?_, ?_, ?_, ?_, ?_, ?_⟩
  · intro i j
    rw [hb.queue_eq, List.length_map]
    exact hb.length_flight_le i j
  · intro i j message later hqueue
    rw [hb.queue_eq, List.map_eq_cons_iff] at hqueue
    obtain ⟨m, rest, hflight, rfl, -⟩ := hqueue
    obtain ⟨later', hdue⟩ := hb.due_of_flight hflight
    have hsendable : m.1.Sendable m.2 :=
      hb.sendable j i (.receive m) (by rw [hdue]; exact List.mem_cons_self)
    refine ⟨m.1, rest.map (·.1), m.2, ?_, ?_, MessageKind.read_encode hsendable⟩
    · rw [hb.kinds_eq, hflight]
      rfl
    · have hj : j = 0 ∨ j = 1 ∨ j = 2 := by
        have := hb.star j i (by rw [hdue]; exact List.cons_ne_nil _ _)
        omega
      rcases hj with rfl | rfl | rfl
      · exact h.first.readsNext hdue
      · exact h.second.readsNext hdue
      · exact h.third.readsNext hdue
  · rcases h.progress with hstep | ⟨hfirst, hsecond, hthird, -⟩
    · exact .inl hstep
    · exact .inr ⟨hfirst, hsecond, hthird⟩
  · intro o ho
    have hserves := h.first
    rw [ho] at hserves
    exact hserves.done_inv
  · intro o ho
    have hserves := h.second
    rw [ho] at hserves
    exact hserves.done_inv
  · intro o ho
    have hserves := h.third
    rw [ho] at hserves
    exact hserves.done_inv
  · intro o o' o'' ho ho' ho'' i j
    obtain ⟨first, second, third, t⟩ := s
    subst ho ho' ho''
    rcases h.progress with ⟨s', hstep⟩ | ⟨-, -, -, hnil⟩
    · cases hstep with
      | first hacts => cases hacts
      | second hacts => cases hacts
      | third hacts => cases hacts
    · rw [hb.queue_eq, hb.flight_eq_nil hnil]
      rfl

/-- Two parties with valid parameters, inputs of one size and the same number of conversions run in
lockstep with the dealer, whatever the order of the steps is. Their results are the same in every
order. The last hypothesis is the dealer's own condition that shares of so many rows can be
stored. -/
theorem lockstep {c c' : Config} {input input' : LocalInput} (hrole : c.role = .publisher)
    (hrole' : c'.role = .partner) (hconfig : c.validate = .ok ()) (hconfig' : c'.validate = .ok ())
    (hinput : input.validate c = .ok ()) (hinput' : input'.validate c' = .ok ())
    (hslots : c'.conversionsPerUser = c.conversionsPerUser)
    (hsize : input.unionSize = input'.unionSize) (hunion : input.unionSize ≤ IndexMap.maxUnion)
    (hstorable : BitMatrix.Storable (8 * Role.partner.rowWidth c.conversionsPerUser)
      (commonRows input input').length) (s s' : WordStream) (random : Dealer.Randomness) :
    ∃ a b, ∀ state, (start (Party.processWith 2 c input s) (Party.processWith 2 c' input' s')
      (Dealer.run 0 1 random)).Reaches state → state.InLockstep a b := by
  obtain ⟨parties, hc, rfl, rfl, rfl, rfl⟩ := exists_compatible hrole hrole' hconfig hconfig' hinput
    hinput' hslots hsize hunion hstorable.rows_lt
  obtain ⟨d, hd, hfits⟩ := hc.exists_deal hstorable (Role.pick s s') random
  refine ⟨d.result .publisher (parties .publisher).config.conversionsPerUser,
    d.result .partner (parties .publisher).config.conversionsPerUser, ?_⟩
  intro state hreach
  obtain ⟨dues, flight, hsettles⟩ := (hfits.settles_start hc hd).reaches hreach
  exact hsettles.inLockstep

/-- Such parties can succeed. -/
theorem exists_success (c c' : Config) (input input' : LocalInput) (hrole : c.role = .publisher)
    (hrole' : c'.role = .partner) (hconfig : c.validate = .ok ()) (hconfig' : c'.validate = .ok ())
    (hinput : input.validate c = .ok ()) (hinput' : input'.validate c' = .ok ())
    (hslots : c'.conversionsPerUser = c.conversionsPerUser)
    (hsize : input.unionSize = input'.unionSize) (hunion : input.unionSize ≤ IndexMap.maxUnion)
    (hstorable : BitMatrix.Storable (8 * Role.partner.rowWidth c.conversionsPerUser)
      (commonRows input input').length) (s s' : WordStream) (random : Dealer.Randomness) :
    ∃ state a b, (start (Party.processWith 2 c input s) (Party.processWith 2 c' input' s')
      (Dealer.run 0 1 random)).Reaches state ∧
      state.first = .done (.ok a) ∧ state.second = .done (.ok b) := by
  obtain ⟨parties, hc, rfl, rfl, rfl, rfl⟩ := exists_compatible hrole hrole' hconfig hconfig' hinput
    hinput' hslots hsize hunion hstorable.rows_lt
  obtain ⟨d, hd, hfits⟩ := hc.exists_deal hstorable (Role.pick s s') random
  obtain ⟨state, hreach, hfirst, hsecond, -⟩ := (hfits.settles_start hc hd).exists_ended
  exact ⟨state, _, _, hreach, hfirst, hsecond⟩

/-- Two parties with different windows whose unions have two rows, one of them in common. -/
theorem lockstep_one_common_row : ∃ a b, ∀ state,
    (start
      (Party.processWith 2 ⟨.publisher, 1, 10⟩ (.publisher { dummyRows := [false, true] })
        (.splitMix 1))
      (Party.processWith 2 ⟨.partner, 1, 20⟩
        (.partner { purchaseTimestamps := [[5]], purchaseValues := [[1]]
                    purchaseValuesSquared := [[1]], dummyRows := [false, false] })
        (.splitMix 2))
      (Dealer.run 0 1 ⟨fun _ => 7, .splitMix 3⟩)).Reaches state → state.InLockstep a b := by
  apply lockstep
  case hunion => decide
  case hstorable => decide
  all_goals rfl

end Session

end PrivateLift
