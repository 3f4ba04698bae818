import PrivateLift.Dealer.Run
import PrivateLift.Proofs.Share
import PrivateLift.Proofs.Session.Client
import PrivateLift.Proofs.UnionMap

/-!
# The dealer answers the exchanges of both parties

In each of its steps the dealer receives one request from either party, in any order, and then sends
both replies. The lemmas below give, for every step, the replies and the checks under which the step
succeeds; `Deal.Accepted.serves_run` puts them together.
-/

namespace PrivateLift

namespace Exchange

/-- What the dealer has to do. -/
def answers (e : Exchange) : List Due := [.receive e.request, .send e.reply]

theorem map_flip_dues (exchanges : List Exchange) :
    (exchanges.flatMap dues).map Due.flip = exchanges.flatMap answers := by
  rw [List.map_flatMap]
  rfl

end Exchange

namespace Dues

/-- Dues to two peers. -/
def two (i j : Nat) (dues dues' : List Due) : Dues := fun peer =>
  if peer = i then dues else if peer = j then dues' else []

variable {i j : Nat}

theorem two_left (dues dues' : List Due) : two i j dues dues' i = dues := if_pos rfl

theorem two_right (h : i ≠ j) (dues dues' : List Due) : two i j dues dues' j = dues' := by
  rw [two, if_neg h.symm, if_pos rfl]

theorem two_of_ne {peer : Nat} (hi : peer ≠ i) (hj : peer ≠ j) (dues dues' : List Due) :
    two i j dues dues' peer = [] := by
  rw [two, if_neg hi, if_neg hj]

theorem two_comm (h : i ≠ j) (dues dues' : List Due) : two i j dues dues' = two j i dues' dues := by
  funext peer
  by_cases hi : peer = i
  · subst hi
    rw [two_left, two_right h.symm]
  · by_cases hj : peer = j
    · subst hj
      rw [two_left, two_right h]
    · rw [two_of_ne hi hj, two_of_ne hj hi]

theorem update_two_left (dues dues' later : List Due) :
    Function.update (two i j dues dues') i later = two i j later dues' := by
  funext peer
  by_cases hi : peer = i
  · subst hi
    rw [Function.update_self, two_left]
  · rw [Function.update_of_ne hi, two, two, if_neg hi, if_neg hi]

theorem update_two_right (h : i ≠ j) (dues dues' later : List Due) :
    Function.update (two i j dues dues') j later = two i j dues later := by
  rw [two_comm h, update_two_left, two_comm h.symm]

end Dues

namespace Dealer

variable {β : Type} {i j : Nat} {later later' : List Due} {o : Outcome DealerError β}

/-- Settling one due to each of two peers. What follows it may not be received if the other due is a
receive. -/
theorem serves_both (hij : i ≠ j) (due due' : Due) (h : due.IsReceive → NotReceiving later')
    (h' : due'.IsReceive → NotReceiving later)
    {f : (due.action i).Result × (due'.action j).Result → Step β}
    (rest : Serves (f (due.result i, due'.result j)).run (Dues.two i j later later') o) :
    Serves (both (due.action i) (due'.action j) >>= f).run
      (Dues.two i j (due :: later) (due' :: later')) o := by
  have alone : ∀ {k l : Nat} {dues : List Due}, k ≠ l → NotReceiving dues → ∀ {dues' : List Due},
      ∀ other, other ≠ l → NotReceiving (Dues.two k l dues dues' other) := by
    intro k l dues hkl hdues dues' other hother
    by_cases hk : other = k
    · subst hk
      rwa [Dues.two_left]
    · rw [Dues.two_of_ne hk hother]
      exact fun _ _ => (List.cons_ne_nil _ _).symm
  refine .either hij (Dues.two_left _ _) (Dues.two_right hij _ _)
    (fun k hk hk' => Dues.two_of_ne hk hk' _ _) ?_ ?_
  · rw [Dues.update_two_left]
    refine .perform due' (Dues.two_right hij _ _) (fun hr => alone hij (h' hr)) ?_
    rw [Dues.update_two_right hij]
    exact rest
  · rw [Dues.update_two_right hij]
    refine .perform due (Dues.two_left _ _) ?_ ?_
    · intro hr
      rw [Dues.two_comm hij]
      exact alone hij.symm (h hr)
    · rw [Dues.update_two_left]
      exact rest

theorem serves_receive (hij : i ≠ j) (e e' : Exchange)
    {f : e.request.1.Payload × e'.request.1.Payload → Step β}
    (rest : Serves (f (e.request.2, e'.request.2)).run
      (Dues.two i j (.send e.reply :: later) (.send e'.reply :: later')) o) :
    Serves (both (.receive i e.request.1) (.receive j e'.request.1) >>= f).run
      (Dues.two i j (e.answers ++ later) (e'.answers ++ later')) o :=
  serves_both hij (.receive e.request) (.receive e'.request)
    (fun _ _ _ h => by cases h) (fun _ _ _ h => by cases h) rest

theorem serves_send (hij : i ≠ j) (m m' : Message) {f : Unit × Unit → Step β}
    (rest : Serves (f ((), ())).run (Dues.two i j later later') o) :
    Serves (both (.send i m.1 m.2) (.send j m'.1 m'.2) >>= f).run
      (Dues.two i j (.send m :: later) (.send m' :: later')) o :=
  serves_both hij (.send m) (.send m') (fun h => h.elim) (fun h => h.elim) rest

/-! ## Steps -/

variable {seat : Seats}

theorem serves_intersect (hseat : seat .publisher ≠ seat .partner) {u v : IndexMap} {m n : Nat}
    (hlen : u.length = v.length) (hu : u.validate = .ok m) (hv : v.validate = .ok n)
    {f : (Role → IndexMap) × (Role → Nat) × IndexMap → Step β}
    (rest : ∀ maps counts, maps .publisher = u → maps .partner = v → counts .publisher = m →
      counts .partner = n → Serves (f (maps, counts, IndexMap.intersect u v)).run
        (Dues.two (seat .publisher) (seat .partner) later later') o) :
    Serves (intersect seat >>= f).run (Dues.two (seat .publisher) (seat .partner)
      ((Exchange.adapt u (IndexMap.intersect u v)).answers ++ later)
      ((Exchange.adapt v (IndexMap.intersect u v)).answers ++ later')) o := by
  rw [intersect, bind_assoc]
  refine serves_receive hseat (.adapt u _) (.adapt v _) ?_
  simp only [Exchange.adapt, hlen, ne_eq, not_true, if_false, hu, hv, Outcome.ofError,
    ofOutcome_ok_bind, bind_assoc]
  refine serves_send hseat ⟨.intersectionMap, _⟩ ⟨.intersectionMap, _⟩ ?_
  exact .note (rest _ _ rfl rfl rfl rfl)

theorem serves_shareCount (owner : Role) (hseat : seat owner ≠ seat owner.peer)
    (count mask : UInt32) {f : UInt32 → Step β}
    (rest : Serves (f (count ^^^ mask)).run
      (Dues.two (seat owner) (seat owner.peer) later later') o) :
    Serves (shareCount seat mask owner >>= f).run (Dues.two (seat owner) (seat owner.peer)
      ((Exchange.ownCount count mask).answers ++ later)
      ((Exchange.peerCount (count ^^^ mask)).answers ++ later')) o := by
  rw [shareCount, bind_assoc]
  refine serves_receive hseat (.ownCount count mask) (.peerCount (count ^^^ mask)) ?_
  simp only [Exchange.ownCount, Exchange.peerCount, bind_assoc, pure_bind]
  exact serves_send hseat ⟨.rowCountShare, mask⟩ ⟨.rowCountShare, count ^^^ mask⟩ rest

theorem checkRows_ok {owner : Role} {intersection : IndexMap} {share : UInt32} {rows : List Bytes}
    {width : Nat} (h : ∀ row ∈ rows, row.length = width) :
    checkRows owner intersection rows.length share (rows, intersection.length)
      (share, intersection, width) = .ok () := by
  have hfind : rows.find? (·.length ≠ width) = none := by
    rw [List.find?_eq_none]
    intro row hrow
    simp [h row hrow]
  simp only [checkRows, ne_eq, not_true, if_false, hfind]

theorem serves_shareRows (owner : Role) (hseat : seat owner ≠ seat owner.peer)
    {union intersection : IndexMap} {share : UInt32} {s s' : WordStream} {rows selected : List Bytes}
    {width : Nat} {mask masked : RowShares} (hrows : ∀ row ∈ rows, row.length = width)
    (hselect : IndexMap.selectRows rows union intersection = .ok selected)
    (hshare : RowShares.share selected width s = .ok (mask, masked, s')) {f : WordStream → Step β}
    (rest : Serves (f s').run (Dues.two (seat owner) (seat owner.peer) later later') o) :
    Serves (shareRows seat owner union intersection rows.length share s >>= f).run
      (Dues.two (seat owner) (seat owner.peer)
        ((Exchange.ownRows rows intersection.length mask).answers ++ later)
        ((Exchange.peerRows share intersection width masked).answers ++ later')) o := by
  rw [shareRows, bind_assoc]
  refine serves_receive hseat (.ownRows rows intersection.length mask)
    (.peerRows share intersection width masked) ?_
  simp only [Exchange.ownRows, Exchange.peerRows, checkRows_ok hrows, hselect, hshare,
    Outcome.ofError, Outcome.ofFault, ofOutcome_ok_bind, bind_assoc]
  refine serves_send hseat ⟨.rowShares, mask⟩ ⟨.rowShares, masked⟩ ?_
  exact .note rest

/-! ## Steps that fail -/

/-- The dealer replies to nobody if the unions of the parties differ in size. -/
theorem serves_intersect_mismatch (hseat : seat .publisher ≠ seat .partner) {u v : IndexMap}
    (hlen : u.length ≠ v.length) {f : (Role → IndexMap) × (Role → Nat) × IndexMap → Step β} :
    Serves (intersect seat >>= f).run (Dues.two (seat .publisher) (seat .partner)
      [.receive ⟨.unionMap, u⟩] [.receive ⟨.unionMap, v⟩])
      (.error (.error (.unionSizeMismatch u.length v.length))) := by
  rw [intersect, bind_assoc]
  refine serves_both hseat (.receive ⟨.unionMap, u⟩) (.receive ⟨.unionMap, v⟩)
    (fun _ _ _ h => by cases h) (fun _ _ _ h => by cases h) ?_
  dsimp only [Due.result]
  rw [if_pos hlen]
  exact .done _ fun peer => by simp [Dues.two]

/-- The dealer replies to nobody if the shares of a party's rows cannot be drawn. -/
theorem serves_shareRows_fault (owner : Role) (hseat : seat owner ≠ seat owner.peer)
    {union intersection : IndexMap} {share : UInt32} {s : WordStream} {rows selected : List Bytes}
    {width : Nat} {fault : Fault} (hrows : ∀ row ∈ rows, row.length = width)
    (hselect : IndexMap.selectRows rows union intersection = .ok selected)
    (hshare : RowShares.share selected width s = .error fault) {f : WordStream → Step β} :
    Serves (shareRows seat owner union intersection rows.length share s >>= f).run
      (Dues.two (seat owner) (seat owner.peer)
        [.receive ⟨.ownRows, (rows, intersection.length)⟩]
        [.receive ⟨.peerRows, (share, intersection, width)⟩]) (.error (.fault fault)) := by
  rw [shareRows, bind_assoc]
  refine serves_both hseat (.receive ⟨.ownRows, (rows, intersection.length)⟩)
    (.receive ⟨.peerRows, (share, intersection, width)⟩)
    (fun _ _ _ h => by cases h) (fun _ _ _ h => by cases h) ?_
  simp only [Due.result, checkRows_ok hrows, hselect, hshare, Outcome.ofError, Outcome.ofFault,
    ofOutcome_ok_bind, bind_assoc]
  exact .done _ fun peer => by simp [Dues.two]

/-- With an error of its own the dealer ends after a log entry, with a fault at once. -/
theorem serves_run {random : Randomness} {dues : Dues} {halt : Halt DealerError}
    (h : Serves (steps (fun | .publisher => 0 | .partner => 1) random).run dues (.error halt)) :
    Serves (run 0 1 random) dues (.error halt) := by
  refine h.bind_of_settled fun dues hdues => ?_
  cases halt with
  | fault f => exact .done _ hdues
  | error e => exact .note (.done _ hdues)

end Dealer

/-! ## A whole session -/

/-- What is exchanged in a session: what either party sends and what it gets. -/
structure Deal where
  /-- The union map of each party. -/
  union : Role → IndexMap
  intersection : IndexMap
  /-- The row count of each party and its owner's share of it. -/
  count : Role → UInt32
  countMask : Role → UInt32
  /-- The rows of each party in the order of its union map, and the width that its peer
  announces. -/
  rows : Role → List Bytes
  width : Role → Nat
  /-- The shares of each party's rows: the owner's and the peer's. -/
  mask : Role → RowShares
  masked : Role → RowShares

namespace Deal

/-- The share of an owner's row count that a party gets. -/
def countShare (d : Deal) (party owner : Role) : UInt32 :=
  if owner = party then d.countMask owner else d.count owner ^^^ d.countMask owner

/-- Both shares of an owner's row count reveal it, whatever the mask. -/
theorem reveal_countShare (d : Deal) (owner : Role) :
    ShareValue.reveal (· ^^^ ·) ⟨d.countShare owner owner⟩ ⟨d.countShare owner.peer owner⟩ =
      d.count owner := by
  have hpeer : owner ≠ owner.peer := by cases owner <;> decide
  rw [ShareValue.reveal, countShare, countShare, if_pos rfl, if_neg hpeer, UInt32.xor_comm,
    UInt32.xor_assoc, UInt32.xor_self, UInt32.xor_zero]

/-- The shares of an owner's rows that a party gets. -/
def rowShares (d : Deal) (party owner : Role) : RowShares :=
  if owner = party then d.mask owner else d.masked owner

/-- The exchange with a party in which an owner's row count is shared. -/
def countExchange (d : Deal) (party owner : Role) : Exchange :=
  if owner = party then .ownCount (d.count owner) (d.countShare party owner)
  else .peerCount (d.countShare party owner)

/-- The exchange with a party in which an owner's rows are shared. -/
def rowsExchange (d : Deal) (party owner : Role) : Exchange :=
  if owner = party then .ownRows (d.rows owner) d.intersection.length (d.rowShares party owner)
  else .peerRows (d.countShare party owner) d.intersection (d.width owner) (d.rowShares party owner)

theorem rowShares_cases (d : Deal) (party owner : Role) :
    d.rowShares party owner = d.mask owner ∨ d.rowShares party owner = d.masked owner := by
  unfold rowShares
  split
  · exact .inl rfl
  · exact .inr rfl

theorem rowsExchange_reply (d : Deal) (party owner : Role) :
    (d.rowsExchange party owner).reply = ⟨.rowShares, d.rowShares party owner⟩ := by
  unfold rowsExchange
  split <;> rfl

/-- All exchanges with a party. -/
def exchanges (d : Deal) (party : Role) : List Exchange :=
  [.adapt (d.union party) d.intersection, d.countExchange party .publisher,
    d.countExchange party .partner, d.rowsExchange party .publisher, d.rowsExchange party .partner]

/-- The dealer accepts what the parties send. -/
structure Checked (d : Deal) (random : Dealer.Randomness) : Prop where
  length_eq : (d.union .publisher).length = (d.union .partner).length
  validate_ok : ∀ party, (d.union party).validate = .ok (d.rows party).length
  intersection_eq :
    d.intersection = IndexMap.intersect (d.union .publisher) (d.union .partner)
  countMask_eq : d.countMask = random.countMask
  width_eq : ∀ owner, ∀ row ∈ d.rows owner, row.length = d.width owner

/-- The dealer accepts what the parties send and deals out these shares. -/
structure Accepted (d : Deal) (random : Dealer.Randomness) : Prop extends d.Checked random where
  shared : ∃ (selected : Role → List Bytes) (s s' : WordStream),
    (∀ owner, IndexMap.selectRows (d.rows owner) (d.union owner) d.intersection =
      .ok (selected owner)) ∧
    RowShares.share (selected .publisher) (d.width .publisher) random.rows =
      .ok (d.mask .publisher, d.masked .publisher, s) ∧
    RowShares.share (selected .partner) (d.width .partner) s =
      .ok (d.mask .partner, d.masked .partner, s')

/-- The dealer accepts what the parties send and deals out all shares but those of the partner's
rows, which are drawn from the given words. -/
structure Opened (d : Deal) (random : Dealer.Randomness) (s : WordStream) : Prop
    extends d.Checked random where
  shared : ∃ selected,
    IndexMap.selectRows (d.rows .publisher) (d.union .publisher) d.intersection = .ok selected ∧
    RowShares.share selected (d.width .publisher) random.rows =
      .ok (d.mask .publisher, d.masked .publisher, s)

theorem Accepted.opened {d : Deal} {random : Dealer.Randomness} (h : d.Accepted random) :
    ∃ s, d.Opened random s ∧ ∃ selected s',
      IndexMap.selectRows (d.rows .partner) (d.union .partner) d.intersection = .ok selected ∧
      RowShares.share selected (d.width .partner) s =
        .ok (d.mask .partner, d.masked .partner, s') := by
  obtain ⟨selected, s, s', hselected, hpublisher, hpartner⟩ := h.shared
  exact ⟨s, ⟨h.toChecked, _, hselected _, hpublisher⟩, _, s', hselected _, hpartner⟩

/-- The shares of a party's rows split some rows of the announced width. -/
theorem Accepted.splits {d : Deal} {random : Dealer.Randomness} (h : d.Accepted random)
    (owner : Role) :
    ∃ selected, BitMatrix.Storable selected.length (8 * d.width owner) ∧
      RowShares.Splits (d.mask owner) (d.masked owner) selected (d.width owner) := by
  obtain ⟨selected, s, s', -, hpublisher, hpartner⟩ := h.shared
  cases owner with
  | publisher => exact ⟨_, RowShares.share_inv hpublisher⟩
  | partner => exact ⟨_, RowShares.share_inv hpartner⟩

theorem sendable_of_splits {d : Deal} {owner : Role} {selected : List Bytes} {width : Nat}
    (hstorable : BitMatrix.Storable selected.length (8 * width))
    (hsplits : RowShares.Splits (d.mask owner) (d.masked owner) selected width) (party : Role) :
    MessageKind.rowShares.Sendable (d.rowShares party owner) := by
  have hstorable := BitMatrix.storable_comm hstorable
  rcases d.rowShares_cases party owner with heq | heq
  · rw [heq]
    refine ⟨hsplits.wellFormed_left, ?_⟩
    rw [hsplits.rowBits_left, hsplits.batchSize_left]
    exact hstorable
  · rw [heq]
    refine ⟨hsplits.wellFormed_right, ?_⟩
    rw [hsplits.rowBits_right, hsplits.batchSize_right]
    exact hstorable

theorem Accepted.sendable_rowShares {d : Deal} {random : Dealer.Randomness} (h : d.Accepted random)
    (party owner : Role) : MessageKind.rowShares.Sendable (d.rowShares party owner) := by
  obtain ⟨selected, hstorable, hsplits⟩ := h.splits owner
  exact sendable_of_splits hstorable hsplits party

theorem Opened.sendable_rowShares {d : Deal} {random : Dealer.Randomness} {s : WordStream}
    (h : d.Opened random s) (party : Role) :
    MessageKind.rowShares.Sendable (d.rowShares party .publisher) := by
  obtain ⟨selected, -, hshared⟩ := h.shared
  obtain ⟨hstorable, hsplits⟩ := RowShares.share_inv hshared
  exact sendable_of_splits hstorable hsplits party

/-- The exchanges with a party before the partner's rows are shared. -/
def opening (d : Deal) (party : Role) : List Exchange :=
  [.adapt (d.union party) d.intersection, d.countExchange party .publisher,
    d.countExchange party .partner, d.rowsExchange party .publisher]

theorem exchanges_eq (d : Deal) (party : Role) :
    d.exchanges party = d.opening party ++ [d.rowsExchange party .partner] := rfl

/-- The dealer answers the exchanges of the opening and goes on with the partner's rows. -/
theorem Opened.serves_steps {d : Deal} {random : Dealer.Randomness} {s : WordStream}
    (h : d.Opened random s) {seat : Dealer.Seats} (hseat : seat .publisher ≠ seat .partner)
    {later later' : List Due} {o : Outcome DealerError Unit}
    (rest : Serves (Dealer.shareRows seat .partner (d.union .partner) d.intersection
      (d.rows .partner).length (d.count .partner ^^^ d.countMask .partner) s >>= fun _ =>
        pure ()).run (Dues.two (seat .partner) (seat .publisher) later' later) o) :
    Serves (Dealer.steps seat random).run (Dues.two (seat .publisher) (seat .partner)
      ((d.opening .publisher).flatMap Exchange.answers ++ later)
      ((d.opening .partner).flatMap Exchange.answers ++ later')) o := by
  obtain ⟨selected, hselected, hpublisher⟩ := h.shared
  have hpublisherExchanges : (d.opening .publisher).flatMap Exchange.answers ++ later =
      (Exchange.adapt (d.union .publisher) d.intersection).answers ++
      ((Exchange.ownCount (d.count .publisher) (d.countMask .publisher)).answers ++
      ((Exchange.peerCount (d.count .partner ^^^ d.countMask .partner)).answers ++
      ((Exchange.ownRows (d.rows .publisher) d.intersection.length (d.mask .publisher)).answers ++
        later))) := rfl
  have hpartnerExchanges : (d.opening .partner).flatMap Exchange.answers ++ later' =
      (Exchange.adapt (d.union .partner) d.intersection).answers ++
      ((Exchange.peerCount (d.count .publisher ^^^ d.countMask .publisher)).answers ++
      ((Exchange.ownCount (d.count .partner) (d.countMask .partner)).answers ++
      ((Exchange.peerRows (d.count .publisher ^^^ d.countMask .publisher) d.intersection
        (d.width .publisher) (d.masked .publisher)).answers ++ later'))) := rfl
  rw [hpublisherExchanges, hpartnerExchanges]
  unfold Dealer.steps
  rw [h.intersection_eq] at hselected rest ⊢
  rw [h.countMask_eq] at rest ⊢
  refine Dealer.serves_intersect hseat h.length_eq (h.validate_ok _) (h.validate_ok _) ?_
  intro maps counts hmap hmap' hcount hcount'
  simp only [hmap, hmap', hcount, hcount']
  have hpublisherPeer : Role.publisher.peer = .partner := rfl
  have hpartnerPeer : Role.partner.peer = .publisher := rfl
  refine Dealer.serves_shareCount .publisher hseat _ _ ?_
  rw [hpublisherPeer, Dues.two_comm hseat]
  refine Dealer.serves_shareCount .partner hseat.symm _ _ (.note ?_)
  rw [hpartnerPeer, Dues.two_comm hseat.symm]
  refine Dealer.serves_shareRows .publisher hseat (h.width_eq _) hselected hpublisher ?_
  rw [hpublisherPeer, Dues.two_comm hseat]
  exact rest

/-- The dealer answers all exchanges with both parties. -/
theorem Accepted.serves_run {d : Deal} {random : Dealer.Randomness} (h : d.Accepted random) :
    Serves (Dealer.run 0 1 random) (Dues.two 0 1
      ((d.exchanges .publisher).flatMap Exchange.answers)
      ((d.exchanges .partner).flatMap Exchange.answers)) (.ok ()) := by
  obtain ⟨s, hopened, selected, s', hselected, hshared⟩ := h.opened
  refine Serves.bind (a := .ok ()) ?_ rfl
  rw [exchanges_eq, exchanges_eq, List.flatMap_append, List.flatMap_append]
  refine hopened.serves_steps (by decide) ?_
  refine Dealer.serves_shareRows .partner (by decide) (h.width_eq _) hselected hshared ?_
  exact .done _ fun peer => by simp [Dues.two]

end Deal

end PrivateLift
