import PrivateLift.Proofs.Session.Dealer
import PrivateLift.Proofs.Session.Exchanged

/-!
# What the dealer has accepted

The dealer replies to both parties in turn and only after its checks, so the number of its replies
tells how far it has come. If it has sent five replies to each of them, then no check has failed and
it has answered the exchanges of a deal that it accepts (`Dealer.exists_deal`), whatever happened
afterwards.
-/

namespace PrivateLift

/-- The number of messages that have been sent. -/
def sends (deeds : List Deed) : Nat := (deeds.filterMap Deed.sent?).length

theorem sends_sent (m : Message) (deeds : List Deed) :
    sends (.sent m :: deeds) = sends deeds + 1 := rfl

theorem sends_took (kind : MessageKind) (bytes : Bytes) (deeds : List Deed) :
    sends (.took kind bytes :: deeds) = sends deeds := rfl

theorem Exchange.Answered.sends_eq {e : Exchange} {record rest : List Deed}
    (h : e.Answered record rest) : sends record = sends rest + 1 := by
  obtain ⟨bytes, -, rfl⟩ := h
  rw [sends_took, sends_sent]

theorem ChannelAction.Puts.sends_error {x : ChannelAction} {e : ChannelError}
    {record record' : Record} (h : Puts x (.error e) record record') (peer : Nat) :
    sends (record' peer) = sends (record peer) := by
  cases h with
  | malformed sender hread =>
    by_cases hpeer : peer = sender
    · subst hpeer
      rw [Record.push_self, sends_took]
    · rw [Record.push_of_ne _ hpeer]
  | failed => rfl

/-- An action has succeeded if something is sent and a failure would end the program. -/
theorem ChannelAction.Puts.ok_of_sends {x : ChannelAction} {reply : x.Reply} {rest record : Record}
    (h : Puts x reply rest record) (hends : ∀ e, reply = .error e → rest = .empty) {peer : Nat}
    (hpos : 0 < sends (record peer)) :
    ∃ result deed, reply = .ok result ∧ Succeeds x result deed ∧ record = rest.push x.peer deed := by
  cases reply with
  | error e =>
    rw [h.sends_error, hends e rfl] at hpos
    cases hpos
  | ok result =>
    cases h with
    | ok hsucceeds => exact ⟨result, _, rfl, hsucceeds, rfl⟩

section

variable {α β : Type}

theorem Leaves.done_inv {a b : α} {record : Record} (h : Leaves (.done b) record a) :
    record = .empty := by
  cases h
  rfl

/-- What leaves nothing in the record can be cut off. -/
theorem Leaves.of_bind {p : ChannelProgram α} {f : α → ChannelProgram β} {record : Record} {b : β}
    (h : Leaves (p >>= f) record b)
    (hquiet : ∀ a rest, Leaves (f a) rest b → rest = .empty) : ∃ a, Leaves p record a := by
  induction p generalizing record with
  | done a =>
    rw [hquiet a record h]
    exact ⟨a, .done a⟩
  | ask q next ih =>
    cases q with
    | note entry =>
      cases h with
      | note hrest =>
        obtain ⟨a, ha⟩ := ih () hrest
        exact ⟨a, .note ha⟩
    | perform x =>
      cases h with
      | perform hputs hrest =>
        obtain ⟨a, ha⟩ := ih _ hrest
        exact ⟨a, .perform hputs ha⟩
    | either x y =>
      cases h with
      | left hputs hrest =>
        obtain ⟨a, ha⟩ := ih _ hrest
        exact ⟨a, .left hputs ha⟩
      | right hputs hrest =>
        obtain ⟨a, ha⟩ := ih _ hrest
        exact ⟨a, .right hputs ha⟩

end

namespace Dealer

open ChannelAction

variable {β : Type} {record : Record} {o : Outcome DealerError β}

/-- Two actions have succeeded if both peers were sent something then or later. -/
theorem leaves_both {x y : ChannelAction} (hpeers : x.peer ≠ y.peer)
    {f : x.Result × y.Result → Step β} (h : Leaves (both x y >>= f).run record o)
    (hx : 0 < sends (record x.peer)) (hy : 0 < sends (record y.peer)) :
    ∃ result result' deed deed' rest, Succeeds x result deed ∧ Succeeds y result' deed' ∧
      record x.peer = deed :: rest x.peer ∧ record y.peer = deed' :: rest y.peer ∧
      Leaves (f (result, result')).run rest o := by
  cases h with
  | left hputs hrest =>
    obtain ⟨result, deed, rfl, hdeed, rfl⟩ :=
      hputs.ok_of_sends (by rintro e rfl; exact hrest.done_inv) hx
    rw [Record.push_of_ne _ hpeers.symm] at hy
    cases hrest with
    | perform hputs' hrest' =>
      obtain ⟨result', deed', rfl, hdeed', rfl⟩ :=
        hputs'.ok_of_sends (by rintro e rfl; exact hrest'.done_inv) hy
      refine ⟨result, result', deed, deed', _, hdeed, hdeed', ?_, ?_, hrest'⟩
      · rw [Record.push_self, Record.push_of_ne _ hpeers]
      · rw [Record.push_of_ne _ hpeers.symm, Record.push_self]
  | right hputs hrest =>
    obtain ⟨result', deed', rfl, hdeed', rfl⟩ :=
      hputs.ok_of_sends (by rintro e rfl; exact hrest.done_inv) hy
    rw [Record.push_of_ne _ hpeers] at hx
    cases hrest with
    | perform hputs' hrest' =>
      obtain ⟨result, deed, rfl, hdeed, rfl⟩ :=
        hputs'.ok_of_sends (by rintro e rfl; exact hrest'.done_inv) hx
      refine ⟨result, result', deed, deed', _, hdeed, hdeed', ?_, ?_, hrest'⟩
      · rw [Record.push_of_ne _ hpeers, Record.push_self]
      · rw [Record.push_self, Record.push_of_ne _ hpeers.symm]

section

variable {seat : Seats}

/-- Each party is sent at least this many replies. -/
def Replies (seat : Seats) (record : Record) (n : Nat) : Prop :=
  ∀ role, n ≤ sends (record (seat role))

/-- The record goes on with one exchange with each party, then with the rest. -/
def Begins (seat : Seats) (exchange : Role → Exchange) (record rest : Record) : Prop :=
  ∀ role, (exchange role).Answered (record (seat role)) (rest (seat role))

variable {owner : Role} {n : Nat}

theorem Replies.pos (h : Replies seat record (n + 1)) (role : Role) :
    0 < sends (record (seat role)) :=
  Nat.lt_of_lt_of_le (Nat.succ_pos n) (h role)

theorem Begins.replies {exchange : Role → Exchange} {rest : Record}
    (h : Begins seat exchange record rest) (hreplies : Replies seat record (n + 1)) :
    Replies seat rest n := by
  intro role
  have hle := hreplies role
  rw [(h role).sends_eq] at hle
  exact Nat.le_of_succ_le_succ hle

theorem leaves_receive (hseat : ∀ owner, seat owner ≠ seat owner.peer) (owner : Role)
    {kind kind' : MessageKind} {f : kind.Payload × kind'.Payload → Step β}
    (h : Leaves (both (.receive (seat owner) kind) (.receive (seat owner.peer) kind') >>= f).run
      record o) (hreplies : Replies seat record (n + 1)) :
    ∃ payload payload' bytes bytes' rest, kind.codec.read bytes = .ok payload ∧
      kind'.codec.read bytes' = .ok payload' ∧
      record (seat owner) = .took kind bytes :: rest (seat owner) ∧
      record (seat owner.peer) = .took kind' bytes' :: rest (seat owner.peer) ∧
      Replies seat rest (n + 1) ∧ Leaves (f (payload, payload')).run rest o := by
  obtain ⟨payload, payload', deed, deed', rest, hdeed, hdeed', hown, hpeer, hrest⟩ :=
    leaves_both (x := .receive (seat owner) kind) (y := .receive (seat owner.peer) kind')
      (hseat owner) h (hreplies.pos _) (hreplies.pos _)
  cases hdeed with
  | @receive _ _ bytes _ hread =>
    cases hdeed' with
    | @receive _ _ bytes' _ hread' =>
      dsimp only [peer] at hown hpeer
      refine ⟨payload, payload', bytes, bytes', rest, hread, hread', hown, hpeer, ?_, hrest⟩
      have hle := hreplies owner
      have hle' := hreplies owner.peer
      rw [hown, sends_took] at hle
      rw [hpeer, sends_took] at hle'
      exact Role.forall_of_peer owner hle hle'

theorem leaves_send (hseat : ∀ owner, seat owner ≠ seat owner.peer) (owner : Role)
    (m m' : Message) {f : Unit × Unit → Step β}
    (h : Leaves (both (.send (seat owner) m.1 m.2) (.send (seat owner.peer) m'.1 m'.2) >>= f).run
      record o) (hreplies : Replies seat record (n + 1)) :
    ∃ rest, record (seat owner) = .sent m :: rest (seat owner) ∧
      record (seat owner.peer) = .sent m' :: rest (seat owner.peer) ∧
      Leaves (f ((), ())).run rest o := by
  obtain ⟨_, _, deed, deed', rest, hdeed, hdeed', hown, hpeer, hrest⟩ :=
    leaves_both (x := .send (seat owner) m.1 m.2) (y := .send (seat owner.peer) m'.1 m'.2)
      (hseat owner) h (hreplies.pos _) (hreplies.pos _)
  cases hdeed
  cases hdeed'
  exact ⟨rest, hown, hpeer, hrest⟩

theorem not_replies_of_fail {α : Type} {e : DealerError} {f : α → Step β}
    (h : Leaves (fail e >>= f).run record o) : ¬Replies seat record (n + 1) := by
  intro hreplies
  have hempty : record = .empty := h.done_inv
  have hpos := hreplies.pos .publisher
  rw [hempty] at hpos
  cases hpos

theorem leaves_ofOutcome {α : Type} {x : Outcome DealerError α} {f : α → Step β}
    (h : Leaves (ofOutcome x >>= f).run record o) (hreplies : Replies seat record (n + 1)) :
    ∃ a, x = .ok a ∧ Leaves (f a).run record o := by
  cases x with
  | error halt =>
    have hempty : record = .empty := h.done_inv
    have hpos := hreplies.pos .publisher
    rw [hempty] at hpos
    cases hpos
  | ok a => exact ⟨a, rfl, h⟩

theorem leaves_note {entry : LogEntry} {f : Unit → Step β}
    (h : Leaves (note entry >>= f).run record o) : Leaves (f ()).run record o := by
  cases h with
  | note hrest => exact hrest

/-! ## Steps -/

/-- Both union maps have been accepted if replies are sent. -/
theorem leaves_intersect (hseat : ∀ owner, seat owner ≠ seat owner.peer)
    {f : (Role → IndexMap) × (Role → Nat) × IndexMap → Step β}
    (h : Leaves (intersect seat >>= f).run record o) (hreplies : Replies seat record (n + 1)) :
    ∃ (maps : Role → IndexMap) (counts : Role → Nat) (rest : Record),
      (maps .publisher).length = (maps .partner).length ∧
      (∀ role, (maps role).validate = .ok (counts role)) ∧
      Begins seat (fun role => .adapt (maps role)
        (IndexMap.intersect (maps .publisher) (maps .partner))) record rest ∧
      Leaves (f (maps, counts, IndexMap.intersect (maps .publisher) (maps .partner))).run rest o := by
  rw [intersect, bind_assoc] at h
  obtain ⟨u, v, bytes, bytes', mid, hread, hread', hu, hv, hmid, h⟩ :=
    leaves_receive hseat .publisher h hreplies
  dsimp only at h
  split at h
  · rw [bind_assoc] at h
    exact absurd hmid (not_replies_of_fail h)
  · next hlen =>
    simp only [bind_assoc] at h
    obtain ⟨m, hm, h⟩ := leaves_ofOutcome h hmid
    obtain ⟨n, hn, h⟩ := leaves_ofOutcome h hmid
    obtain ⟨rest, hrest, hrest', h⟩ := leaves_send hseat .publisher
      ⟨.intersectionMap, _⟩ ⟨.intersectionMap, _⟩ h hmid
    refine ⟨Role.pick u v, Role.pick m n, rest,
      Classical.not_not.1 hlen, ?_, ?_, leaves_note h⟩
    · rintro (_ | _)
      · exact Outcome.ofError_eq_ok hm
      · exact Outcome.ofError_eq_ok hn
    · rintro (_ | _)
      · exact ⟨bytes, hread, hu.trans (congrArg _ hrest)⟩
      · exact ⟨bytes', hread', hv.trans (congrArg _ hrest')⟩

/-- The row count has come from its owner alone if replies are sent. -/
theorem leaves_shareCount (hseat : ∀ owner, seat owner ≠ seat owner.peer) {mask : UInt32}
    {f : UInt32 → Step β} (h : Leaves (shareCount seat mask owner >>= f).run record o)
    (hreplies : Replies seat record (n + 1)) :
    ∃ count rest, Begins seat (fun role => if owner = role then .ownCount count mask
      else .peerCount (count ^^^ mask)) record rest ∧ Leaves (f (count ^^^ mask)).run rest o := by
  rw [shareCount, bind_assoc] at h
  obtain ⟨count?, count?', bytes, bytes', mid, hread, hread', hown, hpeer, hmid, h⟩ :=
    leaves_receive hseat owner h hreplies
  cases count? with
  | none => exact absurd hmid (not_replies_of_fail h)
  | some count =>
    cases count?' with
    | some count' => exact absurd hmid (not_replies_of_fail h)
    | none =>
      simp only [bind_assoc, pure_bind] at h
      obtain ⟨rest, hrest, hrest', h⟩ :=
        leaves_send hseat owner ⟨.rowCountShare, _⟩ ⟨.rowCountShare, _⟩ h hmid
      refine ⟨count, rest, Role.forall_of_peer owner ?_ ?_, h⟩
      · dsimp only
        rw [if_pos rfl]
        exact ⟨bytes, hread, hown.trans (congrArg _ hrest)⟩
      · dsimp only
        rw [if_neg owner.peer_ne.symm]
        exact ⟨bytes', hread', hpeer.trans (congrArg _ hrest')⟩

theorem checkRows_inv {intersection echoedMap : IndexMap} {count width size : Nat}
    {share echoedShare : UInt32} {rows : List Bytes}
    (h : checkRows owner intersection count share (rows, size) (echoedShare, echoedMap, width) =
      .ok ()) :
    size = intersection.length ∧ echoedMap = intersection ∧ echoedShare = share ∧
      rows.length = count ∧ ∀ row ∈ rows, row.length = width := by
  unfold checkRows at h
  dsimp only at h
  split at h
  · cases h
  · next hsize =>
    split at h
    · cases h
    · next hmap =>
      split at h
      · cases h
      · next hshare =>
        split at h
        · cases h
        · next hcount =>
          split at h
          · cases h
          · next hfind =>
            refine ⟨Classical.not_not.1 hsize, Classical.not_not.1 hmap, Classical.not_not.1 hshare,
              Classical.not_not.1 hcount, ?_⟩
            intro row hrow
            have hwidth := List.find?_eq_none.1 hfind row hrow
            simpa using hwidth

/-- The rows of a party have passed all checks if replies are sent. -/
theorem leaves_shareRows (hseat : ∀ owner, seat owner ≠ seat owner.peer)
    {union intersection : IndexMap} {count : Nat} {share : UInt32} {s : WordStream}
    {f : WordStream → Step β}
    (h : Leaves (shareRows seat owner union intersection count share s >>= f).run record o)
    (hreplies : Replies seat record (n + 1)) :
    ∃ (rows : List Bytes) (width : Nat) (selected : List Bytes) (mask masked : RowShares)
      (s' : WordStream) (rest : Record), rows.length = count ∧
      (∀ row ∈ rows, row.length = width) ∧
      IndexMap.selectRows rows union intersection = .ok selected ∧
      RowShares.share selected width s = .ok (mask, masked, s') ∧
      Begins seat (fun role => if owner = role then .ownRows rows intersection.length mask
        else .peerRows share intersection width masked) record rest ∧
      Leaves (f s').run rest o := by
  rw [shareRows, bind_assoc] at h
  obtain ⟨⟨rows, size⟩, ⟨echoedShare, echoedMap, width⟩, bytes, bytes', mid, hread, hread', hown,
    hpeer, hmid, h⟩ := leaves_receive hseat owner h hreplies
  simp only [bind_assoc] at h
  obtain ⟨_, hcheck, hselect⟩ := leaves_ofOutcome h hmid
  obtain ⟨selected, hselected, hshare⟩ := leaves_ofOutcome hselect hmid
  obtain ⟨⟨mask, masked, s'⟩, hshared, hsend⟩ := leaves_ofOutcome hshare hmid
  obtain ⟨rest, hrest, hrest', hnote⟩ :=
    leaves_send hseat owner ⟨.rowShares, mask⟩ ⟨.rowShares, masked⟩ hsend hmid
  obtain ⟨rfl, rfl, rfl, hcount, hwidth⟩ := checkRows_inv (Outcome.ofError_eq_ok hcheck)
  refine ⟨rows, width, selected, mask, masked, s', rest, hcount, hwidth,
    Outcome.ofFault_eq_ok hselected, Outcome.ofFault_eq_ok hshared, Role.forall_of_peer owner ?_ ?_,
    leaves_note hnote⟩
  · dsimp only
    rw [if_pos rfl]
    exact ⟨bytes, hread, hown.trans (congrArg _ hrest)⟩
  · dsimp only
    rw [if_neg owner.peer_ne.symm]
    exact ⟨bytes', hread', hpeer.trans (congrArg _ hrest')⟩

theorem leaves_steps (hseat : ∀ owner, seat owner ≠ seat owner.peer) {random : Randomness}
    {o : Outcome DealerError Unit} (h : Leaves (steps seat random).run record o)
    (hreplies : Replies seat record 5) :
    ∃ d : Deal, d.Accepted random ∧
      ∀ role, Chain Exchange.Answered (d.exchanges role) (record (seat role)) := by
  -- Every step takes one of the five replies from those that each party is still sent.
  obtain ⟨maps, counts, r₁, hlength, hvalid, hmaps, h⟩ := leaves_intersect hseat h hreplies
  have hreplies := hmaps.replies hreplies
  obtain ⟨count, r₂, hcount, h⟩ := leaves_shareCount hseat h hreplies
  have hreplies := hcount.replies hreplies
  obtain ⟨count', r₃, hcount', h⟩ := leaves_shareCount hseat h hreplies
  have hreplies := hcount'.replies hreplies
  obtain ⟨rows, width, selected, mask, masked, s, r₄, hlen, hwidth, hselected, hshare, hrows, h⟩ :=
    leaves_shareRows hseat (leaves_note h) hreplies
  have hreplies := hrows.replies hreplies
  obtain ⟨rows', width', selected', mask', masked', s', r₅, hlen', hwidth', hselected', hshare',
    hrows', h⟩ := leaves_shareRows hseat h hreplies
  let d : Deal :=
    { union := maps
      intersection := IndexMap.intersect (maps .publisher) (maps .partner)
      count := Role.pick count count'
      countMask := random.countMask
      rows := Role.pick rows rows'
      width := Role.pick width width'
      mask := Role.pick mask mask'
      masked := Role.pick masked masked' }
  refine ⟨d, ⟨⟨hlength, ?_, rfl, rfl, ?_⟩, Role.pick selected selected', s,
    s', ?_, hshare, hshare'⟩, ?_⟩
  · rintro (_ | _)
    · exact (hvalid .publisher).trans (congrArg _ hlen.symm)
    · exact (hvalid .partner).trans (congrArg _ hlen'.symm)
  · rintro (_ | _) <;> assumption
  · rintro (_ | _) <;> assumption
  · have hdone : r₅ = .empty := h.done_inv
    subst hdone
    intro role
    cases role with
    | publisher =>
      exact ⟨_, hmaps .publisher, _, hcount .publisher, _, hcount' .publisher, _, hrows .publisher,
        _, hrows' .publisher, rfl⟩
    | partner =>
      exact ⟨_, hmaps .partner, _, hcount .partner, _, hcount' .partner, _, hrows .partner,
        _, hrows' .partner, rfl⟩

end

/-- If each party has been sent five replies, then the dealer has accepted a deal and answered its
exchanges. -/
theorem exists_deal {random : Randomness} {o : Outcome DealerError Unit}
    (h : Leaves (run 0 1 random) record o) (hpublisher : 5 ≤ sends (record 0))
    (hpartner : 5 ≤ sends (record 1)) :
    ∃ d : Deal, d.Accepted random ∧
      Chain Exchange.Answered (d.exchanges .publisher) (record 0) ∧
      Chain Exchange.Answered (d.exchanges .partner) (record 1) := by
  -- After its steps the dealer only logs an error.
  obtain ⟨_, hsteps⟩ := Leaves.of_bind h (by
    intro outcome rest hrest
    match outcome with
    | .ok _ => exact hrest.done_inv
    | .error (.fault _) => exact hrest.done_inv
    | .error (.error _) =>
      cases hrest with
      | note hrest => exact hrest.done_inv)
  obtain ⟨d, haccepted, hchain⟩ := leaves_steps (by rintro (_ | _) <;> decide) hsteps (by
    rintro (_ | _)
    · exact hpublisher
    · exact hpartner)
  exact ⟨d, haccepted, hchain .publisher, hchain .partner⟩

end Dealer

end PrivateLift
