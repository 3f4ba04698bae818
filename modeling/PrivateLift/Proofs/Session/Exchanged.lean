import PrivateLift.Proofs.Session.Client
import PrivateLift.Proofs.Session.History

/-!
# The exchanges behind a record

A party whose calls have all succeeded has made one exchange for each call (`Runs.of_leaves`). What
one side of a channel has sent is what the other side has received, so if both sides have had
equally many exchanges, then these agree (`Chain.agree`).
-/

namespace PrivateLift

/-! ## Chains of exchanges -/

namespace Exchange

/-- The record of a party goes on with the exchange, then with the rest. -/
def Made (e : Exchange) (record rest : List Deed) : Prop :=
  ∃ bytes, e.reply.1.codec.read bytes = .ok e.reply.2 ∧
    record = .sent e.request :: .took e.reply.1 bytes :: rest

/-- The record of the dealer goes on with the exchange, then with the rest. -/
def Answered (e : Exchange) (record rest : List Deed) : Prop :=
  ∃ bytes, e.request.1.codec.read bytes = .ok e.request.2 ∧
    record = .took e.request.1 bytes :: .sent e.reply :: rest

/-- Each side of the exchange can be read as the other side has sent it. -/
def Agrees (e e' : Exchange) : Prop :=
  e'.request.1.codec.read e.request.encode = .ok e'.request.2 ∧
    e.reply.1.codec.read e'.reply.encode = .ok e.reply.2

end Exchange

/-- The record consists of these exchanges. -/
def Chain (side : Exchange → List Deed → List Deed → Prop) : List Exchange → List Deed → Prop
  | [], record => record = []
  | e :: exchanges, record => ∃ rest, side e record rest ∧ Chain side exchanges rest

/-- The exchanges of both sides of a channel agree. -/
theorem Chain.agree {exchanges exchanges' : List Exchange} {record record' : List Deed}
    {queue queue' : List Bytes} (h : Chain Exchange.Made exchanges record)
    (h' : Chain Exchange.Answered exchanges' record')
    (hrequests : record.filterMap Deed.sent? = record'.filterMap Deed.took? ++ queue)
    (hreplies : record'.filterMap Deed.sent? = record.filterMap Deed.took? ++ queue')
    (hlength : exchanges.length = exchanges'.length) :
    List.Forall₂ Exchange.Agrees exchanges exchanges' := by
  induction exchanges generalizing exchanges' record record' with
  | nil =>
    rw [List.eq_nil_of_length_eq_zero hlength.symm]
    exact .nil
  | cons e exchanges ih =>
    obtain ⟨e', exchanges', rfl⟩ := List.exists_cons_of_length_eq_add_one hlength.symm
    obtain ⟨rest, ⟨bytes, hread, rfl⟩, hrest⟩ := h
    obtain ⟨rest', ⟨bytes', hread', rfl⟩, hrest'⟩ := h'
    have hhead : e.request.encode :: rest.filterMap Deed.sent? =
        bytes' :: (rest'.filterMap Deed.took? ++ queue) := hrequests
    have hhead' : e'.reply.encode :: rest'.filterMap Deed.sent? =
        bytes :: (rest.filterMap Deed.took? ++ queue') := hreplies
    rw [List.cons.injEq] at hhead hhead'
    refine .cons ⟨?_, ?_⟩ (ih hrest hrest' hhead.2 hhead'.2 (Nat.succ.inj hlength))
    · rw [hhead.1]
      exact hread'
    · rw [hhead'.1]
      exact hread

/-! ## The side of a party -/

/-- The reply to the call is no error. -/
def Call.Succeeds {ε : Type} : Call ε → Prop
  | ⟨.note _, _⟩ => True
  | ⟨.adapt _, reply⟩ => reply.isOk
  | ⟨.shareRowCount _ _, reply⟩ => reply.isOk
  | ⟨.shareOwnRows _ _, reply⟩ => reply.isOk
  | ⟨.sharePeerRows _ _ _, reply⟩ => reply.isOk

section

variable {α : Type} {dealer : Nat}

/-- A request is sent and its reply received, or one of the two fails, which is the reply then. -/
theorem leaves_exchange (request : Message) (kind : MessageKind)
    {sent : Except ChannelError Unit → ChannelProgram α}
    {received : Except ChannelError kind.Payload → ChannelProgram α} {record : Record} {a : α}
    (h : Leaves (.ask (.perform (.send dealer request.1 request.2)) sent) record a)
    (hsent : sent (.ok ()) = .ask (.perform (.receive dealer kind)) received)
    (hfailed : ∀ e, sent (.error e) = received (.error e)) :
    ∃ reply rest, Leaves (received reply) rest a ∧ ∀ payload, reply = .ok payload →
      (Exchange.mk request ⟨kind, payload⟩).Made (record dealer) (rest dealer) := by
  cases h with
  | perform hputs hrest =>
    rcases hputs.send_inv with ⟨e, rfl⟩ | ⟨rfl, rfl⟩
    · rw [hfailed] at hrest
      exact ⟨.error e, _, hrest, fun payload heq => nomatch heq⟩
    · rw [hsent] at hrest
      cases hrest with
      | perform hputs' hrest' =>
        rcases hputs'.receive_inv with ⟨e, rfl⟩ | ⟨bytes, payload, hread, rfl, rfl⟩
        · exact ⟨.error e, _, hrest', fun payload heq => nomatch heq⟩
        · refine ⟨.ok payload, _, hrest', ?_⟩
          intro payload' heq
          cases heq
          refine ⟨bytes, hread, ?_⟩
          rw [Record.push_self, Record.push_self]

/-- A call to the dealer that succeeds is answered by an exchange. -/
theorem leaves_answer {q : PartyQuery} (hq : q.isNote = false)
    {next : q.Reply ChannelError → ChannelProgram α} {record : Record} {a : α}
    (h : Leaves (DealerClient.answer dealer q >>= next) record a) :
    ∃ reply rest, Leaves (next reply) rest a ∧ (Call.Succeeds ⟨q, reply⟩ →
      ∃ e, Call.Exchanges ⟨q, reply⟩ e ∧ e.Made (record dealer) (rest dealer)) := by
  cases q with
  | note => cases hq
  | adapt union =>
    obtain ⟨reply, rest, hrest, hmade⟩ :=
      leaves_exchange ⟨.unionMap, union⟩ .intersectionMap h rfl fun _ => rfl
    cases reply with
    | error e => exact ⟨.error e, rest, hrest, fun hok => nomatch hok⟩
    | ok map =>
      change Leaves ((if map.length = union.length then pure map
        else throw ⟨.intersectionMap, .invalidLength union.length map.length⟩ :
        ChannelStep IndexMap).run >>= next) rest a at hrest
      by_cases hlen : map.length = union.length
      · rw [if_pos hlen] at hrest
        exact ⟨.ok map, rest, hrest, fun _ => ⟨_, .adapt hlen, hmade map rfl⟩⟩
      · rw [if_neg hlen] at hrest
        exact ⟨.error _, rest, hrest, fun hok => nomatch hok⟩
  | shareRowCount owner count =>
    obtain ⟨reply, rest, hrest, hmade⟩ :=
      leaves_exchange ⟨.rowCount, count⟩ .rowCountShare h rfl fun _ => rfl
    refine ⟨reply, rest, hrest, ?_⟩
    intro hok
    cases reply with
    | error e => cases hok
    | ok share =>
      refine ⟨_, ?_, hmade share rfl⟩
      cases count with
      | some count => exact .ownCount owner count share
      | none => exact .peerCount owner share
  | shareOwnRows rows outputSize =>
    obtain ⟨reply, rest, hrest, hmade⟩ :=
      leaves_exchange ⟨.ownRows, (rows, outputSize)⟩ .rowShares h rfl fun _ => rfl
    refine ⟨reply, rest, hrest, ?_⟩
    intro hok
    cases reply with
    | error e => cases hok
    | ok shares => exact ⟨_, .ownRows rows outputSize shares, hmade shares rfl⟩
  | sharePeerRows count map width =>
    obtain ⟨reply, rest, hrest, hmade⟩ :=
      leaves_exchange ⟨.peerRows, (count, map, width)⟩ .rowShares h rfl fun _ => rfl
    refine ⟨reply, rest, hrest, ?_⟩
    intro hok
    cases reply with
    | error e => cases hok
    | ok shares => exact ⟨_, .peerRows count map width shares, hmade shares rfl⟩

/-- A party whose calls succeed has made one exchange for each of them. -/
theorem Runs.of_leaves {p : Program PartyQuery (PartyQuery.Reply ChannelError) α} {record : Record}
    {a : α} (h : Leaves (p.interpret (DealerClient.answer dealer)) record a) :
    ∃ calls, Runs p calls a ∧ ((∀ call ∈ calls, call.Succeeds) →
      ∃ exchanges, List.Forall₂ Call.Exchanges calls exchanges ∧
        Chain Exchange.Made exchanges (record dealer)) := by
  induction p generalizing record with
  | done b =>
    cases h
    exact ⟨[], .done a, fun _ => ⟨[], .nil, rfl⟩⟩
  | ask q next ih =>
    by_cases hq : q.isNote
    · cases q with
      | note entry =>
        cases h with
        | note hrest =>
          obtain ⟨calls, hruns, hexchanges⟩ := ih () hrest
          exact ⟨calls, .note hruns, hexchanges⟩
      | _ => cases hq
    · have hq : q.isNote = false := Bool.eq_false_of_not_eq_true hq
      obtain ⟨reply, rest, hrest, hcall⟩ := leaves_answer hq h
      obtain ⟨calls, hruns, hexchanges⟩ := ih reply hrest
      refine ⟨⟨q, reply⟩ :: calls, .call hq reply hruns, ?_⟩
      intro hall
      obtain ⟨e, he, hmade⟩ := hcall (hall _ (List.mem_cons_self ..))
      obtain ⟨exchanges, hforall, hchain⟩ :=
        hexchanges fun call hmem => hall call (List.mem_cons_of_mem _ hmem)
      exact ⟨e :: exchanges, .cons he hforall, rest dealer, hmade, hchain⟩

end

end PrivateLift
