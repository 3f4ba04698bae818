import Mathlib.Data.List.Chain
import PrivateLift.Proofs.Session.Dues

/-!
# Dues that match across the channels

The dues of two programs to each other match if they are the two sides of one sequence of exchanges,
apart from the messages on the way, which the sender has settled and the receiver has not
(`Matches`). This is a symmetric relation, and settling any due keeps it. `Balanced` says that all
dues match and that nobody receives twice in a row from the same peer; then a send is never delayed
and a receive only by a peer who still has to send, so that some program can go on as long as there
are dues (`Session.Settles.progress`).
-/

namespace PrivateLift

/-! ## Channels -/

/-- Two states of the traffic that differ in the log and in one queue only. -/
structure Traffic.Replaces (t t' : Traffic) (sender receiver : Nat) (messages : List Bytes)
    (kinds : List MessageKind) : Prop where
  parties_eq : t'.world.network.parties = t.world.network.parties
  left_eq : t'.world.network.left = t.world.network.left
  queue_self : t'.queue sender receiver = messages
  kinds_self : t'.kinds sender receiver = kinds
  queue_other : ∀ a b, ¬(a = sender ∧ b = receiver) → t'.queue a b = t.queue a b
  kinds_other : ∀ a b, ¬(a = sender ∧ b = receiver) → t'.kinds a b = t.kinds a b

namespace Traffic

variable {t : Traffic} {me peer : Nat}

theorem kindsAfter_of_eq {kind : MessageKind} {world : World} {a b : Nat}
    (h : world.network.queue a b = t.queue a b) : t.kindsAfter kind world a b = t.kinds a b := by
  simp only [kindsAfter, h, lt_irrefl, if_false, Nat.sub_self, List.drop_zero]

/-- A message is sent to a connected program that has not left, if the queue has room. -/
theorem attempt_send (hconnected : t.world.network.Connected me peer)
    (hleft : peer ∉ t.world.network.left) (hroom : (t.queue me peer).length < Network.capacity)
    (m : Message) :
    ∃ t', t.attempt me (.send peer m.1 m.2) = some (.ok (), t') ∧
      t.Replaces t' me peer (t.queue me peer ++ [m.encode]) (t.kinds me peer ++ [m.1]) := by
  have hsend : t.world.network.send me peer m.encode =
      .done (t.world.network.setQueue me peer (t.queue me peer ++ [m.encode])) := by
    rw [Network.send, if_pos hconnected]
    simp only [if_neg hleft]
    exact if_pos hroom
  have hattempt : t.world.attempt me (.send peer m.1 m.2) = some (.ok (),
      { t.world.note (Network.sendEntry peer m.1.phase m.encode.length) with
        network := t.world.network.setQueue me peer (t.queue me peer ++ [m.encode]) }) := by
    simp only [World.attempt, World.send]
    rw [show m.1.codec.encode m.2 = m.encode from rfl, hsend]
  refine ⟨_, attempt_of_world hattempt, rfl, rfl, Network.queue_setQueue_self .., ?_,
    fun a b hab => Network.queue_setQueue_of_ne _ _ hab,
    fun a b hab => kindsAfter_of_eq (Network.queue_setQueue_of_ne _ _ hab)⟩
  simp [kindsAfter, ChannelAction.kind]

theorem attempt_receive (hconnected : t.world.network.Connected me peer) {m : Message}
    {rest : List Bytes} (hqueue : t.queue peer me = m.encode :: rest)
    (hread : m.1.codec.read m.encode = .ok m.2) :
    ∃ t', t.attempt me (.receive peer m.1) = some (.ok m.2, t') ∧
      t.Replaces t' peer me rest ((t.kinds peer me).drop 1) := by
  have hreceive : t.world.network.receive me peer =
      .done (m.encode, t.world.network.setQueue peer me rest) := by
    have hqueue' : t.world.network.queue peer me = m.encode :: rest := hqueue
    rw [Network.receive, if_pos hconnected, hqueue']
  have hattempt : t.world.attempt me (.receive peer m.1) =
      some (.ok m.2, { t.world with network := t.world.network.setQueue peer me rest }) := by
    simp only [World.attempt, World.receive, hreceive, hread]
  refine ⟨_, attempt_of_world hattempt, rfl, rfl, Network.queue_setQueue_self .., ?_,
    fun a b hab => Network.queue_setQueue_of_ne _ _ hab,
    fun a b hab => kindsAfter_of_eq (Network.queue_setQueue_of_ne _ _ hab)⟩
  have hlen : ¬rest.length + 1 < rest.length := by omega
  simp [kindsAfter, hqueue, hlen]

theorem attempt_receive_none (hconnected : t.world.network.Connected me peer)
    (hleft : peer ∉ t.world.network.left) (hqueue : t.queue peer me = []) (kind : MessageKind) :
    t.attempt me (.receive peer kind) = none := by
  have hreceive : t.world.network.receive me peer = .pending := by
    have hqueue' : t.world.network.queue peer me = [] := hqueue
    rw [Network.receive, if_pos hconnected, hqueue']
    exact if_neg hleft
  simp only [attempt, World.attempt, World.receive, hreceive, Option.map_none]

end Traffic

/-! ## Matching dues -/

/-- The dues of a program and of its peer to each other, where the messages of `sent` are on the way
to the peer and those of `received` on the way back. -/
def Matches (own other : List Due) (sent received : List Message) : Prop :=
  ∃ common : List Due, own = received.map .receive ++ common ∧
    other = sent.map .receive ++ common.map .flip

namespace Matches

variable {own other later : List Due} {sent received : List Message} {m : Message}

theorem symm (h : Matches own other sent received) : Matches other own received sent := by
  obtain ⟨common, rfl, rfl⟩ := h
  refine ⟨common.map .flip, rfl, ?_⟩
  rw [List.map_map, show Due.flip ∘ Due.flip = id from funext Due.flip_flip, List.map_id]

theorem start (own : List Due) : Matches own (own.map .flip) [] [] := ⟨own, rfl, rfl⟩

/-- Nothing is on the way to a program that is to send, and what it sends is added. -/
theorem send (h : Matches (.send m :: later) other sent received) :
    received = [] ∧ Matches later other (sent ++ [m]) received := by
  obtain ⟨common, hown, rfl⟩ := h
  cases received with
  | cons m' received => cases hown
  | nil =>
    refine ⟨rfl, later, rfl, ?_⟩
    rw [List.map_nil, List.nil_append] at hown
    rw [← hown, List.map_append, List.append_assoc]
    rfl

theorem receive {m' : Message} (h : Matches (.receive m :: later) other sent (m' :: received)) :
    m' = m ∧ Matches later other sent received := by
  obtain ⟨common, hown, rfl⟩ := h
  rw [List.map_cons, List.cons_append, List.cons.injEq, Due.receive.injEq] at hown
  exact ⟨hown.1.symm, common, hown.2, rfl⟩

/-- A program that is to receive, with nothing on the way to it, waits for a peer that is to send
after what is on the way to the peer. -/
theorem receive_nil (h : Matches (.receive m :: later) other sent []) :
    ∃ rest, other = sent.map .receive ++ .send m :: rest := by
  obtain ⟨common, hown, rfl⟩ := h
  rw [List.map_nil, List.nil_append] at hown
  rw [← hown]
  exact ⟨later.map .flip, rfl⟩

theorem nil_left (h : Matches [] other sent received) :
    received = [] ∧ other = sent.map .receive := by
  obtain ⟨common, hown, rfl⟩ := h
  obtain ⟨hreceived, rfl⟩ := List.append_eq_nil_iff.1 hown.symm
  exact ⟨List.map_eq_nil_iff.1 hreceived, List.append_nil _⟩

end Matches

/-- Nothing is received twice in a row. -/
def Alternates (dues : List Due) : Prop :=
  dues.IsChain fun due due' => ¬(due.IsReceive ∧ due'.IsReceive)

theorem Alternates.length_le {received : List Message} {common : List Due}
    (h : Alternates (received.map .receive ++ common)) : received.length ≤ 1 := by
  match received with
  | [] => exact Nat.zero_le 1
  | [_] => exact Nat.le_refl 1
  | m :: m' :: received =>
    have := (List.isChain_cons_cons.1 h).1
    exact absurd ⟨trivial, trivial⟩ this

/-- A function of two numbers with one value replaced. -/
def assign {γ : Type} (f : Nat → Nat → γ) (i j : Nat) (x : γ) : Nat → Nat → γ :=
  Function.update f i (Function.update (f i) j x)

theorem assign_self {γ : Type} (f : Nat → Nat → γ) (i j : Nat) (x : γ) : assign f i j x i j = x := by
  simp [assign]

theorem assign_of_ne {γ : Type} (f : Nat → Nat → γ) {i j a b : Nat} (x : γ)
    (h : ¬(a = i ∧ b = j)) : assign f i j x a b = f a b := by
  by_cases ha : a = i
  · subst ha
    have hb : b ≠ j := fun hb => h ⟨rfl, hb⟩
    simp [assign, hb]
  · simp [assign, ha]

/-! ## Balanced dues -/

/-- The dues of all programs match across the channels of the traffic, whose messages are given by
`flight`. Dues exist between program 2 and the other two only. -/
structure Balanced (dues : Nat → Dues) (flight : (sender receiver : Nat) → List Message)
    (t : Traffic) : Prop where
  parties_eq : t.world.network.parties = 3
  left_eq : t.world.network.left = []
  star : ∀ i j, dues i j ≠ [] → (i < 2 ∧ j = 2) ∨ (i = 2 ∧ j < 2)
  alternates : ∀ i j, Alternates (dues i j)
  sendable : ∀ i j, ∀ due ∈ dues i j, due.message.1.Sendable due.message.2
  queue_eq : ∀ i j, t.queue i j = (flight i j).map Message.encode
  kinds_eq : ∀ i j, t.kinds i j = (flight i j).map (·.1)
  matching : ∀ i j, Matches (dues i j) (dues j i) (flight i j) (flight j i)

namespace Balanced

variable {dues : Nat → Dues} {flight : Nat → Nat → List Message} {t : Traffic} {i j : Nat}
  {due : Due} {later : List Due}

theorem connected (h : Balanced dues flight t) (hdue : dues i j = due :: later) :
    t.world.network.Connected i j := by
  have hne : dues i j ≠ [] := by
    rw [hdue]
    exact List.cons_ne_nil _ _
  rw [Network.Connected, h.parties_eq]
  have := h.star i j hne
  omega

theorem length_flight_le (h : Balanced dues flight t) (i j : Nat) : (flight i j).length ≤ 1 := by
  obtain ⟨common, hown, -⟩ := (h.matching i j).symm
  exact (hown ▸ h.alternates j i : Alternates _).length_le

theorem note (h : Balanced dues flight t) (entry : LogEntry) :
    Balanced dues flight (t.note entry) :=
  ⟨h.parties_eq, h.left_eq, h.star, h.alternates, h.sendable, h.queue_eq, h.kinds_eq, h.matching⟩

theorem assign_flight (h : Balanced dues flight t) {t' : Traffic} {messages : List Message}
    (hreplaces : t.Replaces t' i j (messages.map Message.encode) (messages.map (·.1))) :
    (∀ a b, t'.queue a b = (assign flight i j messages a b).map Message.encode) ∧
      ∀ a b, t'.kinds a b = (assign flight i j messages a b).map (·.1) := by
  constructor
  · intro a b
    by_cases hab : a = i ∧ b = j
    · obtain ⟨rfl, rfl⟩ := hab
      rw [hreplaces.queue_self, assign_self]
    · rw [hreplaces.queue_other a b hab, assign_of_ne flight _ hab, h.queue_eq]
  · intro a b
    by_cases hab : a = i ∧ b = j
    · obtain ⟨rfl, rfl⟩ := hab
      rw [hreplaces.kinds_self, assign_self]
    · rw [hreplaces.kinds_other a b hab, assign_of_ne flight _ hab, h.kinds_eq]

/-- Settling the first due of a program keeps the balance, if the flights between the two programs
follow. -/
theorem assign_dues (h : Balanced dues flight t) (hdue : dues i j = due :: later)
    {t' : Traffic} {flight' : Nat → Nat → List Message}
    (hparties : t'.world.network.parties = t.world.network.parties)
    (hleft : t'.world.network.left = t.world.network.left)
    (hqueue : ∀ a b, t'.queue a b = (flight' a b).map Message.encode)
    (hkinds : ∀ a b, t'.kinds a b = (flight' a b).map (·.1))
    (hflight : ∀ a b, ¬(a = i ∧ b = j) → ¬(a = j ∧ b = i) → flight' a b = flight a b)
    (hmatches : Matches later (dues j i) (flight' i j) (flight' j i)) :
    Balanced (assign dues i j later) flight' t' := by
  have hij : i ≠ j := (h.connected hdue).2.2
  have hself : assign dues i j later i j = later := assign_self dues i j later
  have hother : ∀ a b, ¬(a = i ∧ b = j) → assign dues i j later a b = dues a b :=
    fun a b hab => assign_of_ne dues later hab
  have hsub : ∀ a b, ∃ settled, dues a b = settled ++ assign dues i j later a b := by
    intro a b
    by_cases hab : a = i ∧ b = j
    · obtain ⟨rfl, rfl⟩ := hab
      exact ⟨[due], by rw [hself, hdue]; rfl⟩
    · exact ⟨[], by rw [hother a b hab]; rfl⟩
  refine ⟨hparties.trans h.parties_eq, hleft.trans h.left_eq, ?_, ?_, ?_, hqueue, hkinds, ?_⟩
  · intro a b hab
    obtain ⟨settled, hsettled⟩ := hsub a b
    refine h.star a b fun hnil => hab ?_
    rw [hnil] at hsettled
    exact (List.append_eq_nil_iff.1 hsettled.symm).2
  · intro a b
    obtain ⟨settled, hsettled⟩ := hsub a b
    have := h.alternates a b
    rw [Alternates, hsettled] at this
    exact this.right_of_append
  · intro a b d hd
    obtain ⟨settled, hsettled⟩ := hsub a b
    refine h.sendable a b d ?_
    rw [hsettled]
    exact List.mem_append_right settled hd
  · intro a b
    by_cases hab : a = i ∧ b = j
    · obtain ⟨rfl, rfl⟩ := hab
      rw [hself, hother b a (fun hba => hij hba.2)]
      exact hmatches
    · by_cases hba : a = j ∧ b = i
      · obtain ⟨rfl, rfl⟩ := hba
        rw [hself, hother a b hab]
        exact hmatches.symm
      · have hba' : ¬(b = i ∧ a = j) := fun hswap => hba ⟨hswap.2, hswap.1⟩
        have hab' : ¬(b = j ∧ a = i) := fun hswap => hab ⟨hswap.2, hswap.1⟩
        rw [hother a b hab, hother b a hba', hflight a b hab hba, hflight b a hba' hab']
        exact h.matching a b

/-- A due that is a send can be settled at once. -/
theorem attempt_send {m : Message} (h : Balanced dues flight t)
    (hdue : dues i j = .send m :: later) :
    ∃ t' flight', t.attempt i (.send j m.1 m.2) = some (.ok (), t') ∧
      Balanced (assign dues i j later) flight' t' := by
  have hij : i ≠ j := (h.connected hdue).2.2
  have hroom : (t.queue i j).length < Network.capacity := by
    have := h.length_flight_le i j
    rw [h.queue_eq, List.length_map, Network.capacity]
    omega
  have hleft : j ∉ t.world.network.left := by
    rw [h.left_eq]
    exact List.not_mem_nil
  obtain ⟨t', hattempt, hreplaces⟩ := Traffic.attempt_send (h.connected hdue) hleft hroom m
  have hreplaces' : t.Replaces t' i j ((flight i j ++ [m]).map Message.encode)
      ((flight i j ++ [m]).map (·.1)) := by
    rw [List.map_append, List.map_append, ← h.queue_eq, ← h.kinds_eq]
    exact hreplaces
  obtain ⟨hqueue, hkinds⟩ := h.assign_flight hreplaces'
  refine ⟨t', assign flight i j (flight i j ++ [m]), hattempt,
    h.assign_dues hdue hreplaces.parties_eq hreplaces.left_eq hqueue hkinds
      (fun a b hab _ => assign_of_ne flight _ hab) ?_⟩
  have hmatches := h.matching i j
  rw [hdue] at hmatches
  rw [assign_self, assign_of_ne flight _ (fun hji => hij hji.2)]
  exact hmatches.send.2

/-- A due that is a receive waits for the peer or can be settled with the right message. -/
theorem attempt_receive {m : Message} (h : Balanced dues flight t)
    (hdue : dues i j = .receive m :: later) :
    (flight j i = [] ∧ t.attempt i (.receive j m.1) = none) ∨
      ∃ t' flight', t.attempt i (.receive j m.1) = some (.ok m.2, t') ∧
        Balanced (assign dues i j later) flight' t' := by
  have hij : i ≠ j := (h.connected hdue).2.2
  have hmatches := h.matching i j
  rw [hdue] at hmatches
  cases hflight : flight j i with
  | nil =>
    have hleft : j ∉ t.world.network.left := by
      rw [h.left_eq]
      exact List.not_mem_nil
    have hqueue : t.queue j i = [] := by
      rw [h.queue_eq, hflight]
      rfl
    exact .inl ⟨rfl, Traffic.attempt_receive_none (h.connected hdue) hleft hqueue m.1⟩
  | cons m' rest =>
    rw [hflight] at hmatches
    obtain ⟨rfl, hrest⟩ := hmatches.receive
    have hqueue : t.queue j i = m'.encode :: rest.map Message.encode := by
      rw [h.queue_eq, hflight]
      rfl
    have hsendable : m'.1.Sendable m'.2 :=
      h.sendable i j (.receive m') (by rw [hdue]; exact List.mem_cons_self)
    obtain ⟨t', hattempt, hreplaces⟩ := Traffic.attempt_receive (h.connected hdue) hqueue
      (MessageKind.read_encode hsendable)
    have hkinds : (t.kinds j i).drop 1 = rest.map (·.1) := by
      rw [h.kinds_eq, hflight]
      rfl
    rw [hkinds] at hreplaces
    obtain ⟨hqueue', hkinds'⟩ := h.assign_flight hreplaces
    refine .inr ⟨t', assign flight j i rest, hattempt,
      h.assign_dues hdue hreplaces.parties_eq hreplaces.left_eq hqueue' hkinds'
        (fun a b _ hba => assign_of_ne flight _ hba) ?_⟩
    rw [assign_self, assign_of_ne flight _ (fun hji => hij hji.1)]
    exact hrest

/-- The first due to a peer is settled with the right result, or it is a receive and nothing is on
the way. -/
theorem attempt (h : Balanced dues flight t) (hdue : dues i j = due :: later) :
    (∃ t' flight', t.attempt i (due.action j) = some (.ok (due.result j), t') ∧
        Balanced (assign dues i j later) flight' t') ∨
      (∃ m, due = .receive m) ∧ flight j i = [] ∧ t.attempt i (due.action j) = none := by
  cases due with
  | send m => exact .inl (h.attempt_send hdue)
  | receive m =>
    rcases h.attempt_receive hdue with ⟨hempty, hnone⟩ | hsome
    · exact .inr ⟨⟨m, rfl⟩, hempty, hnone⟩
    · exact .inl hsome

end Balanced

end PrivateLift
