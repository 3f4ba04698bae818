import PrivateLift.Proofs.Party.Ending
import PrivateLift.Proofs.Session.Dealer

/-!
# The deal of two compatible parties

Two parties are compatible if their parameters have been accepted, one is the publisher and the
other the partner, and they agree on the number of conversions and on the size of the union. Then
there is a deal that the dealer accepts and in which the shares of either party's rows split the
rows of the intersection (`Compatible.exists_deal`), and both parties serve the dues of its
exchanges (`Deal.Fits.serves_party`).
-/

namespace PrivateLift

/-- The rows of the union that are dummies for neither party. -/
def commonRows (input input' : LocalInput) : List Nat :=
  (List.range input.unionSize).filter fun i =>
    !input.dummyRows.getD i true && !input'.dummyRows.getD i true

theorem mem_commonRows {input input' : LocalInput} {i : Nat} :
    i ∈ commonRows input input' ↔ i < input.unionSize ∧ input.dummyRows.getD i true = false ∧
      input'.dummyRows.getD i true = false := by
  rw [commonRows, List.mem_filter, List.mem_range, Bool.and_eq_true, Bool.not_eq_true',
    Bool.not_eq_true']

/-- Two parties that can run a session together. The last condition says that the bits of the larger
rows can be counted. -/
structure Compatible (parties : Role → Party) (slots : Nat) : Prop where
  make_ok : ∀ role, Party.make (ε := ChannelError) (parties role).config (parties role).input =
    .ok (parties role)
  role_eq : ∀ role, (parties role).config.role = role
  slots_eq : ∀ role, (parties role).config.conversionsPerUser = slots
  unionSize_eq : (parties .publisher).input.unionSize = (parties .partner).input.unionSize
  unionSize_le : ∀ role, (parties role).input.unionSize ≤ IndexMap.maxUnion
  size_lt : 8 * Role.partner.rowWidth slots < UInt64.size

/-- The columns of the slots can be stored if the bits of a row can be counted. -/
theorem Role.slots_le_of_size_lt {n : Nat} (h : 8 * Role.partner.rowWidth n < UInt64.size) :
    n ≤ PartnerColumns.maxSlots := by
  have hsize : UInt64.size = 0xffffffffffffffff + 1 := rfl
  simp only [Role.rowWidth, conversionWidth] at h
  simp only [PartnerColumns.maxSlots]
  omega

/-- A publisher and a partner with valid parameters and inputs of one size are compatible. -/
theorem exists_compatible {c c' : Config} {input input' : LocalInput} (hrole : c.role = .publisher)
    (hrole' : c'.role = .partner) (hconfig : c.validate = .ok ()) (hconfig' : c'.validate = .ok ())
    (hinput : input.validate c = .ok ()) (hinput' : input'.validate c' = .ok ())
    (hslots : c'.conversionsPerUser = c.conversionsPerUser)
    (hsize : input.unionSize = input'.unionSize) (hunion : input.unionSize ≤ IndexMap.maxUnion)
    (hlt : 8 * Role.partner.rowWidth c.conversionsPerUser < UInt64.size) :
    ∃ parties, Compatible parties c.conversionsPerUser ∧ (parties .publisher).config = c ∧
      (parties .publisher).input = input ∧ (parties .partner).config = c' ∧
      (parties .partner).input = input' := by
  have hmax := Role.slots_le_of_size_lt hlt
  obtain ⟨p, hmake, rfl, rfl⟩ := Party.make_ok (ε := ChannelError) hconfig hinput hmax
  obtain ⟨q, hmake', rfl, rfl⟩ :=
    Party.make_ok (ε := ChannelError) hconfig' hinput' (hslots.trans_le hmax)
  refine ⟨Role.pick p q, ⟨?_, ?_, ?_, hsize, ?_, hlt⟩,
    rfl, rfl, rfl, rfl⟩
  · rintro (_ | _) <;> assumption
  · rintro (_ | _) <;> assumption
  · rintro (_ | _)
    · rfl
    · exact hslots
  · rintro (_ | _)
    · exact hunion
    · exact hsize ▸ hunion

/-- The deal is about the rows of these parties. -/
structure Deal.Concerns (d : Deal) (parties : Role → Party) (streams : Role → WordStream)
    (slots : Nat) : Prop where
  union_eq : ∀ role, d.union role = ((parties role).drawn (streams role)).1
  rows_eq : ∀ role, d.rows role = (parties role).packed (streams role)
  count_eq : ∀ role, d.count role = .ofNat (d.rows role).length
  width_eq : ∀ role, d.width role = role.rowWidth slots
  intersection_eq : d.intersection = IndexMap.intersect (d.union .publisher) (d.union .partner)
  setRows_eq : IndexMap.setRows d.intersection =
    commonRows (parties .publisher).input (parties .partner).input

/-- The deal is about the rows of these parties, and its shares are shares of the common rows. -/
structure Deal.Fits (d : Deal) (parties : Role → Party) (streams : Role → WordStream)
    (slots : Nat) : Prop extends d.Concerns parties streams slots where
  splits : ∀ owner, RowShares.Splits (d.mask owner) (d.masked owner)
    ((IndexMap.setRows d.intersection).map (parties owner).source.rowAt) (owner.rowWidth slots)

namespace Compatible

variable {parties : Role → Party} {slots : Nat}

theorem length_drawn_eq (h : Compatible parties slots) (streams : Role → WordStream)
    (role role' : Role) : ((parties role).drawn (streams role)).1.length =
      ((parties role').drawn (streams role')).1.length := by
  rw [Party.length_drawn, Party.length_drawn]
  cases role <;> cases role' <;> simp [h.unionSize_eq]

/-- The intersection of the union maps sets the common rows. -/
theorem setRows_intersect (h : Compatible parties slots) (streams : Role → WordStream) :
    IndexMap.setRows (IndexMap.intersect ((parties .publisher).drawn (streams .publisher)).1
      ((parties .partner).drawn (streams .partner)).1) =
      commonRows (parties .publisher).input (parties .partner).input := by
  rw [IndexMap.setRows_intersect ((parties .publisher).drawn_numbers (h.unionSize_le _) _)
      ((parties .partner).drawn_numbers (h.unionSize_le _) _) (h.length_drawn_eq streams _ _),
    Party.length_drawn, commonRows]
  apply List.filter_congr
  intro i hi
  have hlt : i < (parties .publisher).input.unionSize := List.mem_range.1 hi
  have hlt' : i < (parties .partner).input.unionSize := h.unionSize_eq ▸ hlt
  rw [Bool.eq_iff_iff, decide_eq_true_iff, IndexMap.mem_realRows (Permutation.random_perm _ _),
    IndexMap.mem_realRows (Permutation.random_perm _ _), Bool.and_eq_true, Bool.not_eq_true',
    Bool.not_eq_true']
  exact ⟨fun hreal => ⟨hreal.1.2, hreal.2.2⟩, fun hreal => ⟨⟨hlt, hreal.1⟩, hlt', hreal.2⟩⟩

theorem length_rowAt (h : Compatible parties slots) (owner : Role) {i : Nat}
    (hi : i < (parties owner).input.unionSize) :
    ((parties owner).source.rowAt i).length = owner.rowWidth slots := by
  obtain ⟨-, hvalid, -, -, hsource⟩ := Party.make_inv (h.make_ok owner)
  rw [(RowSource.packRow_ok hsource hi).2, LocalInput.role_of_validate hvalid, h.role_eq, h.slots_eq]

theorem length_of_mem_packed (h : Compatible parties slots) (owner : Role) (s : WordStream)
    {row : Bytes} (hrow : row ∈ (parties owner).packed s) : row.length = owner.rowWidth slots := by
  obtain ⟨i, hi, rfl⟩ := List.mem_map.1 hrow
  exact h.length_rowAt owner ((IndexMap.mem_realRows (Permutation.random_perm _ _)).1 hi).1

theorem length_packed_le (h : Compatible parties slots) (owner : Role) (s : WordStream) :
    ((parties owner).packed s).length ≤ (parties owner).input.unionSize := by
  have hle := ((parties owner).drawn_numbers (h.unionSize_le owner) s).length_owners_le
  rw [Party.length_drawn] at hle
  exact (List.length_map _).trans_le hle

theorem lt_unionSize_of_mem (h : Compatible parties slots) (owner : Role) {i : Nat}
    (hi : i ∈ commonRows (parties .publisher).input (parties .partner).input) :
    i < (parties owner).input.unionSize := by
  have hlt := (mem_commonRows.1 hi).1
  cases owner with
  | publisher => exact hlt
  | partner => exact h.unionSize_eq ▸ hlt

/-- The shares of the publisher's rows can be stored, since there are not enough rows for more than
2^64 bits. -/
theorem storable_publisher (h : Compatible parties slots) :
    BitMatrix.Storable (commonRows (parties .publisher).input (parties .partner).input).length
      (8 * Role.publisher.rowWidth slots) := by
  have hle : (commonRows (parties .publisher).input (parties .partner).input).length ≤
      IndexMap.maxUnion := by
    refine (List.length_filter_le _ _).trans ?_
    rw [List.length_range]
    exact h.unionSize_le .publisher
  refine BitMatrix.storable_mono hle (Nat.le_refl _) ?_
  change BitMatrix.Storable IndexMap.maxUnion 40
  decide

theorem width_lt (h : Compatible parties slots) (role : Role) :
    Role.partner.rowWidth (parties role).config.conversionsPerUser < UInt64.size := by
  rw [h.slots_eq]
  have := h.size_lt
  omega

/-- The common rows of a party, which the dealer selects from those that it is sent. -/
theorem selectRows_packed (h : Compatible parties slots) (streams : Role → WordStream)
    (owner : Role) :
    IndexMap.selectRows ((parties owner).packed (streams owner))
      ((parties owner).drawn (streams owner)).1
      (IndexMap.intersect ((parties .publisher).drawn (streams .publisher)).1
        ((parties .partner).drawn (streams .partner)).1) =
      .ok ((commonRows (parties .publisher).input (parties .partner).input).map
        (parties owner).source.rowAt) := by
  have hset := h.setRows_intersect streams
  rw [← hset]
  refine IndexMap.selectRows_ok ((parties owner).drawn_numbers (h.unionSize_le owner) _) ?_
    (fun i hi => ?_) rfl
  · rw [IndexMap.length_intersect, h.length_drawn_eq streams .publisher owner,
      h.length_drawn_eq streams .partner owner, Nat.min_self]
  · rw [hset] at hi
    refine (IndexMap.mem_realRows (Permutation.random_perm _ _)).2
      ⟨h.lt_unionSize_of_mem owner hi, ?_⟩
    cases owner with
    | publisher => exact (mem_commonRows.1 hi).2.1
    | partner => exact (mem_commonRows.1 hi).2.2

theorem rowWidth_le_length (h : Compatible parties slots) (owner : Role) :
    ∀ row ∈ (commonRows (parties .publisher).input (parties .partner).input).map
      (parties owner).source.rowAt, owner.rowWidth slots ≤ row.length := by
  intro row hrow
  obtain ⟨i, hi, rfl⟩ := List.mem_map.1 hrow
  exact (h.length_rowAt owner (h.lt_unionSize_of_mem owner hi)).ge

end Compatible

theorem Deal.Concerns.selectRows {d : Deal} {parties : Role → Party} {streams : Role → WordStream}
    {slots : Nat} (h : d.Concerns parties streams slots) (hc : Compatible parties slots)
    (owner : Role) :
    IndexMap.selectRows (d.rows owner) (d.union owner) d.intersection =
      .ok ((commonRows (parties .publisher).input (parties .partner).input).map
        (parties owner).source.rowAt) := by
  rw [h.rows_eq, h.intersection_eq, h.union_eq, h.union_eq, h.union_eq]
  exact hc.selectRows_packed streams owner

namespace Compatible

variable {parties : Role → Party} {slots : Nat}

/-- The dealer can deal to compatible parties up to the partner's rows, whatever their shares
are. -/
theorem exists_opened (h : Compatible parties slots) (streams : Role → WordStream)
    (random : Dealer.Randomness) :
    ∃ s, ∀ mask masked : RowShares, ∃ d : Deal, d.mask .partner = mask ∧
      d.masked .partner = masked ∧ d.Opened random s ∧ d.Concerns parties streams slots ∧
      RowShares.Splits (d.mask .publisher) (d.masked .publisher)
        ((IndexMap.setRows d.intersection).map (parties .publisher).source.rowAt)
        (Role.publisher.rowWidth slots) := by
  let union (role : Role) := ((parties role).drawn (streams role)).1
  let intersection := IndexMap.intersect (union .publisher) (union .partner)
  have hset : IndexMap.setRows intersection =
      commonRows (parties .publisher).input (parties .partner).input := h.setRows_intersect streams
  obtain ⟨a, b, s, hshared, hsplits⟩ := RowShares.share_ok
    (by rw [List.length_map]; exact h.storable_publisher) (h.rowWidth_le_length .publisher)
    random.rows
  refine ⟨s, fun mask masked => ?_⟩
  let d : Deal :=
    { union
      intersection
      count := fun role => .ofNat ((parties role).packed (streams role)).length
      countMask := random.countMask
      rows := fun role => (parties role).packed (streams role)
      width := fun role => role.rowWidth slots
      mask := Role.pick a mask
      masked := Role.pick b masked }
  refine ⟨d, rfl, rfl, ⟨⟨h.length_drawn_eq streams _ _, ?_, rfl, rfl,
    fun owner row hrow => h.length_of_mem_packed owner _ hrow⟩, _, h.selectRows_packed streams _,
    hshared⟩, ⟨fun _ => rfl, fun _ => rfl, fun _ => rfl, fun _ => rfl, rfl, hset⟩, hset ▸ hsplits⟩
  intro role
  exact ((parties role).drawn_numbers (h.unionSize_le role) (streams role)).validate_ok.trans
    (congrArg Except.ok (List.length_map _).symm)

/-- The dealer can deal to compatible parties if the shares of the larger rows can be stored. -/
theorem exists_deal (h : Compatible parties slots)
    (hstorable : BitMatrix.Storable (8 * Role.partner.rowWidth slots)
      (commonRows (parties .publisher).input (parties .partner).input).length)
    (streams : Role → WordStream) (random : Dealer.Randomness) :
    ∃ d : Deal, d.Accepted random ∧ d.Fits parties streams slots := by
  obtain ⟨s, hopened⟩ := h.exists_opened streams random
  obtain ⟨a, b, s', hshared, hsplits⟩ := RowShares.share_ok
    (by rw [List.length_map]; exact BitMatrix.storable_comm hstorable)
    (h.rowWidth_le_length .partner) s
  obtain ⟨d, rfl, rfl, hopened, hconcerns, hsplits'⟩ := hopened a b
  obtain ⟨selected, hselected, hshared'⟩ := hopened.shared
  have hselect := hconcerns.selectRows h
  obtain rfl := Except.ok.inj (hselected.symm.trans (hselect .publisher))
  refine ⟨d, ⟨hopened.toChecked, _, s, s', hselect, hshared', ?_⟩, hconcerns, ?_⟩
  · rwa [hconcerns.width_eq]
  · rw [hconcerns.setRows_eq] at hsplits' ⊢
    rintro (_ | _) <;> assumption

end Compatible

/-! ## The side of a party -/

namespace Deal

variable {d : Deal} {c : Config} {owner : Role}

/-- The calls of a party in the session. -/
def calls (d : Deal) (c : Config) : List (Call ChannelError) :=
  [⟨.adapt (d.union c.role), .ok d.intersection⟩,
    countCall c (d.rows c.role) .publisher (.ok (d.countShare c.role .publisher)),
    countCall c (d.rows c.role) .partner (.ok (d.countShare c.role .partner)),
    rowsCall c d.intersection (d.rows c.role) .publisher (d.countShare c.role .publisher)
      (.ok (d.rowShares c.role .publisher)),
    rowsCall c d.intersection (d.rows c.role) .partner (d.countShare c.role .partner)
      (.ok (d.rowShares c.role .partner))]

/-- What a party makes of its shares. -/
def result (d : Deal) (party : Role) (slots : Nat) : ProcessedShares :=
  .ofShares (d.rowShares party .publisher) (d.rowShares party .partner) slots

theorem exchanges_countCall (hcount : d.count c.role = .ofNat (d.rows c.role).length) :
    (countCall c (d.rows c.role) owner (.ok (d.countShare c.role owner))).Exchanges
      (d.countExchange c.role owner) := by
  rw [countCall, countExchange]
  by_cases howner : owner = c.role
  · subst howner
    rw [if_pos rfl, if_pos rfl, hcount]
    exact .ownCount _ _ _
  · rw [if_neg howner, if_neg howner]
    exact .peerCount _ _

theorem exchanges_rowsCall (hwidth : d.width owner = owner.rowWidth c.conversionsPerUser) :
    (rowsCall c d.intersection (d.rows c.role) owner (d.countShare c.role owner)
      (.ok (d.rowShares c.role owner))).Exchanges (d.rowsExchange c.role owner) := by
  rw [rowsCall, rowsExchange]
  by_cases howner : owner = c.role
  · subst howner
    rw [if_pos rfl, if_pos rfl]
    exact .ownRows _ _ _
  · rw [if_neg howner, if_neg howner, hwidth]
    exact .peerRows _ _ _ _

theorem exchanges_calls (hlen : d.intersection.length = (d.union c.role).length)
    (hcount : d.count c.role = .ofNat (d.rows c.role).length)
    (hwidth : ∀ owner, d.width owner = owner.rowWidth c.conversionsPerUser) :
    List.Forall₂ Call.Exchanges (d.calls c) (d.exchanges c.role) :=
  .cons (.adapt hlen) <| .cons (exchanges_countCall hcount) <| .cons (exchanges_countCall hcount) <|
    .cons (exchanges_rowsCall (hwidth _)) <| .cons (exchanges_rowsCall (hwidth _)) .nil

end Deal

namespace Deal.Concerns

variable {d : Deal} {parties : Role → Party} {streams : Role → WordStream} {slots : Nat}

theorem length_intersection (h : d.Concerns parties streams slots) (hc : Compatible parties slots)
    (role : Role) : d.intersection.length = (d.union role).length := by
  rw [h.intersection_eq, IndexMap.length_intersect, h.union_eq, h.union_eq, h.union_eq,
    hc.length_drawn_eq streams .publisher role, hc.length_drawn_eq streams .partner role,
    Nat.min_self]

theorem exchanges_calls (h : d.Concerns parties streams slots) (hc : Compatible parties slots)
    (role : Role) :
    List.Forall₂ Call.Exchanges (d.calls (parties role).config) (d.exchanges role) := by
  have hwidth : ∀ owner,
      d.width owner = owner.rowWidth (parties role).config.conversionsPerUser := by
    intro owner
    rw [h.width_eq, hc.slots_eq]
  have hcalls := Deal.exchanges_calls (h.length_intersection hc _) (h.count_eq _) hwidth
  rwa [hc.role_eq] at hcalls

end Deal.Concerns

namespace Deal.Fits

variable {d : Deal} {parties : Role → Party} {streams : Role → WordStream} {slots : Nat}

theorem batchSize_rowShares (h : d.Fits parties streams slots) (party owner : Role) :
    (d.rowShares party owner).batchSize = d.intersection.setCount := by
  rw [IndexMap.setCount_eq]
  rcases d.rowShares_cases party owner with heq | heq
  · rw [heq]
    exact (h.splits owner).batchSize_left.trans (List.length_map _)
  · rw [heq]
    exact (h.splits owner).batchSize_right.trans (List.length_map _)

theorem rowBits_rowShares (h : d.Fits parties streams slots) (party owner : Role) :
    (d.rowShares party owner).rowBits = 8 * owner.rowWidth slots := by
  rcases d.rowShares_cases party owner with heq | heq
  · rw [heq]
    exact (h.splits owner).rowBits_left
  · rw [heq]
    exact (h.splits owner).rowBits_right

theorem extracted_eq (h : d.Fits parties streams slots) (hc : Compatible parties slots)
    (role : Role) :
    extracted (ε := ChannelError) (parties role).config (d.rowShares role .publisher)
      (d.rowShares role .partner) = .ok (d.result role slots) := by
  have hcount : (d.rowShares role .partner).batchSize = (d.rowShares role .publisher).batchSize := by
    rw [h.batchSize_rowShares, h.batchSize_rowShares]
  rw [extracted, hc.slots_eq, ProcessedShares.extract_eq _ _ hc.size_lt]
  simp only [h.rowBits_rowShares, hcount, ne_eq, not_true, if_false]
  rfl

theorem ending (h : d.Fits parties streams slots) (hc : Compatible parties slots) (role : Role) :
    Ending (parties role).config ((parties role).drawn (streams role)).1
      ((parties role).packed (streams role)) (d.calls (parties role).config)
      (.ok (d.result role slots)) := by
  have hsizes : checkBatchSizes (ε := ChannelError) d.intersection (d.rowShares role .publisher)
      (d.rowShares role .partner) =
      .ok (d.rowShares role .publisher, d.rowShares role .partner) := by
    simp only [checkBatchSizes, h.batchSize_rowShares, ne_eq, not_true, if_false]
  have hshares : Compacted (ε := ChannelError) (parties role).config d.intersection (d.rows role) _ _ :=
    .shares (d.countShare role .publisher) (d.countShare role .partner)
      (d.rowShares role .publisher) (d.rowShares role .partner)
  rw [hsizes] at hshares
  rw [← h.extracted_eq hc role, calls, hc.role_eq, ← h.union_eq, ← h.rows_eq]
  exact .extract d.intersection hshares

theorem serves_party (h : d.Fits parties streams slots) (hc : Compatible parties slots)
    (role : Role) :
    Serves (Party.processWith 2 (parties role).config (parties role).input (streams role))
      (Dues.only 2 ((d.exchanges role).flatMap Exchange.dues)) (.ok (d.result role slots)) :=
  ((Party.process_iff (hc.make_ok role) (hc.unionSize_le role) (hc.width_lt role)).2
    (h.ending hc role)).serves (h.exchanges_calls hc role)

end Deal.Fits

end PrivateLift
