import PrivateLift.Dealer.Run
import PrivateLift.Proofs.Share
import PrivateLift.Proofs.UnionMap.Positions
import PrivateLift.Proofs.Wire

/-!
# What the dealer must accept

A session has five rounds. In each of them both parties send one message, and after it has passed
the checks of the round the dealer sends one reply to each. A transcript holds all that is said. The
checks of a round are written here as a structure (`Passes`), and the first of them that fails, with
the error that stands for it, as an inductive type (`Violation`).
-/

namespace PrivateLift

/-! ## Union maps -/

/-- The union maps have one length and are valid. -/
structure UnionsPass (union : Role → IndexMap) : Prop where
  length_eq : (union .publisher).length = (union .partner).length
  valid : ∀ party, ∃ k, (union party).validate = .ok k

/-- The first check of the union maps that fails. -/
inductive UnionsViolation (union : Role → IndexMap) : DealerError → Prop where
  | size (h : (union .publisher).length ≠ (union .partner).length) :
      UnionsViolation union
        (.unionSizeMismatch (union .publisher).length (union .partner).length)
  | publisher (hlength : (union .publisher).length = (union .partner).length)
      {e : IndexMap.Error} (h : (union .publisher).validate = .error e) :
      UnionsViolation union (.unionMap e)
  | partner (hlength : (union .publisher).length = (union .partner).length)
      {k : Nat} (hpublisher : (union .publisher).validate = .ok k)
      {e : IndexMap.Error} (h : (union .partner).validate = .error e) :
      UnionsViolation union (.unionMap e)

theorem UnionsViolation.not_pass {union : Role → IndexMap} {e : DealerError}
    (h : UnionsViolation union e) : ¬UnionsPass union := by
  intro hpass
  cases h with
  | size h => exact h hpass.length_eq
  | publisher _ h =>
    obtain ⟨k, hk⟩ := hpass.valid .publisher
    rw [h] at hk
    cases hk
  | partner _ _ h =>
    obtain ⟨k, hk⟩ := hpass.valid .partner
    rw [h] at hk
    cases hk

/-! ## The rows that are shared -/

namespace IndexMap

/-- The row for row `i` of the union, where the union map gives the positions in a list of rows. -/
def unionRow (map : IndexMap) (rows : List Bytes) (i : Nat) : Bytes :=
  ((position? (map.getD i unset)).bind (rows[·]?)).getD []

/-- The owner's rows for the rows of the union that are real for both parties, in union order. -/
def commonRows (union : Role → IndexMap) (owner : Role) (rows : List Bytes) : List Bytes :=
  ((List.range (union .publisher).length).filter fun i =>
    (union .publisher).getD i unset ≠ unset ∧ (union .partner).getD i unset ≠ unset).map
      (unionRow (union owner) rows)

theorem Numbers.map_unionRow {map : IndexMap} {owners : List Nat} (h : Numbers map owners)
    {rows : List Bytes} (hlength : rows.length = map.setCount) :
    rows = owners.map (unionRow map rows) := by
  have hlen := hlength.trans h.setCount_eq
  apply List.ext_getElem (by simpa using hlen)
  intro p hp hp'
  rw [List.length_map] at hp'
  have howns : owners[p]? = some owners[p] := List.getElem?_eq_getElem hp'
  rw [List.getElem_map, unionRow, List.getD_eq_getElem?_getD, h.position p _ howns,
    Option.getD_some, position?_ofNat (h.position_le howns).2, Option.bind_some,
    List.getElem?_eq_getElem hp, Option.getD_some]

end IndexMap

namespace UnionsPass

variable {union : Role → IndexMap}

theorem exists_numbers (h : UnionsPass union) (party : Role) :
    ∃ owners, IndexMap.Numbers (union party) owners := by
  obtain ⟨k, hk⟩ := h.valid party
  exact ⟨_, IndexMap.numbers_of_validate hk⟩

theorem length_intersect (h : UnionsPass union) (party : Role) :
    (IndexMap.intersect (union .publisher) (union .partner)).length = (union party).length := by
  rw [IndexMap.length_intersect, ← h.length_eq, Nat.min_self]
  cases party with
  | publisher => rfl
  | partner => exact h.length_eq

/-- The intersection sets the rows that both maps set. -/
theorem setRows_intersect (h : UnionsPass union) :
    IndexMap.setRows (IndexMap.intersect (union .publisher) (union .partner)) =
      (List.range (union .publisher).length).filter fun i =>
        (union .publisher).getD i IndexMap.unset ≠ IndexMap.unset ∧
          (union .partner).getD i IndexMap.unset ≠ IndexMap.unset := by
  obtain ⟨owners, hpublisher⟩ := h.exists_numbers .publisher
  exact hpublisher.setRows_intersect_eq h.length_eq

/-- The validity of the maps and the number of the rows keep the selection of the common rows in
range. -/
theorem selectRows_eq (h : UnionsPass union) {owner : Role} {rows : List Bytes}
    (hlength : rows.length = (union owner).setCount) :
    IndexMap.selectRows rows (union owner)
        (IndexMap.intersect (union .publisher) (union .partner)) =
      .ok (IndexMap.commonRows union owner rows) ∧
    (IndexMap.commonRows union owner rows).length =
      (IndexMap.intersect (union .publisher) (union .partner)).setCount ∧
    ∀ row ∈ IndexMap.commonRows union owner rows, row ∈ rows := by
  obtain ⟨owners, howners⟩ := h.exists_numbers owner
  have hset := h.setRows_intersect
  have hrows := howners.map_unionRow hlength
  have hcommon : IndexMap.commonRows union owner rows =
      (IndexMap.setRows (IndexMap.intersect (union .publisher) (union .partner))).map
        (IndexMap.unionRow (union owner) rows) := by
    rw [hset]
    rfl
  have howned : ∀ i ∈ IndexMap.setRows (IndexMap.intersect (union .publisher) (union .partner)),
      i ∈ owners := by
    intro i hi
    rw [hset, List.mem_filter, decide_eq_true_eq] at hi
    have hne : (union owner).getD i IndexMap.unset ≠ IndexMap.unset := by
      cases owner with
      | publisher => exact hi.2.1
      | partner => exact hi.2.2
    rwa [ne_eq, howners.getD_eq_unset_iff, Classical.not_not] at hne
  rw [hcommon, List.length_map, IndexMap.setCount_eq]
  refine ⟨IndexMap.selectRows_ok howners (h.length_intersect owner) howned hrows, rfl, ?_⟩
  intro row hrow
  obtain ⟨i, hi, rfl⟩ := List.mem_map.1 hrow
  have hmem := List.mem_map_of_mem (f := IndexMap.unionRow (union owner) rows) (howned i hi)
  rwa [← hrows] at hmem

end UnionsPass

/-! ## Row counts -/

/-- What the owner and its peer say about the owner's row count. -/
structure CountRound where
  own : Option UInt32
  peer : Option UInt32
  deriving Inhabited

namespace CountRound

/-- The owner gives a count and its peer gives none. -/
structure Passes (r : CountRound) : Prop where
  own : ∃ count, r.own = some count
  peer : r.peer = none

/-- The check of a row count fails. -/
inductive Violation (owner : Role) (r : CountRound) : DealerError → Prop where
  | ownership (h : ¬r.Passes) : Violation owner r (.rowCountOwnership owner)

end CountRound

/-! ## Rows -/

/-- What the owner and its peer say about the owner's rows, and the shares that they are given. -/
structure RowsRound where
  rows : List Bytes
  /-- The size of the intersection map as the owner gives it. -/
  outputSize : Nat
  /-- The share of the row count and the intersection map as the peer echoes them. -/
  echoedShare : UInt32
  echoedMap : IndexMap
  /-- The width that the peer announces. -/
  width : Nat
  ownShares : RowShares
  peerShares : RowShares
  deriving Inhabited

namespace RowsRound

/-- The owner and its peer agree with the dealer on the intersection and on the share of the row
count, and the rows have the number and the width that they must have. -/
structure Passes (r : RowsRound) (intersection : IndexMap) (countShare : UInt32) (rowCount : Nat) :
    Prop where
  outputSize_eq : r.outputSize = intersection.length
  echoedMap_eq : r.echoedMap = intersection
  echoedShare_eq : r.echoedShare = countShare
  length_eq : r.rows.length = rowCount
  width_eq : ∀ row ∈ r.rows, row.length = r.width

/-- The first check of some rows that fails. -/
inductive Violation (owner : Role) (r : RowsRound) (intersection : IndexMap) (countShare : UInt32)
    (rowCount : Nat) : DealerError → Prop where
  | outputSize (h : r.outputSize ≠ intersection.length) :
      Violation owner r intersection countShare rowCount (.intersectionMismatch owner)
  | echoedMap (hsize : r.outputSize = intersection.length) (h : r.echoedMap ≠ intersection) :
      Violation owner r intersection countShare rowCount (.intersectionMismatch owner.peer)
  | echoedShare (hsize : r.outputSize = intersection.length) (hmap : r.echoedMap = intersection)
      (h : r.echoedShare ≠ countShare) :
      Violation owner r intersection countShare rowCount (.rowCountShareMismatch owner.peer)
  | rowCount (hsize : r.outputSize = intersection.length) (hmap : r.echoedMap = intersection)
      (hshare : r.echoedShare = countShare) (h : r.rows.length ≠ rowCount) :
      Violation owner r intersection countShare rowCount
        (.rowCountMismatch owner rowCount r.rows.length)
  | rowWidth (hsize : r.outputSize = intersection.length) (hmap : r.echoedMap = intersection)
      (hshare : r.echoedShare = countShare) (hlength : r.rows.length = rowCount)
      {before after : List Bytes} {row : Bytes} (hrows : r.rows = before ++ row :: after)
      (hbefore : ∀ row' ∈ before, row'.length = r.width) (h : row.length ≠ r.width) :
      Violation owner r intersection countShare rowCount
        (.rowWidthMismatch owner r.width row.length)

variable {owner : Role} {r : RowsRound} {intersection : IndexMap} {countShare : UInt32}
  {rowCount : Nat}

theorem Violation.not_passes {e : DealerError}
    (h : r.Violation owner intersection countShare rowCount e) :
    ¬r.Passes intersection countShare rowCount := by
  intro hpasses
  cases h with
  | outputSize h => exact h hpasses.outputSize_eq
  | echoedMap _ h => exact h hpasses.echoedMap_eq
  | echoedShare _ _ h => exact h hpasses.echoedShare_eq
  | rowCount _ _ _ h => exact h hpasses.length_eq
  | rowWidth _ _ _ _ hrows _ h => exact h (hpasses.width_eq _ (by simp [hrows]))

/-- The checks of some rows pass or find the first violation. -/
theorem checkRows_cases (owner : Role) (r : RowsRound) (intersection : IndexMap)
    (countShare : UInt32) (rowCount : Nat) :
    (Dealer.checkRows owner intersection rowCount countShare (r.rows, r.outputSize)
        (r.echoedShare, r.echoedMap, r.width) = .ok () ∧
      r.Passes intersection countShare rowCount) ∨
    ∃ e, Dealer.checkRows owner intersection rowCount countShare (r.rows, r.outputSize)
        (r.echoedShare, r.echoedMap, r.width) = .error e ∧
      r.Violation owner intersection countShare rowCount e := by
  simp only [Dealer.checkRows]
  -- One check after the other, in the order in which the dealer makes them.
  split
  next hsize => exact .inr ⟨_, rfl, .outputSize hsize⟩
  next hsize =>
    have hsize := Classical.not_not.1 hsize
    split
    next hmap => exact .inr ⟨_, rfl, .echoedMap hsize hmap⟩
    next hmap =>
      have hmap := Classical.not_not.1 hmap
      split
      next hshare => exact .inr ⟨_, rfl, .echoedShare hsize hmap hshare⟩
      next hshare =>
        have hshare := Classical.not_not.1 hshare
        split
        next hcount => exact .inr ⟨_, rfl, .rowCount hsize hmap hshare hcount⟩
        next hcount =>
          have hcount := Classical.not_not.1 hcount
          split
          next row hfind =>
            obtain ⟨hwidth, before, after, hrows, hbefore⟩ := List.find?_eq_some_iff_append.1 hfind
            exact .inr ⟨_, rfl, .rowWidth hsize hmap hshare hcount hrows
              (fun row' hrow' => by simpa using hbefore row' hrow') (by simpa using hwidth)⟩
          next hfind =>
            exact .inl ⟨rfl, hsize, hmap, hshare, hcount, fun row hrow => by
              simpa using List.find?_eq_none.1 hfind row hrow⟩

/-- The common rows of a round that passes are selected and shared. -/
theorem Passes.share_ok {union : Role → IndexMap}
    (h : r.Passes (IndexMap.intersect (union .publisher) (union .partner)) countShare
      (union owner).setCount)
    (hunions : UnionsPass union)
    (hs : BitMatrix.Storable
      (IndexMap.intersect (union .publisher) (union .partner)).setCount (8 * r.width))
    (s : WordStream) :
    ∃ mask masked s',
      IndexMap.selectRows r.rows (union owner)
        (IndexMap.intersect (union .publisher) (union .partner)) =
          .ok (IndexMap.commonRows union owner r.rows) ∧
      RowShares.share (IndexMap.commonRows union owner r.rows) r.width s =
        .ok (mask, masked, s') ∧
      RowShares.Splits mask masked (IndexMap.commonRows union owner r.rows) r.width := by
  obtain ⟨hselect, hsize, hmem⟩ := hunions.selectRows_eq h.length_eq
  rw [← hsize] at hs
  obtain ⟨mask, masked, s', hshare, hsplits⟩ := RowShares.share_ok hs
    (fun row hrow => (h.width_eq row (hmem row hrow)).ge) s
  exact ⟨mask, masked, s', hselect, hshare, hsplits⟩

end RowsRound

/-! ## Transcripts -/

/-- The rounds of a session; a count and some rows have an owner. -/
inductive Round where
  | maps
  | count (owner : Role)
  | rows (owner : Role)
  deriving DecidableEq

/-- The rounds in their order. -/
def Round.all : List Round :=
  [.maps, .count .publisher, .count .partner, .rows .publisher, .rows .partner]

/-- What is said in a session. -/
structure Transcript where
  /-- The union map of each party. -/
  union : Role → IndexMap
  /-- The rounds about each party's row count and rows. -/
  counts : Role → CountRound
  rows : Role → RowsRound
  deriving Inhabited

namespace Transcript

variable (t : Transcript) (random : Dealer.Randomness)

/-- The intersection of the union maps. -/
def intersection : IndexMap := IndexMap.intersect (t.union .publisher) (t.union .partner)

/-- The share of a row count that is issued to the peer of its owner. -/
def countShare (owner : Role) : UInt32 := (t.counts owner).own.getD 0 ^^^ random.countMask owner

/-- What a party sends in a round. -/
def request : Round → Role → Message
  | .maps, party => ⟨.unionMap, t.union party⟩
  | .count owner, party =>
    ⟨.rowCount, if party = owner then (t.counts owner).own else (t.counts owner).peer⟩
  | .rows owner, party =>
    if party = owner then ⟨.ownRows, (t.rows owner).rows, (t.rows owner).outputSize⟩
    else ⟨.peerRows, (t.rows owner).echoedShare, (t.rows owner).echoedMap, (t.rows owner).width⟩

/-- What a party is sent in a round that passes. -/
def reply : Round → Role → Message
  | .maps, _ => ⟨.intersectionMap, t.intersection⟩
  | .count owner, party =>
    ⟨.rowCountShare, if party = owner then random.countMask owner else t.countShare random owner⟩
  | .rows owner, party =>
    ⟨.rowShares, if party = owner then (t.rows owner).ownShares else (t.rows owner).peerShares⟩

/-- The messages of a round pass all checks. -/
def Passes : Round → Prop
  | .maps => UnionsPass t.union
  | .count owner => (t.counts owner).Passes
  | .rows owner =>
    (t.rows owner).Passes t.intersection (t.countShare random owner) (t.union owner).setCount

/-- The first check of a round that fails, with its error. -/
def Violation : Round → DealerError → Prop
  | .maps => UnionsViolation t.union
  | .count owner => (t.counts owner).Violation owner
  | .rows owner => (t.rows owner).Violation owner t.intersection (t.countShare random owner)
      (t.union owner).setCount

variable {t random}

theorem not_passes_of_violation {round : Round} {e : DealerError}
    (h : t.Violation random round e) : ¬t.Passes random round := by
  cases round with
  | maps => exact UnionsViolation.not_pass h
  | count owner =>
    cases h with
    | ownership h => exact h
  | rows owner => exact RowsRound.Violation.not_passes h

end Transcript

end PrivateLift
