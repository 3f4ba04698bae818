import PrivateLift.Columns
import PrivateLift.Proofs.Fault
import PrivateLift.Proofs.Row.Record
import PrivateLift.Proofs.Share

/-!
# The columns that shares of rows give

`extract_eq` says for any two matrices what extraction gives: three checks, and then the columns that
the rows stand for (`LiftColumns.ofBytes`), which have a known shape (`HasShape`). No conversion is
looked up in vain there (`bySlot_ofBytes`). `reveal_eq` says for any two parties' shares what
revealing gives; shares of one shape can always be revealed (`reveal_ok`). Since a record of an
exclusive or is the exclusive or of records, revealing two extractions gives the columns of the rows
that were shared (`reveal_ofShares`).
-/

namespace PrivateLift

/-! ## Shape -/

attribute [ext] LiftColumns

/-- One entry per row in every column, and one column per slot in every conversion field. -/
structure LiftColumns.HasShape (c : LiftColumns ShareColumn) (rows slots : Nat) : Prop where
  breakdownIds : c.breakdownIds.length = rows
  controlPopulation : c.controlPopulation.length = rows
  validOpportunity : c.validOpportunity.length = rows
  testReach : c.testReach.length = rows
  opportunityTimestamps : c.opportunityTimestamps.length = rows
  anyPurchase : c.anyPurchase.length = rows
  cohortGroupIds : c.cohortGroupIds.length = rows
  purchaseTimestamps : c.purchaseTimestamps.length = slots ∧
    ∀ column ∈ c.purchaseTimestamps, column.length = rows
  thresholdTimestamps : c.thresholdTimestamps.length = slots ∧
    ∀ column ∈ c.thresholdTimestamps, column.length = rows
  purchaseValues : c.purchaseValues.length = slots ∧
    ∀ column ∈ c.purchaseValues, column.length = rows
  purchaseValuesSquared : c.purchaseValuesSquared.length = slots ∧
    ∀ column ∈ c.purchaseValuesSquared, column.length = rows

namespace LiftColumns

/-- The conversions of all rows, slot by slot. -/
def conversionTable (rows : List Bytes) (slots : Nat) : List (List ConversionRow) :=
  (List.range slots).map fun slot => rows.map (ConversionRow.ofBytes · slot)

/-- The columns that rows stand for, whatever their bytes. -/
def ofBytes (publisher partner : List Bytes) (slots : Nat) : LiftColumns ShareColumn :=
  ofRows (publisher.map PublisherRow.ofBytes) (partner.map (PartnerRow.ofBytes · slots))
    (conversionTable partner slots)

/-- Every record has as many conversions as were decoded, so no slot is out of range. -/
theorem bySlot_ofBytes (rows : List Bytes) (slots : Nat) :
    PartnerRow.bySlot (rows.map (PartnerRow.ofBytes · slots)) slots =
      .ok (conversionTable rows slots) := by
  apply mapM_map_ok
  intro slot hslot
  have hlt := List.mem_range.1 hslot
  have hrow : ∀ row, (PartnerRow.ofBytes row slots).conversion slot =
      .ok (ConversionRow.ofBytes row slot) := by
    intro row
    simp [PartnerRow.conversion, PartnerRow.ofBytes, hlt]
  rw [List.mapM_map]
  exact mapM_map_ok fun row _ => hrow row

theorem slotColumns_shape {α : Type} (rows : List Bytes) (slots : Nat)
    (value : ConversionRow → α) :
    (slotColumns (conversionTable rows slots) value).length = slots ∧
      ∀ column ∈ slotColumns (conversionTable rows slots) value, column.length = rows.length := by
  refine ⟨by simp [slotColumns, conversionTable], ?_⟩
  intro column hcolumn
  simp only [slotColumns, conversionTable, List.map_map, List.mem_map] at hcolumn
  obtain ⟨slot, -, rfl⟩ := hcolumn
  simp [ShareColumn.length]

theorem hasShape_ofBytes {publisher partner : List Bytes}
    (h : publisher.length = partner.length) (slots : Nat) :
    (ofBytes publisher partner slots).HasShape publisher.length slots := by
  have single : ∀ {ρ α : Type} (f : Bytes → ρ) (value : ρ → α) (rows : List Bytes),
      (⟨(rows.map f).map value⟩ : ShareColumn α).length = rows.length := by
    intro ρ α f value rows
    rw [ShareColumn.length, List.length_map, List.length_map]
  refine ⟨single _ _ _, single _ _ _, single _ _ _, single _ _ _, single _ _ _,
    (single _ _ _).trans h.symm, (single _ _ _).trans h.symm, ?_, ?_, ?_, ?_⟩ <;> rw [h] <;>
    exact slotColumns_shape partner slots _

/-- The lengths of all columns. -/
def shape {F : Type → Type} (length : {α : Type} → F α → Nat) (c : LiftColumns F) :
    LiftColumns fun _ => Nat :=
  { breakdownIds := length c.breakdownIds
    controlPopulation := length c.controlPopulation
    validOpportunity := length c.validOpportunity
    testReach := length c.testReach
    opportunityTimestamps := length c.opportunityTimestamps
    anyPurchase := length c.anyPurchase
    cohortGroupIds := length c.cohortGroupIds
    purchaseTimestamps := c.purchaseTimestamps.map length
    thresholdTimestamps := c.thresholdTimestamps.map length
    purchaseValues := c.purchaseValues.map length
    purchaseValuesSquared := c.purchaseValuesSquared.map length }

instance (s t : LiftColumns fun _ => Nat) : Decidable (s = t) :=
  decidable_of_iff _ LiftColumns.ext_iff.symm

/-- Every conversion field cut to the number of columns that the other party has of it. -/
def cutTo {F G : Type → Type} (c : LiftColumns F) (other : LiftColumns G) : LiftColumns F :=
  { c with
    purchaseTimestamps := c.purchaseTimestamps.take other.purchaseTimestamps.length
    thresholdTimestamps := c.thresholdTimestamps.take other.thresholdTimestamps.length
    purchaseValues := c.purchaseValues.take other.purchaseValues.length
    purchaseValuesSquared := c.purchaseValuesSquared.take other.purchaseValuesSquared.length }

theorem cutTo_of_shape_eq {p q : LiftColumns ShareColumn}
    (h : p.shape ShareColumn.length = q.shape ShareColumn.length) : p.cutTo q = p := by
  have htake : ∀ {α : Type} {as bs : List (ShareColumn α)},
      as.map ShareColumn.length = bs.map ShareColumn.length → as.take bs.length = as := by
    intro α as bs hmap
    have hlength := congrArg List.length hmap
    rw [List.length_map, List.length_map] at hlength
    exact List.take_of_length_le hlength.le
  simp only [shape, LiftColumns.mk.injEq] at h
  obtain ⟨-, -, -, -, -, -, -, hpurchases, hthresholds, hvalues, hsquares⟩ := h
  simp only [cutTo, htake hpurchases, htake hthresholds, htake hvalues, htake hsquares]

/-- The shape of columns that all have an entry per row, with one column per slot in every
conversion field. -/
def evenShape (rows slots : Nat) : LiftColumns fun _ => Nat :=
  ⟨rows, rows, rows, rows, rows, rows, rows, List.replicate slots rows, List.replicate slots rows,
    List.replicate slots rows, List.replicate slots rows⟩

theorem HasShape.shape_eq {c : LiftColumns ShareColumn} {rows slots : Nat}
    (h : c.HasShape rows slots) : c.shape ShareColumn.length = evenShape rows slots := by
  have hslots : ∀ {α : Type} {columns : List (ShareColumn α)},
      columns.length = slots ∧ (∀ column ∈ columns, column.length = rows) →
        columns.map ShareColumn.length = List.replicate slots rows := by
    rintro α columns ⟨rfl, hrows⟩
    rw [List.map_congr_left hrows, List.map_const']
  rw [shape, evenShape, h.breakdownIds, h.controlPopulation, h.validOpportunity, h.testReach,
    h.opportunityTimestamps, h.anyPurchase, h.cohortGroupIds, hslots h.purchaseTimestamps,
    hslots h.thresholdTimestamps, hslots h.purchaseValues, hslots h.purchaseValuesSquared]

/-- The values of columns that are not shared. -/
def entries (c : LiftColumns ShareColumn) : RevealedColumns :=
  { breakdownIds := c.breakdownIds.entries
    controlPopulation := c.controlPopulation.entries
    validOpportunity := c.validOpportunity.entries
    testReach := c.testReach.entries
    opportunityTimestamps := c.opportunityTimestamps.entries
    anyPurchase := c.anyPurchase.entries
    cohortGroupIds := c.cohortGroupIds.entries
    purchaseTimestamps := c.purchaseTimestamps.map (·.entries)
    thresholdTimestamps := c.thresholdTimestamps.map (·.entries)
    purchaseValues := c.purchaseValues.map (·.entries)
    purchaseValuesSquared := c.purchaseValuesSquared.map (·.entries) }

end LiftColumns

/-! ## Extraction -/

namespace ProcessedShares

open LiftColumns BitMatrix

theorem publisherRows_ok {m : RowShares} (h : m.rowBits = 8 * publisherRowWidth) :
    m.toByteRows.mapM PublisherRow.decode = .ok (m.toByteRows.map PublisherRow.ofBytes) := by
  apply mapM_map_ok
  intro row hrow
  exact PublisherRow.decode_ok (RowShares.width_of_mem_toByteRows h hrow).ge

theorem partnerRows_ok {m : RowShares} {n : Nat} (h : m.rowBits = 8 * Role.partner.rowWidth n) :
    m.toByteRows.mapM (PartnerRow.decode · n) =
      .ok (m.toByteRows.map (PartnerRow.ofBytes · n)) := by
  apply mapM_map_ok
  intro row hrow
  exact PartnerRow.decode_ok (RowShares.width_of_mem_toByteRows h hrow).ge

theorem checkLayout_eq {m : RowShares} {role : Role} {n : Nat}
    (h : 8 * role.rowWidth n < UInt64.size) :
    m.checkLayout role n = if m.rowBits = 8 * role.rowWidth n then .ok ()
      else .error (.error (.layoutMismatch role (8 * role.rowWidth n) m.rowBits)) := by
  rw [RowShares.checkLayout, Role.width_ok (by omega)]
  simp only [Outcome.ofFault, bind, Except.bind, checkSize_ok h, ne_eq, ite_not]
  rfl

/-- A row of too many bits faults before anything of the shares is read. -/
theorem checkLayout_eq_fault {m : RowShares} {role : Role} {n : Nat}
    (h : ¬8 * role.rowWidth n < UInt64.size) :
    m.checkLayout role n = .error (.fault .sizeOverflow) := by
  rw [RowShares.checkLayout]
  by_cases hwidth : role.rowWidth n < UInt64.size
  · rw [Role.width_ok hwidth]
    simp only [Outcome.ofFault, bind, Except.bind, checkSize_error h]
  · rw [Role.width_error hwidth]
    rfl

/-- The data that shares of the right dimensions give. -/
def ofShares (publisher partner : RowShares) (n : Nat) : ProcessedShares :=
  ⟨publisher.batchSize, ofBytes publisher.toByteRows partner.toByteRows n⟩

/-- Extraction never faults on shares of any dimensions and any storage. -/
theorem extract_eq (publisher partner : RowShares) {n : Nat}
    (h : 8 * Role.partner.rowWidth n < UInt64.size) :
    extract publisher partner n =
      if publisher.rowBits ≠ 8 * Role.publisher.rowWidth n then
        .error (.error (.layoutMismatch .publisher (8 * Role.publisher.rowWidth n) publisher.rowBits))
      else if partner.rowBits ≠ 8 * Role.partner.rowWidth n then
        .error (.error (.layoutMismatch .partner (8 * Role.partner.rowWidth n) partner.rowBits))
      else if partner.batchSize ≠ publisher.batchSize then
        .error (.error (.rowCountMismatch .partner publisher.batchSize partner.batchSize))
      else .ok (ofShares publisher partner n) := by
  have hpublisher : 8 * Role.publisher.rowWidth n < UInt64.size := by
    change 8 * 5 < UInt64.size
    decide
  rw [extract, checkLayout_eq hpublisher, checkLayout_eq h]
  by_cases hpub : publisher.rowBits = 8 * Role.publisher.rowWidth n
  · by_cases hpar : partner.rowBits = 8 * Role.partner.rowWidth n
    · by_cases hcount : partner.batchSize = publisher.batchSize
      · simp [hpub, hpar, hcount, bind, Except.bind, publisherRows_ok hpub, partnerRows_ok hpar,
          bySlot_ofBytes, Outcome.ofFault, ofShares, LiftColumns.ofBytes, pure, Except.pure]
      · simp [hpub, hpar, hcount, bind, Except.bind, throw, throwThe, MonadExceptOf.throw]
    · simp [hpub, hpar, bind, Except.bind]
  · simp [hpub, bind, Except.bind]

theorem extract_inv {publisher partner : RowShares} {n : Nat} {data : ProcessedShares}
    (h : extract publisher partner n = .ok data) :
    8 * Role.partner.rowWidth n < UInt64.size ∧
      publisher.rowBits = 8 * Role.publisher.rowWidth n ∧
      partner.rowBits = 8 * Role.partner.rowWidth n ∧
      partner.batchSize = publisher.batchSize ∧ data = ofShares publisher partner n := by
  by_cases hsize : 8 * Role.partner.rowWidth n < UInt64.size
  · rw [extract_eq publisher partner hsize] at h
    split at h
    · cases h
    · next hpub =>
      split at h
      · cases h
      · next hpar =>
        split at h
        · cases h
        · next hcount =>
          cases h
          exact ⟨hsize, not_not.1 hpub, not_not.1 hpar, not_not.1 hcount, rfl⟩
  · rw [extract, checkLayout_eq_fault hsize] at h
    cases hpub : publisher.checkLayout .publisher n <;> simp [hpub, bind, Except.bind] at h

theorem hasShape_ofShares {publisher partner : RowShares}
    (h : partner.batchSize = publisher.batchSize) (n : Nat) :
    (ofShares publisher partner n).columns.HasShape (ofShares publisher partner n).rowCount n := by
  have hlen : publisher.toByteRows.length = partner.toByteRows.length := by simp [h]
  have hrows : (ofShares publisher partner n).rowCount = publisher.toByteRows.length := by
    simp [ofShares]
  rw [hrows]
  exact hasShape_ofBytes hlen n

end ProcessedShares

/-! ## Revealing -/

/-- Columns are revealed as far as both lists go, if their lengths agree so far. -/
theorem revealEach_eq {α : Type} (combine : α → α → α) (as bs : List (ShareColumn α)) :
    revealEach combine as bs =
      if (as.take bs.length).map ShareColumn.length = (bs.take as.length).map ShareColumn.length
      then .ok (List.zipWith (fun a b => List.zipWith combine a.entries b.entries) as bs)
      else .error .shareLengthsDiffer := by
  induction as generalizing bs with
  | nil => simp [revealEach]
  | cons a as ih =>
    cases bs with
    | nil => simp [revealEach]
    | cons b bs =>
      simp only [revealEach, ShareColumn.reveal, ih bs, ite_ok_bind, List.length_cons,
        List.take_succ_cons, List.map_cons, List.cons.injEq, ite_and]
      rfl

namespace ProcessedShares

open LiftColumns

/-- The values that two parties' columns stand for. -/
def combined (p q : LiftColumns ShareColumn) : RevealedColumns :=
  { breakdownIds := List.zipWith Bool.xor p.breakdownIds.entries q.breakdownIds.entries
    controlPopulation :=
      List.zipWith Bool.xor p.controlPopulation.entries q.controlPopulation.entries
    validOpportunity := List.zipWith Bool.xor p.validOpportunity.entries q.validOpportunity.entries
    testReach := List.zipWith Bool.xor p.testReach.entries q.testReach.entries
    opportunityTimestamps :=
      List.zipWith (· ^^^ ·) p.opportunityTimestamps.entries q.opportunityTimestamps.entries
    anyPurchase := List.zipWith Bool.xor p.anyPurchase.entries q.anyPurchase.entries
    cohortGroupIds := List.zipWith (· ^^^ ·) p.cohortGroupIds.entries q.cohortGroupIds.entries
    purchaseTimestamps := List.zipWith (fun a b => List.zipWith (· ^^^ ·) a.entries b.entries)
      p.purchaseTimestamps q.purchaseTimestamps
    thresholdTimestamps := List.zipWith (fun a b => List.zipWith (· ^^^ ·) a.entries b.entries)
      p.thresholdTimestamps q.thresholdTimestamps
    purchaseValues := List.zipWith (fun a b => List.zipWith (· ^^^ ·) a.entries b.entries)
      p.purchaseValues q.purchaseValues
    purchaseValuesSquared := List.zipWith (fun a b => List.zipWith (· ^^^ ·) a.entries b.entries)
      p.purchaseValuesSquared q.purchaseValuesSquared }

/-- Shares are revealed if their lengths agree after every conversion field is cut to the shorter
list of columns. -/
theorem reveal_eq (a b : ProcessedShares) :
    a.reveal b =
      if a.rowCount ≠ b.rowCount then .error .rowCountsDiffer
      else if (a.columns.cutTo b.columns).shape ShareColumn.length =
          (b.columns.cutTo a.columns).shape ShareColumn.length
        then .ok (combined a.columns b.columns)
        else .error .shareLengthsDiffer := by
  rw [reveal]
  by_cases hcount : a.rowCount = b.rowCount
  · rw [if_neg (not_not.2 hcount), if_neg (not_not.2 hcount)]
    simp only [ShareColumn.reveal, revealEach_eq, ite_ok_bind, ← ite_and]
    refine if_congr ?_ rfl rfl
    simp only [shape, cutTo, LiftColumns.mk.injEq]
  · rw [if_pos hcount, if_pos hcount]
    rfl

/-- Both parties have the same number of rows and columns of the same lengths. -/
def SameShape (a b : ProcessedShares) : Prop :=
  a.rowCount = b.rowCount ∧
    a.columns.shape ShareColumn.length = b.columns.shape ShareColumn.length

theorem SameShape.reveal_eq_ok {a b : ProcessedShares} (h : SameShape a b) :
    a.reveal b = .ok (combined a.columns b.columns) := by
  obtain ⟨hcount, hshape⟩ := h
  rw [reveal_eq, if_neg (not_not.2 hcount), cutTo_of_shape_eq hshape, cutTo_of_shape_eq hshape.symm,
    if_pos hshape]

/-- Shares of a known shape can be revealed. -/
theorem reveal_ok {a b : ProcessedShares} {n : Nat} (hcount : a.rowCount = b.rowCount)
    (ha : a.columns.HasShape a.rowCount n) (hb : b.columns.HasShape b.rowCount n) :
    a.reveal b = .ok (combined a.columns b.columns) := by
  have hshape : SameShape a b := ⟨hcount, by rw [ha.shape_eq, hb.shape_eq, hcount]⟩
  exact hshape.reveal_eq_ok

/-! ### Exclusive or of rows -/

/-- The values of two shares of rows combine to the values of the combined rows, if a record is read
bit by bit and a value is a part of the record. -/
theorem zipWith_values {ρ α : Type} {xor : ρ → ρ → ρ} {combine : α → α → α} {value : ρ → α}
    {ofBytes : Bytes → ρ} {rows rows' : List Bytes}
    (hvalue : ∀ r r', value (xor r r') = combine (value r) (value r'))
    (hxor : ∀ {a b : Bytes}, a.length = b.length →
      ofBytes (Bytes.xor a b) = xor (ofBytes a) (ofBytes b))
    (hlength : ∀ a ∈ rows, ∀ b ∈ rows', a.length = b.length) :
    List.zipWith combine ((rows.map ofBytes).map value) ((rows'.map ofBytes).map value) =
      ((List.zipWith Bytes.xor rows rows').map ofBytes).map value := by
  simp only [List.map_map, List.zipWith_map, List.map_zipWith]
  apply List.ext_getElem
  · simp only [List.length_zipWith]
  intro i hi hi'
  rw [List.length_zipWith] at hi
  have hlt : i < rows.length := by omega
  have hlt' : i < rows'.length := by omega
  have hlen := hlength rows[i] (List.getElem_mem hlt) rows'[i] (List.getElem_mem hlt')
  simp only [List.getElem_zipWith, Function.comp_apply, hxor hlen, hvalue]

/-- Slot by slot, the conversions of two shares of rows combine to those of the combined rows. -/
theorem zipWith_slotColumns {α : Type} {combine : α → α → α} {value : ConversionRow → α}
    (hvalue : ∀ c c', value (c.xor c') = combine (value c) (value c')) {rows rows' : List Bytes}
    (hlength : ∀ a ∈ rows, ∀ b ∈ rows', a.length = b.length) (slots : Nat) :
    List.zipWith (fun a b : ShareColumn α => List.zipWith combine a.entries b.entries)
        (slotColumns (conversionTable rows slots) value)
        (slotColumns (conversionTable rows' slots) value) =
      (slotColumns (conversionTable (List.zipWith Bytes.xor rows rows') slots) value).map
        (·.entries) := by
  simp only [slotColumns, conversionTable, List.map_map, List.zipWith_map, List.zipWith_self]
  apply List.map_congr_left
  intro slot _
  exact zipWith_values hvalue (ConversionRow.ofBytes_xor · slot) hlength

/-- The columns of two shares of rows combine to the columns of the combined rows. -/
theorem combined_ofBytes {p p' q q' : List Bytes} (slots : Nat)
    (hp : ∀ a ∈ p, ∀ b ∈ p', a.length = b.length) (hq : ∀ a ∈ q, ∀ b ∈ q', a.length = b.length) :
    combined (LiftColumns.ofBytes p q slots) (LiftColumns.ofBytes p' q' slots) =
      (LiftColumns.ofBytes (List.zipWith Bytes.xor p p') (List.zipWith Bytes.xor q q')
        slots).entries := by
  rw [combined, entries, LiftColumns.mk.injEq]
  exact ⟨zipWith_values (fun _ _ => rfl) PublisherRow.ofBytes_xor hp,
    zipWith_values (fun _ _ => rfl) PublisherRow.ofBytes_xor hp,
    zipWith_values (fun _ _ => rfl) PublisherRow.ofBytes_xor hp,
    zipWith_values (fun _ _ => rfl) PublisherRow.ofBytes_xor hp,
    zipWith_values (fun _ _ => rfl) PublisherRow.ofBytes_xor hp,
    zipWith_values (fun _ _ => rfl) (PartnerRow.ofBytes_xor · slots) hq,
    zipWith_values (fun _ _ => rfl) (PartnerRow.ofBytes_xor · slots) hq,
    zipWith_slotColumns (fun _ _ => rfl) hq slots, zipWith_slotColumns (fun _ _ => rfl) hq slots,
    zipWith_slotColumns (fun _ _ => rfl) hq slots, zipWith_slotColumns (fun _ _ => rfl) hq slots⟩

/-- Shares of the same dimensions reveal the columns of the combined rows. -/
theorem reveal_combined {a b c d : RowShares} (hpublisher : a.rowBits = b.rowBits)
    (hpartner : c.rowBits = d.rowBits) (hab : a.batchSize = b.batchSize)
    (hac : c.batchSize = a.batchSize) (hbd : d.batchSize = b.batchSize) (n : Nat) :
    (ofShares a c n).reveal (ofShares b d n) =
      .ok (LiftColumns.ofBytes (List.zipWith Bytes.xor a.toByteRows b.toByteRows)
        (List.zipWith Bytes.xor c.toByteRows d.toByteRows) n).entries := by
  have hlength : ∀ {m m' : RowShares}, m.rowBits = m'.rowBits →
      ∀ row ∈ m.toByteRows, ∀ row' ∈ m'.toByteRows, row.length = row'.length := by
    intro m m' hbits row hrow row' hrow'
    rw [RowShares.length_of_mem_toByteRows hrow, RowShares.length_of_mem_toByteRows hrow', hbits]
  rw [reveal_ok hab (hasShape_ofShares hac n) (hasShape_ofShares hbd n)]
  exact congrArg Except.ok (combined_ofBytes n (hlength hpublisher) (hlength hpartner))

/-- Both parties together reveal the columns of the rows that were shared. -/
theorem reveal_ofShares {a b c d : RowShares} {publisher partner : List Bytes} {n : Nat}
    (hpublisher : RowShares.Splits a b publisher publisherRowWidth)
    (hpartner : RowShares.Splits c d partner (Role.partner.rowWidth n))
    (hcount : publisher.length = partner.length)
    (hwidth : ∀ row ∈ publisher, row.length = publisherRowWidth)
    (hwidth' : ∀ row ∈ partner, row.length = Role.partner.rowWidth n) :
    (ofShares a c n).reveal (ofShares b d n) =
      .ok (LiftColumns.ofBytes publisher partner n).entries := by
  have hrows : ∀ {a b : RowShares} {rows : List Bytes} {width : Nat},
      RowShares.Splits a b rows width → (∀ row ∈ rows, row.length = width) →
        List.zipWith Bytes.xor a.toByteRows b.toByteRows = rows := by
    intro a b rows width h hwidth
    have hid : ∀ row ∈ rows, row.take width = id row :=
      fun row hrow => List.take_of_length_le (hwidth row hrow).le
    rw [h.reveal, List.map_congr_left hid, List.map_id]
  rw [reveal_combined (hpublisher.rowBits_left.trans hpublisher.rowBits_right.symm)
    (hpartner.rowBits_left.trans hpartner.rowBits_right.symm)
    (hpublisher.batchSize_left.trans hpublisher.batchSize_right.symm)
    (by rw [hpartner.batchSize_left, hpublisher.batchSize_left, hcount])
    (by rw [hpartner.batchSize_right, hpublisher.batchSize_right, hcount]),
    hrows hpublisher hwidth, hrows hpartner hwidth']

end ProcessedShares

end PrivateLift
