import PrivateLift.Proofs.BitMatrix.Built
import PrivateLift.Proofs.Columns
import PrivateLift.Proofs.Row.Layout

/-!
# Where the entries of a column come from

`extract_outcome` says for any two matrices what extraction gives. Rows of the right number of bits
are always decoded, and every entry is read from the cells of one column of one matrix: `Spells`
relates the cells to the bytes of a row, `ReadFrom` a column of the result to the field it is read
from. That no field lies outside of these bytes is the fit of the layout (`Role.layout_fits`).
-/

namespace PrivateLift

open Bytes BitMatrix

/-- The bytes whose bit `k` is the cell of the matrix in row `k` and column `j`. -/
structure RowShares.Spells (m : RowShares) (j : Nat) (bytes : Bytes) : Prop where
  length_eq : 8 * bytes.length = m.rowBits
  cells : ∀ k < m.rowBits, m.bits.get k j = .ok (bytes.bit k)

/-- The column has one entry for each column of the matrix: the field `f` of the only bytes that are
spelled there, narrowed to the type of the entries. -/
structure ShareColumn.ReadFrom {α : Type} (c : ShareColumn α) (m : RowShares) (f : Field)
    (narrow : UInt64 → α) : Prop where
  length_eq : c.length = m.batchSize
  entry : ∀ j < m.batchSize, ∃ row word, (∀ bytes, m.Spells j bytes ↔ bytes = row) ∧
    f.read row = .ok word ∧ c.entries[j]? = some (narrow word)

/-- There is one column for each conversion slot, read from the field `f` of the slot's block. -/
structure SlotsReadFrom {α : Type} (columns : List (ShareColumn α)) (m : RowShares) (slots : Nat)
    (f : Field) (narrow : UInt64 → α) : Prop where
  length_eq : columns.length = slots
  column : ∀ slot < slots, ∃ c, columns[slot]? = some c ∧
    c.ReadFrom m (f.shifted (ConversionLayout.offset slot)) narrow

/-- Every column is read from the field of its name, in the rows of the party that has the field. -/
structure LiftColumns.ReadFrom (c : LiftColumns ShareColumn) (publisher partner : RowShares)
    (slots : Nat) : Prop where
  breakdownIds : c.breakdownIds.ReadFrom publisher PublisherLayout.breakdownId (· == 1)
  controlPopulation :
    c.controlPopulation.ReadFrom publisher PublisherLayout.controlPopulation (· == 1)
  validOpportunity : c.validOpportunity.ReadFrom publisher PublisherLayout.validOpportunity (· == 1)
  testReach : c.testReach.ReadFrom publisher PublisherLayout.testReach (· == 1)
  opportunityTimestamps : c.opportunityTimestamps.ReadFrom publisher
    PublisherLayout.opportunityTimestamp UInt64.toUInt32
  anyPurchase : c.anyPurchase.ReadFrom partner PartnerLayout.anyPurchase (· == 1)
  cohortGroupIds : c.cohortGroupIds.ReadFrom partner PartnerLayout.cohortGroupId UInt64.toUInt32
  purchaseTimestamps : SlotsReadFrom c.purchaseTimestamps partner slots
    ConversionLayout.purchaseTimestamp UInt64.toUInt32
  thresholdTimestamps : SlotsReadFrom c.thresholdTimestamps partner slots
    ConversionLayout.thresholdTimestamp UInt64.toUInt32
  purchaseValues : SlotsReadFrom c.purchaseValues partner slots
    ConversionLayout.purchaseValue (·.toUInt32.toInt32)
  purchaseValuesSquared : SlotsReadFrom c.purchaseValuesSquared partner slots
    ConversionLayout.purchaseValueSquared UInt64.toInt64

/-! ## Rows -/

/-- The share of a row is what the column of the matrix that belongs to the row spells. -/
theorem RowShares.spells_iff {m : RowShares} {width j : Nat} (hbits : m.rowBits = 8 * width)
    (hj : j < m.toByteRows.length) {bytes : Bytes} :
    m.Spells j bytes ↔ bytes = m.toByteRows[j] := by
  have hlength := width_of_mem_toByteRows hbits (List.getElem_mem hj)
  have hsize : j < m.bits.cols := by rwa [length_toByteRows] at hj
  have hcell : ∀ k < m.rowBits, m.bits.get k j = .ok (m.toByteRows[j].bit k) := by
    intro k hk
    rw [bit_toByteRows m hj hk]
    exact get_eq_bit hk hsize
  constructor
  · rintro ⟨hlen, hbit⟩
    refine ext_bit (by omega) fun k hk => ?_
    have hsame := (hbit k (hlen ▸ hk)).symm.trans (hcell k (hlen ▸ hk))
    exact Except.ok.inj hsame
  · rintro rfl
    exact ⟨by omega, hcell⟩

/-! ## Columns -/

/-- The values of decoded records are read from a field of the layout if narrowing undoes what
extended them. -/
theorem ShareColumn.ReadFrom.of_mem_layout {Record α : Type} {role : Role} {slots : Nat}
    {m : RowShares} {f : Field} {narrow : UInt64 → α} {ofBytes : Bytes → Record}
    {value : Record → α} (hbits : m.rowBits = 8 * role.rowWidth slots) (hf : f ∈ role.layout slots)
    (hvalue : ∀ row, narrow (f.value row) = value (ofBytes row)) :
    ReadFrom ⟨(m.toByteRows.map ofBytes).map value⟩ m f narrow := by
  obtain ⟨hfits, hsign⟩ := role.layout_fits slots f hf
  refine ⟨by simp [length], fun j hj => ?_⟩
  have hrow : j < m.toByteRows.length := m.length_toByteRows.symm ▸ hj
  have hlength := RowShares.width_of_mem_toByteRows hbits (List.getElem_mem hrow)
  refine ⟨m.toByteRows[j], f.value m.toByteRows[j], fun _ => RowShares.spells_iff hbits hrow,
    Field.read_ok (hfits.mono hlength.ge) hsign, ?_⟩
  rw [hvalue, List.map_map]
  exact List.getElem?_eq_some_iff.2 ⟨by simpa using hrow, List.getElem_map _⟩

theorem SlotsReadFrom.of_mem_fields {α : Type} {slots : Nat} {m : RowShares} {f : Field}
    {narrow : UInt64 → α} {value : ConversionRow → α}
    (hbits : m.rowBits = 8 * Role.partner.rowWidth slots) (hf : f ∈ ConversionLayout.fields)
    (hvalue : ∀ row slot, narrow ((f.shifted (ConversionLayout.offset slot)).value row) =
      value (ConversionRow.ofBytes row slot)) :
    SlotsReadFrom
      (LiftColumns.slotColumns (LiftColumns.conversionTable m.toByteRows slots) value)
      m slots f narrow := by
  refine ⟨(LiftColumns.slotColumns_shape _ _ _).1, fun slot hslot => ?_⟩
  have hmem : f.shifted (ConversionLayout.offset slot) ∈ Role.partner.layout slots :=
    Role.mem_layout_partner.2 (.inr ⟨slot, hslot, f, hf, rfl⟩)
  refine ⟨_, ?_, ShareColumn.ReadFrom.of_mem_layout hbits hmem fun row => hvalue row slot⟩
  simp [LiftColumns.slotColumns, LiftColumns.conversionTable, hslot]

namespace ProcessedShares

/-- Shares of the right dimensions are decoded in place: every field holds the value of the record,
extended to a word, and narrowing the word gives the value. -/
theorem readFrom_ofShares {publisher partner : RowShares} {n : Nat}
    (hpublisher : publisher.rowBits = 8 * Role.publisher.rowWidth n)
    (hpartner : partner.rowBits = 8 * Role.partner.rowWidth n) :
    (ofShares publisher partner n).columns.ReadFrom publisher partner n := by
  have flag : ∀ b : Bool, (b.toUInt64 == 1) = b := by decide
  have publisherValues := PublisherRow.values_ofBytes
  have partnerValues := fun row => PartnerRow.values_ofBytes row n
  have conversionValues := ConversionRow.values_ofBytes
  -- The lists of values are equal, so each field has the value of the record in its place.
  simp only [PublisherLayout.fields, PublisherRow.values, Role.layout, PartnerLayout.fields,
    PartnerRow.values, ConversionLayout.fields, ConversionRow.values, List.cons_append,
    List.map_cons, List.map_nil, List.cons.injEq] at publisherValues partnerValues conversionValues
  have ofPublisher : ∀ {α : Type} {f : Field} {narrow : UInt64 → α} {value : PublisherRow → α},
      f ∈ PublisherLayout.fields →
      (∀ row, narrow (f.value row) = value (PublisherRow.ofBytes row)) →
      ShareColumn.ReadFrom ⟨(publisher.toByteRows.map PublisherRow.ofBytes).map value⟩ publisher f
        narrow :=
    fun hf => .of_mem_layout hpublisher hf
  have ofPartner : ∀ {α : Type} {f : Field} {narrow : UInt64 → α} {value : PartnerRow → α},
      f ∈ PartnerLayout.fields →
      (∀ row, narrow (f.value row) = value (PartnerRow.ofBytes row n)) →
      ShareColumn.ReadFrom ⟨(partner.toByteRows.map (PartnerRow.ofBytes · n)).map value⟩ partner f
        narrow :=
    fun hf => .of_mem_layout hpartner (Role.mem_layout_partner.2 (.inl hf))
  exact
    { breakdownIds := ofPublisher (by decide) fun row => by simp only [publisherValues row, flag]
      controlPopulation := ofPublisher (by decide) fun row => by
        simp only [publisherValues row, flag]
      validOpportunity := ofPublisher (by decide) fun row => by
        simp only [publisherValues row, flag]
      testReach := ofPublisher (by decide) fun row => by simp only [publisherValues row, flag]
      opportunityTimestamps := ofPublisher (by decide) fun row => by
        simp only [publisherValues row, UInt32.toUInt32_toUInt64]
      anyPurchase := ofPartner (by decide) fun row => by simp only [partnerValues row, flag]
      cohortGroupIds := ofPartner (by decide) fun row => by
        simp only [partnerValues row, UInt32.toUInt32_toUInt64]
      purchaseTimestamps := .of_mem_fields hpartner (by decide) fun row slot => by
        simp only [conversionValues row slot, UInt32.toUInt32_toUInt64]
      thresholdTimestamps := .of_mem_fields hpartner (by decide) fun row slot => by
        simp only [conversionValues row slot, UInt32.toUInt32_toUInt64]
      purchaseValues := .of_mem_fields hpartner (by decide) fun row slot => by
        simp only [conversionValues row slot, Field.toUInt32_toUInt64_toInt64,
          Int32.toInt32_toUInt32]
      purchaseValuesSquared := .of_mem_fields hpartner (by decide) fun row slot => by
        simp only [conversionValues row slot, Int64.toInt64_toUInt64] }

/-- Extraction gives the error of the first check that fails: the number of bits of a publisher row,
that of a partner row, the number of rows. Otherwise it decodes every row in place. -/
theorem extract_outcome (publisher partner : RowShares) {n : Nat}
    (hn : 8 * Role.partner.rowWidth n < UInt64.size) :
    if publisher.rowBits ≠ 40 then
      extract publisher partner n =
        .error (.error (.layoutMismatch .publisher 40 publisher.rowBits))
    else if partner.rowBits ≠ 8 * (5 + 20 * n) then
      extract publisher partner n =
        .error (.error (.layoutMismatch .partner (8 * (5 + 20 * n)) partner.rowBits))
    else if partner.batchSize ≠ publisher.batchSize then
      extract publisher partner n =
        .error (.error (.rowCountMismatch .partner publisher.batchSize partner.batchSize))
    else ∃ data, extract publisher partner n = .ok data ∧ data.rowCount = publisher.batchSize ∧
      data.columns.ReadFrom publisher partner n := by
  have hpublisher : 8 * Role.publisher.rowWidth n = 40 := rfl
  have hpartner : 8 * Role.partner.rowWidth n = 8 * (5 + 20 * n) := rfl
  rw [extract_eq publisher partner hn, hpublisher, hpartner]
  split
  · rfl
  next hpub =>
  split
  · rfl
  next hpar =>
  split
  · rfl
  · exact ⟨_, rfl, rfl, readFrom_ofShares (not_not.1 hpub) (not_not.1 hpar)⟩

/-- One row and one slot. All cells of the publisher are set, which reads as four set flags and the
largest timestamp; no cell of the partner is set. -/
theorem extract_outcome_one_row :
    let publisher : RowShares := ⟨⟨40, 1, (List.replicate 40 [1, 0]).flatten ++ .replicate 16 0⟩⟩
    let partner : RowShares := ⟨⟨200, 1, .replicate 416 0⟩⟩
    8 * Role.partner.rowWidth 1 < UInt64.size ∧
      ∃ data, extract publisher partner 1 = .ok data ∧ data.rowCount = 1 ∧
        data.columns.ReadFrom publisher partner 1 ∧
        data.columns.opportunityTimestamps.entries[0]? = some 4294967295 := by
  intro publisher partner
  have hn : 8 * Role.partner.rowWidth 1 < UInt64.size := by decide
  obtain ⟨data, hdata, hcount, hread⟩ := extract_outcome publisher partner hn
  refine ⟨hn, data, hdata, hcount, hread, ?_⟩
  obtain ⟨row, word, hspells, hword, hentry⟩ := hread.opportunityTimestamps.entry 0 Nat.zero_lt_one
  have hset : publisher.Spells 0 [255, 255, 255, 255, 255] := ⟨rfl, by decide +kernel⟩
  obtain rfl := (hspells _).1 hset
  obtain rfl : 4294967295 = word := Except.ok.inj hword
  exact hentry

end ProcessedShares

end PrivateLift
