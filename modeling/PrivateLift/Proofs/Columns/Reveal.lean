import PrivateLift.Proofs.Columns

/-!
# Revealing extracted columns

`extract_reveal`: whatever two pairs of shares hold, as long as their dimensions are those of one
batch, extracting both and revealing gives the fields of the records that the combined rows decode
to. The rows need not come from sharing a batch.
-/

namespace PrivateLift

/-- A column of a slot has the values of the conversions that the records have in this slot. -/
theorem LiftColumns.entries_slotColumns {α : Type} (rows : List Bytes) (slots : Nat)
    (value : ConversionRow → α) :
    (slotColumns (conversionTable rows slots) value).map (·.entries) =
      (List.range slots).map fun slot => (rows.map (PartnerRow.ofBytes · slots)).map fun row =>
        value (row.conversions.getD slot default) := by
  simp only [slotColumns, conversionTable, List.map_map]
  apply List.map_congr_left
  intro slot hslot
  have hlt := List.mem_range.1 hslot
  simp [PartnerRow.ofBytes, hlt]

namespace ProcessedShares

theorem length_of_mem_combined {a b : RowShares} {width : Nat} (ha : a.rowBits = 8 * width)
    (hb : b.rowBits = 8 * width) {row : Bytes}
    (hrow : row ∈ List.zipWith Bytes.xor a.toByteRows b.toByteRows) : row.length = width := by
  obtain ⟨i, hi, rfl⟩ := List.getElem_of_mem hrow
  rw [List.getElem_zipWith, Bytes.length_xor,
    RowShares.width_of_mem_toByteRows ha (List.getElem_mem _),
    RowShares.width_of_mem_toByteRows hb (List.getElem_mem _), Nat.min_self]

theorem extract_ok {publisher partner : RowShares} {n : Nat}
    (hn : 8 * Role.partner.rowWidth n < UInt64.size)
    (hpublisher : publisher.rowBits = 8 * Role.publisher.rowWidth n)
    (hpartner : partner.rowBits = 8 * Role.partner.rowWidth n)
    (hsize : partner.batchSize = publisher.batchSize) :
    extract publisher partner n = .ok (ofShares publisher partner n) := by
  rw [extract_eq publisher partner hn, if_neg (not_not.2 hpublisher), if_neg (not_not.2 hpartner),
    if_neg (not_not.2 hsize)]

/-- Extracting and revealing gives every field of the records in the combined rows, one entry per
row. A matrix has fewer than 2^64 rows. -/
theorem extract_reveal {n : Nat} {publisherA publisherB partnerA partnerB : RowShares}
    (hlt : partnerA.rowBits < UInt64.size)
    (hpublisherA : publisherA.rowBits = 40) (hpublisherB : publisherB.rowBits = 40)
    (hpartnerA : partnerA.rowBits = 8 * (5 + 20 * n))
    (hpartnerB : partnerB.rowBits = 8 * (5 + 20 * n))
    (hsizeB : publisherB.batchSize = publisherA.batchSize)
    (hsizeA' : partnerA.batchSize = publisherA.batchSize)
    (hsizeB' : partnerB.batchSize = publisherA.batchSize) :
    ∃ a b publisher partner,
      extract publisherA partnerA n = .ok a ∧
      extract publisherB partnerB n = .ok b ∧
      (List.zipWith Bytes.xor publisherA.toByteRows publisherB.toByteRows).mapM
        PublisherRow.decode = .ok publisher ∧
      (List.zipWith Bytes.xor partnerA.toByteRows partnerB.toByteRows).mapM
        (PartnerRow.decode · n) = .ok partner ∧
      publisher.length = publisherA.batchSize ∧ partner.length = publisherA.batchSize ∧
      (∀ row ∈ partner, row.conversions.length = n) ∧
      a.reveal b = .ok
        { breakdownIds := publisher.map (·.breakdownId)
          controlPopulation := publisher.map (·.controlPopulation)
          validOpportunity := publisher.map (·.validOpportunity)
          testReach := publisher.map (·.testReach)
          opportunityTimestamps := publisher.map (·.opportunityTimestamp)
          anyPurchase := partner.map (·.anyPurchase)
          cohortGroupIds := partner.map (·.cohortGroupId)
          purchaseTimestamps := (List.range n).map fun slot =>
            partner.map fun row => (row.conversions.getD slot default).purchaseTimestamp
          thresholdTimestamps := (List.range n).map fun slot =>
            partner.map fun row => (row.conversions.getD slot default).thresholdTimestamp
          purchaseValues := (List.range n).map fun slot =>
            partner.map fun row => (row.conversions.getD slot default).purchaseValue
          purchaseValuesSquared := (List.range n).map fun slot =>
            partner.map fun row => (row.conversions.getD slot default).purchaseValueSquared } := by
  have hwidth : Role.partner.rowWidth n = 5 + 20 * n := rfl
  rw [← hwidth] at hpartnerA hpartnerB
  have hn : 8 * Role.partner.rowWidth n < UInt64.size := hpartnerA ▸ hlt
  refine ⟨ofShares publisherA partnerA n, ofShares publisherB partnerB n, _, _,
    extract_ok hn hpublisherA hpartnerA hsizeA',
    extract_ok hn hpublisherB hpartnerB (hsizeB'.trans hsizeB.symm),
    mapM_map_ok fun row hrow => PublisherRow.decode_ok ?_,
    mapM_map_ok fun row hrow => PartnerRow.decode_ok ?_, ?_, ?_, ?_, ?_⟩
  · exact ((length_of_mem_combined hpublisherA hpublisherB hrow).ge : publisherRowWidth ≤ row.length)
  · exact (length_of_mem_combined hpartnerA hpartnerB hrow).ge
  · simp [hsizeB]
  · simp [hsizeA', hsizeB']
  · intro row hrow
    obtain ⟨bytes, -, rfl⟩ := List.mem_map.1 hrow
    simp [PartnerRow.ofBytes]
  · rw [reveal_combined (hpublisherA.trans hpublisherB.symm) (hpartnerA.trans hpartnerB.symm)
      hsizeB.symm hsizeA' (hsizeB'.trans hsizeB.symm) n]
    simp only [LiftColumns.entries, LiftColumns.ofBytes, LiftColumns.ofRows,
      LiftColumns.entries_slotColumns]

/-- One row and one slot. The first share of either party has every bit set. The second share of the
publisher has none of them, that of the partner lacks the bits of the purchase value but the
lowest. -/
theorem extract_reveal_one_row :
    ∃ a b, extract ⟨⟨40, 1, .replicate 96 1⟩⟩ ⟨⟨200, 1, .replicate 416 1⟩⟩ 1 = .ok a ∧
      extract ⟨⟨40, 1, .replicate 96 0⟩⟩
        ⟨⟨200, 1, .replicate 210 1 ++ .replicate 62 0 ++ .replicate 144 1⟩⟩ 1 = .ok b ∧
      (a.reveal b).map (·.breakdownIds) = .ok [true] ∧
      (a.reveal b).map (·.opportunityTimestamps) = .ok [4294967295] ∧
      (a.reveal b).map (·.purchaseTimestamps) = .ok [[0]] ∧
      (a.reveal b).map (·.purchaseValues) = .ok [[-2]] := by
  obtain ⟨a, b, publisher, partner, ha, hb, hpublisher, hpartner, -, -, -, hreveal⟩ :=
    @extract_reveal 1 ⟨⟨40, 1, .replicate 96 1⟩⟩ ⟨⟨40, 1, .replicate 96 0⟩⟩
      ⟨⟨200, 1, .replicate 416 1⟩⟩
      ⟨⟨200, 1, .replicate 210 1 ++ .replicate 62 0 ++ .replicate 144 1⟩⟩ (by decide) rfl rfl rfl
      rfl rfl rfl rfl
  have hpublisherRows : (List.zipWith Bytes.xor (RowShares.toByteRows ⟨⟨40, 1, .replicate 96 1⟩⟩)
      (RowShares.toByteRows ⟨⟨40, 1, .replicate 96 0⟩⟩)).mapM PublisherRow.decode =
        .ok [⟨true, true, true, true, 4294967295⟩] := by
    decide +kernel
  have hpartnerRows : (List.zipWith Bytes.xor (RowShares.toByteRows ⟨⟨200, 1, .replicate 416 1⟩⟩)
      (RowShares.toByteRows
        ⟨⟨200, 1, .replicate 210 1 ++ .replicate 62 0 ++ .replicate 144 1⟩⟩)).mapM
          (PartnerRow.decode · 1) = .ok [⟨false, 0, [⟨0, 0, -2, 0⟩]⟩] := by
    decide +kernel
  obtain rfl := Except.ok.inj (hpublisher.symm.trans hpublisherRows)
  obtain rfl := Except.ok.inj (hpartner.symm.trans hpartnerRows)
  refine ⟨a, b, ha, hb, ?_, ?_, ?_, ?_⟩ <;> rw [hreveal] <;> rfl

end ProcessedShares

end PrivateLift
