import Mathlib.Data.List.GetD
import Mathlib.Tactic.MkIffOfInductiveProp
import PrivateLift.Input
import PrivateLift.Proofs.Fault

/-!
# The shape that validation enforces

Validation is a chain of checks, and `PartnerInput.validate_eq_ok_iff` puts together what each of
them accepts. A purchase column is compared with the purchase timestamps row by row as far as the
purchase column goes (`Follows`). The documented shape asks for agreement in every row of the union
(`Shaped`). `LocalInput.partner_accepted_iff` says how far the two are apart: a purchase column may
end while there are timestamps left, and nothing else is let through.
-/

namespace PrivateLift

theorem Column.checkLength_eq_ok_iff {column : Column} {length unionSize : Nat} :
    column.checkLength length unionSize = .ok () ↔ length ≤ unionSize := by
  rw [checkLength]
  split
  · next hlong => simpa using hlong
  · next hshort => simpa using hshort

namespace PartnerInput

variable {values : List (List Int64)} {timestamps : List (List UInt32)} {limit : Nat}

/-- Every list of a purchase column is as long as the timestamps of its row. Rows that the column
does not have are not compared. -/
def Follows (values : List (List Int64)) (timestamps : List (List UInt32)) : Prop :=
  ∀ row < values.length, (values.getD row []).length = (timestamps.getD row []).length

/-- No column is longer than the union, and no user has more purchases than allowed. -/
@[mk_iff]
structure Bounded (p : PartnerInput) (limit : Nat) : Prop where
  cohortGroupIds : p.cohortGroupIds.length ≤ p.dummyRows.length
  purchaseTimestamps : p.purchaseTimestamps.length ≤ p.dummyRows.length
  purchaseValues : p.purchaseValues.length ≤ p.dummyRows.length
  purchaseValuesSquared : p.purchaseValuesSquared.length ≤ p.dummyRows.length
  purchases : ∀ list ∈ p.purchaseTimestamps, list.length ≤ limit

/-- The documented shape: in addition the three conversion columns agree on the number of purchases
of every user of the union, a row that a column does not have counting as the empty list. -/
structure Shaped (p : PartnerInput) (limit : Nat) : Prop extends p.Bounded limit where
  values_agree : ∀ row < p.dummyRows.length,
    (p.purchaseValues.getD row []).length = (p.purchaseTimestamps.getD row []).length
  squares_agree : ∀ row < p.dummyRows.length,
    (p.purchaseValuesSquared.getD row []).length = (p.purchaseTimestamps.getD row []).length

/-! ## What each check accepts -/

theorem checkConversionCounts_eq_ok_iff :
    checkConversionCounts timestamps limit = .ok () ↔ ∀ list ∈ timestamps, list.length ≤ limit := by
  rw [checkConversionCounts]
  split
  · next list row hfind =>
    have hget := List.mem_zipIdx_iff_getElem?.1 (List.mem_of_find?_eq_some hfind)
    have hlong : list.length > limit := by simpa using List.find?_some hfind
    have hsome : ¬∀ list ∈ timestamps, list.length ≤ limit := fun hall =>
      absurd (hall list (List.mem_of_getElem? hget)) (Nat.not_le.2 hlong)
    simp [hsome]
  · next hfind =>
    refine ⟨fun _ list hlist => ?_, fun _ => rfl⟩
    obtain ⟨row, hrow⟩ := List.getElem?_of_mem hlist
    have hshort := List.find?_eq_none.1 hfind (list, row) (List.mem_zipIdx_iff_getElem?.2 hrow)
    simpa using hshort

theorem checkConversionShape_eq_ok_iff {column : Column} :
    checkConversionShape column values timestamps = .ok () ↔ Follows values timestamps := by
  rw [checkConversionShape]
  split
  · next list row hfind =>
    have hget := List.mem_zipIdx_iff_getElem?.1 (List.mem_of_find?_eq_some hfind)
    have hdiffer : list.length ≠ (timestamps.getD row []).length := by
      simpa using List.find?_some hfind
    obtain ⟨hrow, hlist⟩ := List.getElem?_eq_some_iff.1 hget
    have hnot : ¬Follows values timestamps := by
      intro hfollows
      have hequal := hfollows row hrow
      rw [List.getD_eq_getElem _ _ hrow, hlist] at hequal
      exact hdiffer hequal
    simp [hnot]
  · next hfind =>
    refine ⟨fun _ row hrow => ?_, fun _ => rfl⟩
    have hequal := List.find?_eq_none.1 hfind (values[row], row)
      (List.mem_zipIdx_iff_getElem?.2 (List.getElem?_eq_getElem hrow))
    rw [List.getD_eq_getElem _ _ hrow]
    simpa using hequal

/-- Validation accepts what every check accepts. -/
theorem validate_eq_ok_iff (p : PartnerInput) (limit : Nat) :
    p.validate limit = .ok () ↔ p.Bounded limit ∧ Follows p.purchaseValues p.purchaseTimestamps ∧
      Follows p.purchaseValuesSquared p.purchaseTimestamps := by
  simp only [validate, check_bind_eq_ok, Column.checkLength_eq_ok_iff,
    checkConversionCounts_eq_ok_iff, checkConversionShape_eq_ok_iff, bounded_iff, and_assoc]

/-! ## How far this is from the documented shape -/

/-- A purchase column agrees with the timestamps in every row of the union if it follows them and
there are no timestamps behind its end. -/
theorem agree_iff {unionSize : Nat} (hvalues : values.length ≤ unionSize)
    (htimestamps : timestamps.length ≤ unionSize) :
    (∀ row < unionSize, (values.getD row []).length = (timestamps.getD row []).length) ↔
      Follows values timestamps ∧ ∀ row, values.length ≤ row → timestamps.getD row [] = [] := by
  constructor
  · intro hagree
    refine ⟨fun row hrow => hagree row (Nat.lt_of_lt_of_le hrow hvalues), fun row hrow => ?_⟩
    by_cases hunion : row < unionSize
    · have hlength := hagree row hunion
      rw [List.getD_eq_default _ _ hrow] at hlength
      exact List.eq_nil_of_length_eq_zero hlength.symm
    · exact List.getD_eq_default _ _ (Nat.le_trans htimestamps (Nat.not_lt.1 hunion))
  · rintro ⟨hfollows, hend⟩ row -
    by_cases hrow : row < values.length
    · exact hfollows row hrow
    · rw [List.getD_eq_default _ _ (Nat.not_lt.1 hrow), hend row (Nat.not_lt.1 hrow)]
      rfl

theorem shaped_iff (p : PartnerInput) (limit : Nat) :
    p.Shaped limit ↔ p.validate limit = .ok () ∧
      ∀ row, p.purchaseValues.length ≤ row ∨ p.purchaseValuesSquared.length ≤ row →
        p.purchaseTimestamps.getD row [] = [] := by
  rw [validate_eq_ok_iff]
  constructor
  · rintro ⟨hbounded, hvalues, hsquares⟩
    obtain ⟨hfollow, hend⟩ :=
      (agree_iff hbounded.purchaseValues hbounded.purchaseTimestamps).1 hvalues
    obtain ⟨hfollow', hend'⟩ :=
      (agree_iff hbounded.purchaseValuesSquared hbounded.purchaseTimestamps).1 hsquares
    exact ⟨⟨hbounded, hfollow, hfollow'⟩, fun row hrow => hrow.elim (hend row) (hend' row)⟩
  · rintro ⟨⟨hbounded, hfollow, hfollow'⟩, hend⟩
    refine ⟨hbounded, ?_, ?_⟩
    · exact (agree_iff hbounded.purchaseValues hbounded.purchaseTimestamps).2
        ⟨hfollow, fun row hrow => hend row (.inl hrow)⟩
    · exact (agree_iff hbounded.purchaseValuesSquared hbounded.purchaseTimestamps).2
        ⟨hfollow', fun row hrow => hend row (.inr hrow)⟩

end PartnerInput

namespace LocalInput

open PartnerInput

theorem validate_partner_eq_ok_iff (p : PartnerInput) (c : Config) :
    (partner p).validate c = .ok () ↔
      c.role = .partner ∧ p.validate c.conversionsPerUser = .ok () := by
  rw [validate]
  split
  · next hrole =>
    have hother : c.role ≠ .partner := fun h => hrole h.symm
    simp [hother]
  · next hrole =>
    have hpartner : c.role = .partner := (not_not.1 hrole).symm
    simp [hpartner]

/-- Which purchase data is accepted for a configuration, and when this is the documented shape: the
purchase columns must not end before the purchase timestamps do. -/
theorem partner_accepted_iff (p : PartnerInput) (c : Config) :
    ((partner p).validate c = .ok () ↔
      c.role = .partner ∧ p.Bounded c.conversionsPerUser ∧
        Follows p.purchaseValues p.purchaseTimestamps ∧
        Follows p.purchaseValuesSquared p.purchaseTimestamps) ∧
    (c.role = .partner ∧ p.Shaped c.conversionsPerUser ↔
      (partner p).validate c = .ok () ∧
        ∀ row, p.purchaseValues.length ≤ row ∨ p.purchaseValuesSquared.length ≤ row →
          p.purchaseTimestamps.getD row [] = []) := by
  constructor
  · rw [validate_partner_eq_ok_iff, validate_eq_ok_iff]
  · rw [validate_partner_eq_ok_iff, shaped_iff, and_assoc]

/-- A purchase without a value is accepted, although the columns disagree on the number of purchases
of the user. -/
theorem partner_accepted_without_values :
    let p : PartnerInput := { purchaseTimestamps := [[5]], dummyRows := [false] }
    (partner p).validate ⟨.partner, 1, 10⟩ = .ok () ∧ ¬p.Shaped 1 := by
  refine ⟨rfl, fun h => ?_⟩
  exact absurd (h.values_agree 0 (by decide)) (by decide)

end LocalInput

end PrivateLift
