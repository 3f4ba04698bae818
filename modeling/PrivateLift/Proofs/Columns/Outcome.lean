import PrivateLift.Proofs.Columns

/-!
# What revealing keeps

Shares of one shape reveal columns of this shape, and for them it does not matter which party
reveals. Shares of different shapes should fault, and they do where rows are missing from a column.
Conversion columns that only one party has are left out instead: `reveal_outcome` gives the result
for any two shares, and says that it has the shape of both shares exactly if they have one shape.
-/

namespace PrivateLift.ProcessedShares

open LiftColumns

/-- Either party may be named first. -/
theorem combined_comm (p q : LiftColumns ShareColumn) : combined p q = combined q p := by
  have single : ∀ {α : Type} {combine : α → α → α}, (∀ x y, combine x y = combine y x) →
      ∀ x y : ShareColumn α,
        List.zipWith combine x.entries y.entries = List.zipWith combine y.entries x.entries :=
    fun hcomm x y => List.zipWith_comm_of_comm hcomm
  have slots : ∀ {α : Type} {combine : α → α → α}, (∀ x y, combine x y = combine y x) →
      ∀ xs ys : List (ShareColumn α),
        List.zipWith (fun x y => List.zipWith combine x.entries y.entries) xs ys =
          List.zipWith (fun x y => List.zipWith combine x.entries y.entries) ys xs :=
    fun hcomm xs ys => List.zipWith_comm_of_comm (single hcomm)
  rw [combined, combined, LiftColumns.mk.injEq]
  exact ⟨single Bool.xor_comm _ _, single Bool.xor_comm _ _, single Bool.xor_comm _ _,
    single Bool.xor_comm _ _, single UInt32.xor_comm _ _, single Bool.xor_comm _ _,
    single UInt32.xor_comm _ _, slots UInt32.xor_comm _ _, slots UInt32.xor_comm _ _,
    slots Int32.xor_comm _ _, slots Int64.xor_comm _ _⟩

theorem reveal_comm (a b : ProcessedShares) : a.reveal b = b.reveal a := by
  rw [reveal_eq, reveal_eq, combined_comm]
  simp only [eq_comm, ne_eq]

/-- Columns of one shape combine to columns of this shape. -/
theorem shape_combined {p q : LiftColumns ShareColumn}
    (h : p.shape ShareColumn.length = q.shape ShareColumn.length) :
    (combined p q).shape List.length = p.shape ShareColumn.length := by
  have single : ∀ {α : Type} (combine : α → α → α) {x y : ShareColumn α}, x.length = y.length →
      (List.zipWith combine x.entries y.entries).length = x.length := by
    intro α combine x y hxy
    rw [List.length_zipWith]
    exact Nat.min_eq_left hxy.le
  have slots : ∀ {α : Type} (combine : α → α → α) {xs ys : List (ShareColumn α)},
      xs.map ShareColumn.length = ys.map ShareColumn.length →
      (List.zipWith (fun x y => List.zipWith combine x.entries y.entries) xs ys).map List.length =
        xs.map ShareColumn.length := by
    intro α combine xs
    induction xs with
    | nil => intro ys _; rfl
    | cons x xs ih =>
      intro ys hxy
      cases ys with
      | nil => cases hxy
      | cons y ys =>
        obtain ⟨hhead, htail⟩ := List.cons.inj hxy
        simp only [List.zipWith_cons_cons, List.map_cons, single combine hhead, ih htail]
  simp only [shape, LiftColumns.mk.injEq] at h
  obtain ⟨h₁, h₂, h₃, h₄, h₅, h₆, h₇, h₈, h₉, h₁₀, h₁₁⟩ := h
  simp only [shape, combined, single _ h₁, single _ h₂, single _ h₃, single _ h₄, single _ h₅,
    single _ h₆, single _ h₇, slots _ h₈, slots _ h₉, slots _ h₁₀, slots _ h₁₁]

theorem rowCount_eq_of_reveal {a b : ProcessedShares} {r : RevealedColumns}
    (h : a.reveal b = .ok r) : a.rowCount = b.rowCount := by
  by_contra hne
  rw [reveal_eq, if_pos hne] at h
  cases h

/-- Revealing keeps everything exactly if the shares have one shape. -/
theorem sameShape_iff_kept {a b : ProcessedShares} :
    SameShape a b ↔ ∃ r, a.reveal b = .ok r ∧
      r.shape List.length = a.columns.shape ShareColumn.length ∧
      r.shape List.length = b.columns.shape ShareColumn.length := by
  constructor
  · intro h
    exact ⟨_, h.reveal_eq_ok, shape_combined h.2, (shape_combined h.2).trans h.2⟩
  · rintro ⟨r, hr, hleft, hright⟩
    exact ⟨rowCount_eq_of_reveal hr, hleft.symm.trans hright⟩

/-- Shares that can be revealed have one shape unless a conversion field is cut. -/
theorem sameShape_iff_uncut {a b : ProcessedShares} :
    SameShape a b ↔ (∃ r, a.reveal b = .ok r) ∧
      a.columns.cutTo b.columns = a.columns ∧ b.columns.cutTo a.columns = b.columns := by
  constructor
  · intro h
    exact ⟨⟨_, h.reveal_eq_ok⟩, cutTo_of_shape_eq h.2, cutTo_of_shape_eq h.2.symm⟩
  · rintro ⟨⟨r, hr⟩, hleft, hright⟩
    have hcount := rowCount_eq_of_reveal hr
    refine ⟨hcount, ?_⟩
    by_contra hne
    rw [reveal_eq, if_neg (not_not.2 hcount), hleft, hright, if_neg hne] at hr
    cases hr

/-- Which shares can be revealed, and what is revealed. Nothing is lost exactly if the shares have
one shape, that is, if they can be revealed and no conversion field is cut. -/
theorem reveal_outcome (a b : ProcessedShares) :
    a.reveal b =
      (if a.rowCount ≠ b.rowCount then .error .rowCountsDiffer
      else if (a.columns.cutTo b.columns).shape ShareColumn.length =
          (b.columns.cutTo a.columns).shape ShareColumn.length
        then .ok (combined a.columns b.columns)
        else .error .shareLengthsDiffer) ∧
    a.reveal b = b.reveal a ∧
    (SameShape a b ↔ ∃ r, a.reveal b = .ok r ∧
      r.shape List.length = a.columns.shape ShareColumn.length ∧
      r.shape List.length = b.columns.shape ShareColumn.length) ∧
    (SameShape a b ↔ (∃ r, a.reveal b = .ok r) ∧
      a.columns.cutTo b.columns = a.columns ∧ b.columns.cutTo a.columns = b.columns) :=
  ⟨reveal_eq a b, reveal_comm a b, sameShape_iff_kept, sameShape_iff_uncut⟩

/-- The shares of a party that keeps one conversion slot and of a party that keeps none are
revealed, without any conversion. -/
theorem reveal_drops_conversions :
    let a : ProcessedShares := ⟨1, ofRows [{}] [⟨true, 7, [⟨5, 15, 3, 9⟩]⟩] [[⟨5, 15, 3, 9⟩]]⟩
    let b : ProcessedShares := ⟨1, ofRows [{}] [{}] []⟩
    ¬SameShape a b ∧ ∃ r, a.reveal b = .ok r ∧ r.purchaseTimestamps = [] ∧ r.purchaseValues = [] := by
  intro a b
  have hdiffer : ¬SameShape a b := fun h => absurd h.2 (by decide)
  exact ⟨hdiffer, combined a.columns b.columns, rfl, rfl, rfl⟩

end PrivateLift.ProcessedShares
