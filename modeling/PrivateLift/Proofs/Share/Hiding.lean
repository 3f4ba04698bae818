import PrivateLift.Proofs.BitMatrix.Drawn
import PrivateLift.Proofs.Fault
import PrivateLift.Proofs.Share

/-!
# What one share tells

`share_hides`: the mask depends on the shape of a batch and on the words only, and for a given batch
masks and second shares correspond one to one. Every matrix of the shape occurs as the mask and, for
every batch, as the second share, so that either share alone agrees with every batch of the shape.
-/

namespace PrivateLift.RowShares

open BitMatrix

/-- A batch of `size` rows that have at least `width` bytes each. -/
structure Batch (size width : Nat) (rows : List Bytes) : Prop where
  length_eq : rows.length = size
  width_le : ∀ row ∈ rows, width ≤ row.length

/-- A well-formed matrix with a column for each of `size` rows of `width` bytes, small enough to be
stored. -/
structure OfShape (size width : Nat) (shares : RowShares) : Prop where
  storable : Storable size (8 * width)
  wellFormed : shares.bits.WellFormed
  rowBits_eq : shares.rowBits = 8 * width
  batchSize_eq : shares.batchSize = size

/-- The bits of a batch, one column per row. -/
def plain (rows : List Bytes) (width : Nat) : BitMatrix := (ofRows (8 * width) rows).transpose

variable {size width : Nat} {rows : List Bytes}

theorem Batch.ofShape_plain (h : Batch size width rows) (hs : Storable size (8 * width)) :
    OfShape size width ⟨plain rows width⟩ :=
  ⟨hs, wellFormed_transpose (wellFormed_ofRows _ _), rfl, h.length_eq⟩

/-- A batch is shared by drawing the mask for its shape and masking its bits. -/
theorem Batch.share_eq_ok_iff (h : Batch size width rows) (hs : Storable size (8 * width))
    {s rest : WordStream} {a b : RowShares} :
    share rows width s = .ok (a, b, rest) ↔
      random (8 * width) size s = .ok (a.bits, rest) ∧
        (plain rows width).xor a.bits = .ok b.bits := by
  rw [← h.length_eq] at hs
  have hcols : (plain rows width).cols = size := h.length_eq
  rw [share, ofByteRows_ok hs h.width_le, ← hcols]
  -- The number of rows is taken from the transposed matrix.
  change (do
    let drawn ← random (8 * width) (plain rows width).cols s
    let masked ← (plain rows width).xor drawn.1
    return (⟨drawn.1⟩, ⟨masked⟩, drawn.2)) = Except.ok (a, b, rest) ↔ _
  constructor
  · intro hshare
    obtain ⟨⟨mask, s'⟩, hmask, hrest⟩ := bind_eq_ok.1 hshare
    obtain ⟨masked, hmasked, hdone⟩ := bind_eq_ok.1 hrest
    cases hdone
    exact ⟨hmask, hmasked⟩
  · rintro ⟨hmask, hmasked⟩
    exact bind_eq_ok.2 ⟨_, hmask, bind_eq_ok.2 ⟨_, hmasked, rfl⟩⟩

theorem Batch.masked_comm (h : Batch size width rows) {a b : RowShares}
    (ha : OfShape size width a) (hb : OfShape size width b) :
    (plain rows width).xor a.bits = .ok b.bits ↔ (plain rows width).xor b.bits = .ok a.bits := by
  have hp := h.ofShape_plain ha.storable
  exact xor_eq_ok_comm hp.wellFormed ha.wellFormed hb.wellFormed
    (hp.rowBits_eq.trans ha.rowBits_eq.symm) (hp.batchSize_eq.trans ha.batchSize_eq.symm)
    (hp.rowBits_eq.trans hb.rowBits_eq.symm) (hp.batchSize_eq.trans hb.batchSize_eq.symm)

/-- The share that makes up a batch together with a given one. -/
theorem Batch.exists_other (h : Batch size width rows) {a : RowShares}
    (ha : OfShape size width a) :
    ∃ b, OfShape size width b ∧ (plain rows width).xor a.bits = .ok b.bits := by
  have hp := h.ofShape_plain ha.storable
  obtain ⟨b, hb, wf, hrows, hcols, -⟩ := xor_ok hp.wellFormed ha.wellFormed
    (hp.rowBits_eq.trans ha.rowBits_eq.symm) (hp.batchSize_eq.trans ha.batchSize_eq.symm)
  exact ⟨⟨b⟩, ⟨ha.storable, wf, hrows.trans hp.rowBits_eq, hcols.trans hp.batchSize_eq⟩, hb⟩

theorem Batch.ofShape_of_share (h : Batch size width rows) {s rest : WordStream} {a b : RowShares}
    (hshare : share rows width s = .ok (a, b, rest)) :
    OfShape size width a ∧ OfShape size width b := by
  obtain ⟨hs, hsplits⟩ := share_inv hshare
  rw [h.length_eq] at hs
  exact ⟨⟨hs, hsplits.wellFormed_left, hsplits.rowBits_left,
      hsplits.batchSize_left.trans h.length_eq⟩,
    ⟨hs, hsplits.wellFormed_right, hsplits.rowBits_right,
      hsplits.batchSize_right.trans h.length_eq⟩⟩

/-- The mask and what is left of the stream are the same for all batches of a shape. -/
theorem exists_mask (hs : Storable size (8 * width)) (s : WordStream) :
    ∃ mask rest, OfShape size width mask ∧ ∀ rows, Batch size width rows →
      ∃ masked, share rows width s = .ok (mask, masked, rest) := by
  obtain ⟨mask, rest, hmask, wf, hrows, hcols⟩ := random_ok (storable_comm hs) s
  have hshape : OfShape size width ⟨mask⟩ := ⟨hs, wf, hrows, hcols⟩
  refine ⟨⟨mask⟩, rest, hshape, ?_⟩
  intro rows hbatch
  obtain ⟨masked, -, hmasked⟩ := hbatch.exists_other hshape
  exact ⟨masked, (hbatch.share_eq_ok_iff hs).2 ⟨hmask, hmasked⟩⟩

/-- Some words give a mask, for all batches of a shape alike. -/
theorem exists_stream {mask : RowShares} (hmask : OfShape size width mask) :
    ∃ s rest, ∀ rows, Batch size width rows →
      ∃ masked, share rows width s = .ok (mask, masked, rest) := by
  have hrows : mask.bits.rows = 8 * width := hmask.rowBits_eq
  have hcols : mask.bits.cols = size := hmask.batchSize_eq
  obtain ⟨s, rest, hrandom⟩ := random_spelling hmask.wellFormed
    (by rw [hrows, hcols]; exact storable_comm hmask.storable)
  rw [hrows, hcols] at hrandom
  refine ⟨s, rest, ?_⟩
  intro rows hbatch
  obtain ⟨masked, -, hmasked⟩ := hbatch.exists_other hmask
  exact ⟨masked, (hbatch.share_eq_ok_iff hmask.storable).2 ⟨hrandom, hmasked⟩⟩

/-- For one batch, a second share belongs to one mask only. -/
theorem Batch.exists_unique_mask (h : Batch size width rows) {masked : RowShares}
    (hmasked : OfShape size width masked) :
    ∃! mask, OfShape size width mask ∧ ∀ s mask' masked' rest,
      share rows width s = .ok (mask', masked', rest) → (masked' = masked ↔ mask' = mask) := by
  obtain ⟨mask, hmask, hxor⟩ := h.exists_other hmasked
  have hiff : ∀ s mask' masked' rest, share rows width s = .ok (mask', masked', rest) →
      (masked' = masked ↔ mask' = mask) := by
    intro s mask' masked' rest hshare
    obtain ⟨hmask', hmasked'⟩ := h.ofShape_of_share hshare
    have hxor' := ((h.share_eq_ok_iff hmasked.storable).1 hshare).2
    constructor
    · rintro rfl
      rw [h.masked_comm hmask' hmasked', hxor] at hxor'
      exact congrArg RowShares.mk (Except.ok.inj hxor').symm
    · rintro rfl
      rw [(h.masked_comm hmasked hmask').1 hxor] at hxor'
      exact congrArg RowShares.mk (Except.ok.inj hxor').symm
  refine ⟨mask, ⟨hmask, hiff⟩, ?_⟩
  -- Another such mask is drawn from some words, and the second share then is the given one.
  rintro mask' ⟨hmask', hiff'⟩
  obtain ⟨s, rest, hshare⟩ := exists_stream hmask'
  obtain ⟨masked', hshare⟩ := hshare rows h
  exact (hiff s mask' masked' rest hshare).1 ((hiff' s mask' masked' rest hshare).2 rfl)

/-- The second share alone agrees with every batch too. -/
theorem Batch.exists_masked (h : Batch size width rows) {masked : RowShares}
    (hmasked : OfShape size width masked) :
    ∃ s mask rest, share rows width s = .ok (mask, masked, rest) := by
  obtain ⟨mask, ⟨hmask, hiff⟩, -⟩ := h.exists_unique_mask hmasked
  obtain ⟨s, rest, hshare⟩ := exists_stream hmask
  obtain ⟨masked', hshare⟩ := hshare rows h
  obtain rfl := (hiff s mask masked' rest hshare).2 rfl
  exact ⟨s, mask, rest, hshare⟩

/-- The mask does not depend on the batch, a second share has exactly one mask for each batch, and
both shares take every value of the shape whatever the batch is. No batch of a shape that cannot be
stored is shared. -/
theorem share_hides (size width : Nat) :
    (∀ s, if Storable size (8 * width) then
        ∃ mask rest, OfShape size width mask ∧ ∀ rows, Batch size width rows →
          ∃ masked, share rows width s = .ok (mask, masked, rest)
      else ∀ rows, Batch size width rows → share rows width s = .error .sizeOverflow) ∧
    (∀ rows, Batch size width rows → ∀ masked, OfShape size width masked →
      ∃! mask, OfShape size width mask ∧ ∀ s mask' masked' rest,
        share rows width s = .ok (mask', masked', rest) → (masked' = masked ↔ mask' = mask)) ∧
    (∀ mask, OfShape size width mask → ∃ s rest, ∀ rows, Batch size width rows →
      ∃ masked, share rows width s = .ok (mask, masked, rest)) ∧
    ∀ masked, OfShape size width masked → ∀ rows, Batch size width rows →
      ∃ s mask rest, share rows width s = .ok (mask, masked, rest) := by
  refine ⟨fun s => ?_, fun rows hbatch masked => hbatch.exists_unique_mask,
    fun mask => exists_stream, fun masked hmasked rows hbatch => hbatch.exists_masked hmasked⟩
  split
  next hs => exact exists_mask hs s
  next hs =>
    intro rows hbatch
    rw [← hbatch.length_eq] at hs
    exact share_error hs s

/-- Two batches of two rows of one byte under the same words, and words for either of them that
leave the second share blank. -/
theorem share_hides_two_rows :
    Storable 2 (8 * 1) ∧
      (∃ mask masked masked' rest,
        share [[1], [2]] 1 (.cyclic #[7, 11]) = .ok (mask, masked, rest) ∧
        share [[255], [128, 64]] 1 (.cyclic #[7, 11]) = .ok (mask, masked', rest)) ∧
      (∃ s mask rest, share [[1], [2]] 1 s = .ok (mask, ⟨⟨8, 2, .replicate 32 0⟩⟩, rest)) ∧
      ∃ s mask rest, share [[255], [128, 64]] 1 s = .ok (mask, ⟨⟨8, 2, .replicate 32 0⟩⟩, rest) := by
  have hs : Storable 2 (8 * 1) := by decide
  have hbatch : Batch 2 1 [[1], [2]] := ⟨rfl, by decide⟩
  have hbatch' : Batch 2 1 [[255], [128, 64]] := ⟨rfl, by decide⟩
  have hblank : OfShape 2 1 ⟨⟨8, 2, .replicate 32 0⟩⟩ := by
    refine ⟨hs, ⟨rfl, ?_⟩, rfl, rfl⟩
    intro r _ c _ _
    rw [bit_eq, Bytes.bit_replicate_zero]
  obtain ⟨hmask, -, -, hmasked⟩ := share_hides 2 1
  have hcyclic := hmask (.cyclic #[7, 11])
  rw [if_pos hs] at hcyclic
  obtain ⟨mask, rest, -, hshare⟩ := hcyclic
  obtain ⟨masked, h⟩ := hshare _ hbatch
  obtain ⟨masked', h'⟩ := hshare _ hbatch'
  exact ⟨hs, ⟨mask, masked, masked', rest, h, h'⟩, hmasked _ hblank _ hbatch,
    hmasked _ hblank _ hbatch'⟩

end PrivateLift.RowShares
