import PrivateLift.Proofs.BitMatrix.Transpose
import PrivateLift.Proofs.Row.Field
import PrivateLift.Proofs.Wire.Exact

/-!
# Matrices are their cells

A matrix is *built* if operations of this library made it: from nothing, from bytes that were given,
drawn or received, or from other built matrices. Every operation keeps the padding unset, so built
matrices are well-formed (`Built.wellFormed`), and nothing about a well-formed matrix but its
dimensions and cells can be observed: equality, assignment of a cell and exclusive or are what they
are cell by cell (`eq_iff_get`, `set_ok`, `get_xor`). `built_cellwise` puts this together.
-/

namespace PrivateLift.BitMatrix

/-! ## Cells -/

theorem get_eq_bit {m : BitMatrix} {r c : Nat} (hr : r < m.rows) (hc : c < m.cols) :
    m.get r c = .ok (m.bit r c) := by
  rw [get, if_neg (by omega), if_neg (by omega)]

theorem eq_iff_get {a b : BitMatrix} (ha : a.WellFormed) (hb : b.WellFormed) :
    a = b ↔ a.rows = b.rows ∧ a.cols = b.cols ∧
      ∀ r < a.rows, ∀ c < a.cols, a.get r c = b.get r c := by
  constructor
  · rintro rfl
    exact ⟨rfl, rfl, fun _ _ _ _ => rfl⟩
  · rintro ⟨hrows, hcols, hget⟩
    refine ext_bit ha.length_data hb.length_data hrows hcols fun r hr c hc => ?_
    by_cases hinside : r < a.rows ∧ c < a.cols
    · have hcell := hget r hinside.1 c hinside.2
      rw [get_eq_bit hinside.1 hinside.2,
        get_eq_bit (hrows ▸ hinside.1) (hcols ▸ hinside.2)] at hcell
      exact Except.ok.inj hcell
    · rw [ha.bit_outside r hr c hc (by omega),
        hb.bit_outside r (hrows ▸ hr) c (hcols ▸ hc) (by omega)]

/-! ## Assignment of a cell -/

/-- Two positions of a row-major layout are equal only if row and column are. -/
theorem position_inj {width r c i j : Nat} (hc : c < width) (hj : j < width)
    (h : width * i + j = width * r + c) : i = r ∧ j = c := by
  have hpos : 0 < width := by omega
  have hdiv := congrArg (· / width) h
  simp only [Nat.mul_add_div hpos, Nat.div_eq_of_lt hc, Nat.div_eq_of_lt hj, Nat.add_zero] at hdiv
  subst hdiv
  exact ⟨rfl, Nat.add_left_cancel h⟩

theorem bit_set {m : BitMatrix} (hm : m.WellFormed) {r c : Nat} (hr : r < m.rows) (hc : c < m.cols)
    (on : Bool) :
    ∃ m', m.set r c on = .ok m' ∧ m'.rows = m.rows ∧ m'.cols = m.cols ∧
      m'.data.length = m.data.length ∧
      ∀ i j, j < padded m.cols → m'.bit i j = if i = r ∧ j = c then on else m.bit i j := by
  have hstride := eight_mul_strideOf m.cols
  have hwide : c < padded m.cols := Nat.lt_of_lt_of_le hc (le_padded _)
  -- The cell is one bit of the storage.
  have hposition : ∀ i j, 8 * (i * m.stride) + j = padded m.cols * i + j := by
    intro i j
    rw [stride, ← hstride, Nat.mul_comm i, Nat.mul_assoc]
  have hbyte : (8 * (r * m.stride) + c) / 8 < m.data.length := by
    have hend := rowEnd_le m.cols hr
    rw [usedBytes] at hend
    rw [hm.length_data, stride]
    omega
  have hdiv : r * m.stride + c / 8 = (8 * (r * m.stride) + c) / 8 := by omega
  have hmod : c % 8 = (8 * (r * m.stride) + c) % 8 := by omega
  refine ⟨{ m with data := m.data.modify (r * m.stride + c / 8) (Field.putBit · (c % 8) on) },
    if_pos ⟨hr, hc⟩, rfl, rfl, List.length_modify _ _ _, fun i j hj => ?_⟩
  rw [bit_eq, bit_eq, hdiv, hmod]
  change Bytes.bit (m.data.modify _ _) (8 * (i * m.stride) + j) = _
  rw [Field.bit_modify_putBit _ hbyte, hposition, hposition]
  by_cases hcell : i = r ∧ j = c
  · rw [if_pos hcell, if_pos (by rw [hcell.1, hcell.2])]
  · rw [if_neg hcell, if_neg fun h => hcell (position_inj hwide hj h)]

/-- A cell of the matrix can be set, and no other cell changes. -/
theorem set_ok {m : BitMatrix} (hm : m.WellFormed) {r c : Nat} (hr : r < m.rows) (hc : c < m.cols)
    (on : Bool) :
    ∃ m', m.set r c on = .ok m' ∧ m'.WellFormed ∧ m'.rows = m.rows ∧ m'.cols = m.cols ∧
      ∀ i j, m'.get i j = if i = r ∧ j = c then .ok on else m.get i j := by
  obtain ⟨m', hset, hrows, hcols, hlen, hbit⟩ := bit_set hm hr hc on
  refine ⟨m', hset, ⟨?_, ?_⟩, hrows, hcols, fun i j => ?_⟩
  · rw [hlen, hm.length_data, hrows, hcols]
  · intro i hi j hj houtside
    rw [hrows] at hi houtside
    rw [hcols] at hj houtside
    rw [hbit i j hj, if_neg (by omega), hm.bit_outside i hi j hj houtside]
  · by_cases hcell : i = r ∧ j = c
    · obtain ⟨rfl, rfl⟩ := hcell
      rw [if_pos ⟨rfl, rfl⟩, get_eq_bit (hrows ▸ hr) (hcols ▸ hc),
        hbit i j (Nat.lt_of_lt_of_le hc (le_padded _)), if_pos ⟨rfl, rfl⟩]
    · rw [if_neg hcell]
      simp only [get, hrows, hcols]
      split
      · rfl
      split
      · rfl
      · rw [hbit i j (Nat.lt_of_lt_of_le (by omega) (le_padded _)), if_neg hcell]

theorem set_inv {m m' : BitMatrix} {r c : Nat} {on : Bool} (h : m.set r c on = .ok m') :
    r < m.rows ∧ c < m.cols := by
  rw [set] at h
  split at h
  · assumption
  · cases h

/-! ## Exclusive or -/

theorem xor_inv {a b m : BitMatrix} (h : a.xor b = .ok m) : a.rows = b.rows ∧ a.cols = b.cols := by
  rw [xor] at h
  split at h
  · assumption
  · cases h

/-- Matrices of the same dimensions are combined cell by cell. -/
theorem get_xor {a b : BitMatrix} (ha : a.WellFormed) (hb : b.WellFormed) (hrows : a.rows = b.rows)
    (hcols : a.cols = b.cols) :
    ∃ m, a.xor b = .ok m ∧ m.WellFormed ∧ m.rows = a.rows ∧ m.cols = a.cols ∧
      ∀ r c, m.get r c = do return (← a.get r c) ^^ (← b.get r c) := by
  obtain ⟨m, hxor, hm, hrows', hcols', hbit⟩ := xor_ok ha hb hrows hcols
  refine ⟨m, hxor, hm, hrows', hcols', fun r c => ?_⟩
  simp only [get, hrows', hcols', ← hrows, ← hcols, hbit]
  split
  · rfl
  split
  · rfl
  · rfl

/-! ## Built matrices -/

/-- The matrices that the operations of this library make when they succeed. -/
inductive Built : BitMatrix → Prop where
  | zeros {rows cols : Nat} {m : BitMatrix} (h : zeros rows cols = .ok m) : Built m
  | ofByteRows {rows : List Bytes} {cols : Nat} {m : BitMatrix}
      (h : ofByteRows rows cols = .ok m) : Built m
  | random {rows cols : Nat} {s rest : WordStream} {m : BitMatrix}
      (h : random rows cols s = .ok (m, rest)) : Built m
  | ofStorage {rows cols : Nat} {data : Bytes} {m : BitMatrix}
      (h : ofStorage rows cols data = .ok m) : Built m
  | decode {bytes rest : Bytes} {m : BitMatrix} (h : codec.decode bytes = .ok (m, rest)) : Built m
  | set {m m' : BitMatrix} {r c : Nat} {on : Bool} (hm : Built m) (h : m.set r c on = .ok m') :
      Built m'
  | xor {a b m : BitMatrix} (ha : Built a) (hb : Built b) (h : a.xor b = .ok m) : Built m
  | transpose {m : BitMatrix} (hm : Built m) : Built m.transpose

theorem wellFormed_zeros (rows cols : Nat) :
    WellFormed ⟨rows, cols, List.replicate (storageSize rows cols) 0⟩ := by
  refine ⟨List.length_replicate, fun r _ c _ _ => ?_⟩
  rw [bit_eq, Bytes.bit_replicate_zero]

theorem Built.wellFormed_storable {m : BitMatrix} (h : Built m) :
    m.WellFormed ∧ Storable m.rows m.cols := by
  induction h with
  | zeros h =>
    unfold BitMatrix.zeros at h
    split at h
    next hstorable =>
      obtain rfl := Except.ok.inj h
      exact ⟨wellFormed_zeros _ _, hstorable⟩
    · cases h
  | ofByteRows h =>
    unfold BitMatrix.ofByteRows at h
    split at h
    · cases h
    next hstorable =>
      split at h
      · obtain rfl := Except.ok.inj h
        exact ⟨wellFormed_ofRows _ _, not_not.1 hstorable⟩
      · cases h
  | random h =>
    unfold BitMatrix.random at h
    split at h
    next hstorable =>
      obtain ⟨rfl, -⟩ := Prod.mk.inj (Except.ok.inj h)
      refine ⟨wellFormed_ofRows _ _, ?_⟩
      simpa only [ofRows, length_drawRows] using hstorable
    · cases h
  | ofStorage h => exact (ofStorage_inv h).2
  | decode h => exact (codec_canonical _ _ _ h).1
  | set _ h ih =>
    obtain ⟨hr, hc⟩ := set_inv h
    obtain ⟨m', hset, hm', hrows, hcols, -⟩ := set_ok ih.1 hr hc _
    obtain rfl := Except.ok.inj (hset.symm.trans h)
    exact ⟨hm', hrows ▸ hcols ▸ ih.2⟩
  | xor _ _ h iha ihb =>
    obtain ⟨hrows, hcols⟩ := xor_inv h
    obtain ⟨x, hxor, hx, hrows', hcols', -⟩ := xor_ok iha.1 ihb.1 hrows hcols
    obtain rfl := Except.ok.inj (hxor.symm.trans h)
    exact ⟨hx, hrows' ▸ hcols' ▸ iha.2⟩
  | transpose _ ih => exact ⟨wellFormed_transpose ih.1, storable_comm ih.2⟩

/-- A built matrix has the storage that its dimensions demand and no bit set in the padding. So it
is determined by its cells, and its operations are those of its cells. -/
theorem built_cellwise {m : BitMatrix} (h : Built m) :
    (m.WellFormed ∧ Storable m.rows m.cols) ∧
      (∀ m', Built m' → (m = m' ↔ m.rows = m'.rows ∧ m.cols = m'.cols ∧
        ∀ r < m.rows, ∀ c < m.cols, m.get r c = m'.get r c)) ∧
      (∀ r < m.rows, ∀ c < m.cols, ∀ on, ∃ m', m.set r c on = .ok m' ∧
        m'.rows = m.rows ∧ m'.cols = m.cols ∧
        ∀ i j, m'.get i j = if i = r ∧ j = c then .ok on else m.get i j) ∧
      ∀ m', Built m' → m.rows = m'.rows → m.cols = m'.cols → ∃ x, m.xor m' = .ok x ∧
        x.rows = m.rows ∧ x.cols = m.cols ∧
        ∀ r c, x.get r c = do return (← m.get r c) ^^ (← m'.get r c) := by
  have hm := h.wellFormed_storable
  refine ⟨hm, ?_, ?_, ?_⟩
  · intro m' h'
    exact eq_iff_get hm.1 h'.wellFormed_storable.1
  · intro r hr c hc on
    obtain ⟨m', hset, -, hrest⟩ := set_ok hm.1 hr hc on
    exact ⟨m', hset, hrest⟩
  · intro m' h' hrows hcols
    obtain ⟨x, hxor, -, hrest⟩ := get_xor hm.1 h'.wellFormed_storable.1 hrows hcols
    exact ⟨x, hxor, hrest⟩

/-- The bits of a given row behind its last column are dropped, so they do not tell two matrices
apart. -/
theorem built_cellwise_excess_bits :
    Built (ofRows 10 [[0x01, 0xfe]]) ∧ Built (ofRows 10 [[0x01, 0x02]]) ∧
      ofRows 10 [[0x01, 0xfe]] = ofRows 10 [[0x01, 0x02]] := by
  have hbuilt : ∀ row : Bytes, usedBytes 10 ≤ row.length → Built (ofRows 10 [row]) := by
    intro row hrow
    have hstorable : Storable 1 10 := by decide
    have hrows : [row].all (usedBytes 10 ≤ ·.length) = true := by simpa using hrow
    refine .ofByteRows (?_ : ofByteRows [row] 10 = _)
    exact (if_neg (not_not.2 hstorable)).trans (if_pos hrows)
  have h1 := hbuilt [0x01, 0xfe] (by decide)
  have h2 := hbuilt [0x01, 0x02] (by decide)
  exact ⟨h1, h2, ((built_cellwise h1).2.1 _ h2).2 (by decide)⟩

end PrivateLift.BitMatrix
