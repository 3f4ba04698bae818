import PrivateLift.Proofs.BitMatrix.Transpose
import PrivateLift.Share

/-!
# Sharing rows

The byte rows of any shares have the length that the number of bits per row demands, whatever the
storage of the matrix is (`length_of_mem_toByteRows`). Two matrices that `share` makes have the
dimensions of the batch, are well-formed, and the exclusive or of their byte rows is the batch
(`share_ok`).
-/

namespace PrivateLift.RowShares

open BitMatrix

@[simp] theorem length_toByteRows (m : RowShares) : m.toByteRows.length = m.batchSize := by
  simp [toByteRows, batchSize, transpose]

theorem length_of_mem_toByteRows {m : RowShares} {row : Bytes} (h : row ∈ m.toByteRows) :
    row.length = usedBytes m.rowBits := by
  simp only [toByteRows, List.mem_map, List.mem_range] at h
  obtain ⟨i, hi, rfl⟩ := h
  exact length_rowBytes (length_transpose m.bits) hi

theorem usedBytes_eight_mul (width : Nat) : usedBytes (8 * width) = width := by
  rw [usedBytes]
  omega

theorem width_of_mem_toByteRows {m : RowShares} {width : Nat} (hbits : m.rowBits = 8 * width)
    {row : Bytes} (h : row ∈ m.toByteRows) : row.length = width := by
  rw [length_of_mem_toByteRows h, hbits, usedBytes_eight_mul]

/-- The share of a row is the column of the matrix that belongs to the row. -/
theorem bit_toByteRows (m : RowShares) {i c : Nat} (hi : i < m.toByteRows.length)
    (hc : c < m.rowBits) : Bytes.bit m.toByteRows[i] c = m.bits.bit c i := by
  have hsize : i < m.bits.cols := by rwa [length_toByteRows] at hi
  have hused : c < 8 * usedBytes m.bits.transpose.cols := by
    have : m.bits.transpose.cols = m.rowBits := rfl
    rw [usedBytes, this]
    omega
  have hrow : m.toByteRows[i] = m.bits.transpose.rowBytes i := by
    simp only [toByteRows, List.getElem_map, List.getElem_range]
  rw [hrow, bit_rowBytes, bit_transpose m.bits (Nat.lt_of_lt_of_le hc (le_padded _))
    (Nat.lt_of_lt_of_le hsize (le_padded _))]
  simp [hused]

/-- `a` and `b` are the shares of the first `width` bytes of every row. -/
structure Splits (a b : RowShares) (rows : List Bytes) (width : Nat) : Prop where
  wellFormed_left : a.bits.WellFormed
  wellFormed_right : b.bits.WellFormed
  rowBits_left : a.rowBits = 8 * width
  rowBits_right : b.rowBits = 8 * width
  batchSize_left : a.batchSize = rows.length
  batchSize_right : b.batchSize = rows.length
  reveal : List.zipWith Bytes.xor a.toByteRows b.toByteRows = rows.map (·.take width)

theorem Splits.symm {a b : RowShares} {rows : List Bytes} {width : Nat} (h : Splits a b rows width) :
    Splits b a rows width := by
  refine ⟨h.wellFormed_right, h.wellFormed_left, h.rowBits_right, h.rowBits_left,
    h.batchSize_right, h.batchSize_left, ?_⟩
  rw [← h.reveal]
  exact List.zipWith_comm_of_comm Bytes.xor_comm

theorem ofByteRows_eq_ok_iff {rows : List Bytes} {cols : Nat} {m : BitMatrix} :
    ofByteRows rows cols = .ok m ↔ Storable rows.length cols ∧
      (∀ row ∈ rows, usedBytes cols ≤ row.length) ∧ ofRows cols rows = m := by
  rw [ofByteRows]
  split
  · next hs => simp [hs]
  · next hs =>
    have hs : Storable rows.length cols := Classical.not_not.1 hs
    by_cases hall : ∀ row ∈ rows, usedBytes cols ≤ row.length
    · have hall' : rows.all (usedBytes cols ≤ ·.length) = true := by simpa using hall
      rw [if_pos hall']
      simpa [hs] using fun _ => hall
    · have hall' : ¬rows.all (usedBytes cols ≤ ·.length) = true := by simpa using hall
      rw [if_neg hall']
      simp [hall]

theorem splits_of_bits {a b : RowShares} {rows : List Bytes} {width : Nat}
    (ha : a.bits.WellFormed) (hb : b.bits.WellFormed) (hbits : a.rowBits = 8 * width)
    (hbits' : b.rowBits = 8 * width) (hsize : a.batchSize = rows.length)
    (hsize' : b.batchSize = rows.length) (hw : ∀ row ∈ rows, width ≤ row.length)
    (h : ∀ i < rows.length, ∀ c < 8 * width,
      (a.bits.bit c i ^^ b.bits.bit c i) = Bytes.bit (rows.getD i []) c) :
    Splits a b rows width := by
  refine ⟨ha, hb, hbits, hbits', hsize, hsize', ?_⟩
  apply List.ext_getElem
  · simp [hsize, hsize']
  intro i hi hi'
  have hia : i < a.toByteRows.length := by
    rw [List.length_zipWith] at hi
    omega
  have hib : i < b.toByteRows.length := by
    rw [List.length_zipWith] at hi
    omega
  have hirow : i < rows.length := by
    rw [List.length_map] at hi'
    exact hi'
  rw [List.getElem_zipWith, List.getElem_map]
  have lena := width_of_mem_toByteRows hbits (List.getElem_mem hia)
  have lenb := width_of_mem_toByteRows hbits' (List.getElem_mem hib)
  have hrow := hw _ (List.getElem_mem hirow)
  apply Bytes.ext_bit
  · rw [Bytes.length_xor, List.length_take, lena, lenb]
    omega
  intro c hc
  rw [Bytes.length_xor, lena, lenb, Nat.min_self] at hc
  have hcell := h i hirow c hc
  rw [List.getD_eq_getElem?_getD, List.getElem?_eq_getElem hirow, Option.getD_some] at hcell
  rw [Bytes.bit_xor (lena.trans lenb.symm), bit_toByteRows a hia (by omega),
    bit_toByteRows b hib (by omega), hcell, Bytes.bit_take]
  simp [hc]

/-- The first bytes of long enough rows make up a matrix whenever it can be stored. -/
theorem ofByteRows_ok {rows : List Bytes} {width : Nat} (hs : Storable rows.length (8 * width))
    (hw : ∀ row ∈ rows, width ≤ row.length) :
    ofByteRows rows (8 * width) = .ok (ofRows (8 * width) rows) :=
  ofByteRows_eq_ok_iff.2 ⟨hs, by rwa [usedBytes_eight_mul], rfl⟩

/-- Rows of at least the given width are shared whenever their matrix can be stored. -/
theorem share_ok {rows : List Bytes} {width : Nat} (hs : Storable rows.length (8 * width))
    (hw : ∀ row ∈ rows, width ≤ row.length) (s : WordStream) :
    ∃ a b rest, share rows width s = .ok (a, b, rest) ∧ Splits a b rows width := by
  have wf := wellFormed_transpose (wellFormed_ofRows (8 * width) rows)
  have hstorable : Storable (ofRows (8 * width) rows).transpose.rows
      (ofRows (8 * width) rows).transpose.cols := storable_comm hs
  obtain ⟨mask, rest, hmask, wfMask, rowsMask, colsMask⟩ :=
    random_ok hstorable s
  obtain ⟨masked, hmasked, wfMasked, rowsMasked, colsMasked, bitMasked⟩ :=
    xor_ok wf wfMask rowsMask.symm colsMask.symm
  refine ⟨⟨mask⟩, ⟨masked⟩, rest, ?_, ?_⟩
  · simp only [share, ofByteRows_ok hs hw, hmask, hmasked, bind, Except.bind, pure, Except.pure]
  · refine splits_of_bits wfMask wfMasked rowsMask rowsMasked colsMask colsMasked hw ?_
    intro i hi c hc
    have hpi : i < padded (ofRows (8 * width) rows).rows := Nat.lt_of_lt_of_le hi (le_padded _)
    have hpc : c < padded (8 * width) := Nat.lt_of_lt_of_le hc (le_padded _)
    rw [bitMasked, bit_transpose _ hpi hpc, bit_ofRows _ _ _ hpc, Bool.xor_comm, Bool.xor_assoc,
      Bool.xor_self, Bool.xor_false]
    simp [hc]

/-- Shares that cannot be stored are not drawn. -/
theorem share_error {rows : List Bytes} {width : Nat} (hs : ¬Storable rows.length (8 * width))
    (s : WordStream) : share rows width s = .error .sizeOverflow := by
  rw [share, ofByteRows, if_pos hs]
  rfl

/-- Rows are only shared when their matrix can be stored and all of them are long enough. -/
theorem share_inv {rows : List Bytes} {width : Nat} {s rest : WordStream} {a b : RowShares}
    (h : share rows width s = .ok (a, b, rest)) :
    Storable rows.length (8 * width) ∧ Splits a b rows width := by
  cases hplain : ofByteRows rows (8 * width) with
  | error f => simp [share, hplain, bind, Except.bind] at h
  | ok plain =>
    obtain ⟨hs, hw, -⟩ := ofByteRows_eq_ok_iff.1 hplain
    rw [usedBytes_eight_mul] at hw
    obtain ⟨a', b', rest', h', hsplits⟩ := share_ok hs hw s
    rw [h] at h'
    cases h'
    exact ⟨hs, hsplits⟩

end PrivateLift.RowShares
