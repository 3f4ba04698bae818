import PrivateLift.BitMatrix.Basic
import PrivateLift.Proofs.Bytes.Bits

/-!
# The stored bits of a matrix

A stored matrix is determined by its dimensions and by the bits at its padded positions (`ext_bit`).
The lemmas below give these bits for every way to make a matrix: from rows (`bit_ofRows`), as an
exclusive or (`bit_xor`) and by drawing. All of them are well-formed, and well-formed storage is
accepted again as it is (`ofStorage_ok`).
-/

namespace PrivateLift

/-! ## Padded dimensions -/

theorem padded_pos (n : Nat) : 0 < padded n := by
  rw [padded]
  omega

theorem le_padded (n : Nat) : n ≤ padded n := by
  rw [padded]
  omega

theorem padded_mod (n : Nat) : padded n % 16 = 0 := by
  rw [padded]
  omega

theorem padded_mono {n m : Nat} (h : n ≤ m) : padded n ≤ padded m := by
  simp only [padded]
  omega

namespace BitMatrix

theorem eight_mul_strideOf (cols : Nat) : 8 * strideOf cols = padded cols := by
  have := padded_mod cols
  rw [strideOf]
  omega

theorem usedBytes_le_strideOf (cols : Nat) : usedBytes cols ≤ strideOf cols := by
  have := eight_mul_strideOf cols
  have := le_padded cols
  rw [usedBytes]
  omega

theorem storageSize_eq (rows cols : Nat) : storageSize rows cols = padded rows * strideOf cols := by
  rw [storageSize, ← eight_mul_strideOf cols, Nat.mul_left_comm]
  exact Nat.mul_div_cancel_left _ (by decide)

theorem storable_mono {rows rows' cols cols' : Nat} (hr : rows ≤ rows') (hc : cols ≤ cols')
    (h : Storable rows' cols') : Storable rows cols :=
  Nat.lt_of_le_of_lt (Nat.mul_le_mul (padded_mono hr) (padded_mono hc)) h

theorem storable_comm {rows cols : Nat} (h : Storable rows cols) : Storable cols rows := by
  rw [Storable, Nat.mul_comm]
  exact h

theorem Storable.padded_lt {rows cols : Nat} (h : Storable rows cols) :
    padded rows < UInt64.size ∧ padded cols < UInt64.size :=
  ⟨Nat.lt_of_le_of_lt (Nat.le_mul_of_pos_right _ (padded_pos cols)) h,
    Nat.lt_of_le_of_lt (Nat.le_mul_of_pos_left _ (padded_pos rows)) h⟩

theorem Storable.rows_lt {rows cols : Nat} (h : Storable rows cols) : rows < UInt64.size :=
  Nat.lt_of_le_of_lt (le_padded rows) h.padded_lt.1

/-- The used bytes of row `r` end within the storage. -/
theorem rowEnd_le {rows r : Nat} (cols : Nat) (hr : r < rows) :
    r * strideOf cols + usedBytes cols ≤ storageSize rows cols := by
  have hused := usedBytes_le_strideOf cols
  have hend : (r + 1) * strideOf cols ≤ storageSize rows cols := by
    rw [storageSize_eq]
    exact Nat.mul_le_mul_right _ (Nat.le_trans hr (le_padded _))
  rw [Nat.succ_mul] at hend
  omega

/-! ## Bits -/

theorem bit_eq (m : BitMatrix) (r c : Nat) :
    m.bit r c = Bytes.bit m.data (8 * (r * m.stride) + c) := by
  have hdiv : (8 * (r * m.stride) + c) / 8 = r * m.stride + c / 8 := by omega
  have hmod : (8 * (r * m.stride) + c) % 8 = c % 8 := by omega
  rw [bit, Bytes.bit, hdiv, hmod]

/-- A stored matrix is determined by its dimensions and its stored bits. -/
theorem ext_bit {a b : BitMatrix} (ha : a.data.length = storageSize a.rows a.cols)
    (hb : b.data.length = storageSize b.rows b.cols) (hrows : a.rows = b.rows)
    (hcols : a.cols = b.cols)
    (h : ∀ r < padded a.rows, ∀ c < padded a.cols, a.bit r c = b.bit r c) : a = b := by
  have hdata : a.data = b.data := by
    apply Bytes.ext_bit (by rw [ha, hb, hrows, hcols])
    intro k hk
    have hwide := padded_pos a.cols
    have hrow : k / padded a.cols < padded a.rows := by
      rw [ha, storageSize_eq, ← Nat.mul_assoc, Nat.mul_comm 8, Nat.mul_assoc,
        eight_mul_strideOf] at hk
      exact Nat.div_lt_of_lt_mul (Nat.mul_comm _ _ ▸ hk)
    have hsplit : 8 * (k / padded a.cols * strideOf a.cols) + k % padded a.cols = k := by
      rw [Nat.mul_left_comm, eight_mul_strideOf, Nat.mul_comm]
      exact Nat.div_add_mod k (padded a.cols)
    have hbit := h _ hrow _ (Nat.mod_lt k hwide)
    rw [bit_eq, bit_eq, stride, stride, ← hcols, hsplit] at hbit
    exact hbit
  cases a
  cases b
  simp_all

/-! ## Stored rows -/

theorem testBit_lowMask (width k : Nat) (hw : width < 8) (hk : k < 8) :
    (UInt8.ofNat (1 <<< width - 1)).toNat.testBit k = decide (k < width) := by
  have hbyte : ∀ width < 8, ∀ k < 8,
      (UInt8.ofNat (1 <<< width - 1)).toNat.testBit k = decide (k < width) := by decide
  exact hbyte width hw k hk

theorem length_maskRow (cols : Nat) (bytes : Bytes) :
    (maskRow cols bytes).length = bytes.length := by
  rw [maskRow]
  split
  · rfl
  · exact List.length_modify _ _ _

/-- Masking a byte leaves its lowest `width` bits. -/
theorem bit_modify_lowMask (bytes : Bytes) (p : Nat) {width : Nat} (hw : width < 8) (k : Nat) :
    Bytes.bit (bytes.modify p (· &&& UInt8.ofNat (1 <<< width - 1))) k =
      (Bytes.bit bytes k && decide (k / 8 = p → k % 8 < width)) := by
  by_cases hbyte : k / 8 = p
  · have hmask := testBit_lowMask width (k % 8) hw (by omega)
    simp only [Bytes.bit, List.getD_eq_getElem?_getD, List.getElem?_modify, hbyte, true_imp_iff]
    cases bytes[p]? with
    | none => simp
    | some b =>
      simp only [if_true, Option.map_eq_map, Option.map_some, Option.getD_some, UInt8.toNat_and,
        Nat.testBit_and, hmask]
  · have hne : p ≠ k / 8 := fun heq => hbyte heq.symm
    simp [Bytes.bit, List.getD_eq_getElem?_getD, hbyte, hne]

theorem bit_maskRow {cols : Nat} {bytes : Bytes} (h : bytes.length ≤ usedBytes cols) (k : Nat) :
    Bytes.bit (maskRow cols bytes) k = (decide (k < cols) && Bytes.bit bytes k) := by
  rw [usedBytes] at h
  by_cases hend : 8 * bytes.length ≤ k
  · rw [Bytes.bit_of_length_le (by rwa [length_maskRow]), Bytes.bit_of_length_le hend,
      Bool.and_false]
  rw [maskRow]
  split
  next hmod =>
    have hk : k < cols := by omega
    rw [decide_eq_true hk, Bool.true_and]
  next hmod =>
    have hiff : (k / 8 = cols / 8 → k % 8 < cols % 8) ↔ k < cols := by omega
    simp only [bit_modify_lowMask bytes (cols / 8) (Nat.mod_lt cols (by decide)), hiff,
      Bool.and_comm]

@[simp] theorem length_storeRow (cols : Nat) (bytes : Bytes) :
    (storeRow cols bytes).length = strideOf cols := by
  have := usedBytes_le_strideOf cols
  simp only [storeRow, List.length_append, length_maskRow, List.length_take,
    List.length_replicate]
  omega

theorem bit_storeRow (cols : Nat) (bytes : Bytes) (k : Nat) :
    Bytes.bit (storeRow cols bytes) k = (decide (k < cols) && Bytes.bit bytes k) := by
  have htake : (bytes.take (usedBytes cols)).length ≤ usedBytes cols := by
    rw [List.length_take]
    omega
  have hused : cols ≤ 8 * usedBytes cols := by
    rw [usedBytes]
    omega
  have hstored : Bytes.bit (storeRow cols bytes) k =
      Bytes.bit (maskRow cols (bytes.take (usedBytes cols))) k := by
    simp only [storeRow, Bytes.bit_append, Bytes.bit_replicate_zero]
    split
    · rfl
    · exact (Bytes.bit_of_length_le (by omega)).symm
  rw [hstored, bit_maskRow htake, Bytes.bit_take]
  by_cases hk : k < cols
  · have hk8 : k < 8 * usedBytes cols := by omega
    simp [hk, hk8]
  · simp [hk]

theorem length_flatMap_storeRow (cols : Nat) (rows : List Bytes) :
    (rows.flatMap (storeRow cols)).length = rows.length * strideOf cols := by
  induction rows with
  | nil => simp
  | cons row rows ih =>
    rw [List.flatMap_cons, List.length_append, length_storeRow, ih, List.length_cons,
      Nat.succ_mul, Nat.add_comm]

theorem bit_flatMap_storeRow (cols : Nat) (rows : List Bytes) (r : Nat) {c : Nat}
    (hc : c < padded cols) :
    Bytes.bit (rows.flatMap (storeRow cols)) (8 * (r * strideOf cols) + c) =
      (decide (c < cols) && Bytes.bit (rows.getD r []) c) := by
  have hstride := eight_mul_strideOf cols
  induction rows generalizing r with
  | nil => simp [Bytes.bit]
  | cons row rows ih =>
    rw [List.flatMap_cons, Bytes.bit_append, length_storeRow]
    cases r with
    | zero =>
      rw [if_pos (by omega), Nat.zero_mul, Nat.mul_zero, Nat.zero_add, bit_storeRow]
      rfl
    | succ r =>
      have hsplit : (r + 1) * strideOf cols = r * strideOf cols + strideOf cols :=
        Nat.succ_mul r (strideOf cols)
      have hrest : 8 * ((r + 1) * strideOf cols) + c - 8 * strideOf cols =
          8 * (r * strideOf cols) + c := by omega
      rw [if_neg (by omega), hrest, ih]
      rfl

theorem length_ofRows (cols : Nat) (rows : List Bytes) :
    (ofRows cols rows).data.length = storageSize rows.length cols := by
  have hle : rows.length * strideOf cols ≤ storageSize rows.length cols := by
    rw [storageSize_eq]
    exact Nat.mul_le_mul_right _ (le_padded _)
  simp only [ofRows, List.length_append, List.length_replicate, length_flatMap_storeRow]
  omega

theorem bit_ofRows (cols : Nat) (rows : List Bytes) (r : Nat) {c : Nat} (hc : c < padded cols) :
    (ofRows cols rows).bit r c = (decide (c < cols) && Bytes.bit (rows.getD r []) c) := by
  rw [← bit_flatMap_storeRow cols rows r hc, bit_eq]
  simp only [ofRows, stride, Bytes.bit_append, Bytes.bit_replicate_zero]
  split
  · rfl
  · exact (Bytes.bit_of_length_le (by omega)).symm

theorem wellFormed_ofRows (cols : Nat) (rows : List Bytes) : (ofRows cols rows).WellFormed := by
  refine ⟨length_ofRows cols rows, ?_⟩
  intro r _ c hc houtside
  rw [bit_ofRows cols rows r hc]
  rcases houtside with hr | hc'
  · have hnone : rows.getD r [] = [] := by
      rw [List.getD_eq_getElem?_getD, List.getElem?_eq_none hr]
      rfl
    rw [hnone]
    simp [Bytes.bit]
  · have : ¬c < cols := by
      have : (ofRows cols rows).cols = cols := rfl
      omega
    simp [this]

theorem bit_rowBytes (m : BitMatrix) (r c : Nat) :
    Bytes.bit (m.rowBytes r) c = (decide (c < 8 * usedBytes m.cols) && m.bit r c) := by
  rw [rowBytes, Bytes.bit_take, Bytes.bit_drop, bit_eq]

theorem length_rowBytes {m : BitMatrix} (h : m.data.length = storageSize m.rows m.cols) {r : Nat}
    (hr : r < m.rows) : (m.rowBytes r).length = usedBytes m.cols := by
  have hend := rowEnd_le m.cols hr
  rw [rowBytes, List.length_take, List.length_drop, h, stride]
  omega

/-! ## Matrices from storage, drawn matrices and exclusive or -/

/-- Storing the rows of a well-formed matrix anew gives the matrix. -/
theorem ofRows_rowBytes {m : BitMatrix} (h : m.WellFormed) :
    ofRows m.cols ((List.range m.rows).map m.rowBytes) = m := by
  have hrows : ((List.range m.rows).map m.rowBytes).length = m.rows := by simp
  refine ext_bit (length_ofRows _ _) h.length_data hrows rfl ?_
  intro r hr c hc
  have hr' : r < padded m.rows := by
    have : (ofRows m.cols ((List.range m.rows).map m.rowBytes)).rows = m.rows := hrows
    rwa [this] at hr
  rw [bit_ofRows m.cols _ r hc]
  by_cases hinside : r < m.rows ∧ c < m.cols
  · have hused : c < 8 * usedBytes m.cols := by
      rw [usedBytes]
      omega
    simp [List.getD_eq_getElem?_getD, hinside.1, hinside.2, bit_rowBytes, hused]
  · rw [h.bit_outside r hr' c hc (by omega)]
    by_cases hcol : c < m.cols
    · have hrow : ¬r < m.rows := fun hr => hinside ⟨hr, hcol⟩
      simp [List.getD_eq_getElem?_getD, hrow, Bytes.bit]
    · simp [hcol]

theorem ofStorage_ok {m : BitMatrix} (h : m.WellFormed) (hs : Storable m.rows m.cols) :
    ofStorage m.rows m.cols m.data = .ok m := by
  rw [ofStorage, storageSize?, if_pos hs]
  simp only [h.length_data, ne_eq, not_true, if_false]
  exact if_pos (ofRows_rowBytes h)

/-- Accepted storage is the storage of its own rows. -/
theorem ofStorage_inv {rows cols : Nat} {data : Bytes} {m : BitMatrix}
    (h : ofStorage rows cols data = .ok m) :
    m = ⟨rows, cols, data⟩ ∧ m.WellFormed ∧ Storable m.rows m.cols := by
  unfold ofStorage storageSize? at h
  split at h
  · cases h
  next expected hsize =>
    split at hsize
    next hstorable =>
      split at h
      · cases h
      simp only at h
      split at h
      next hrows =>
        obtain rfl := Except.ok.inj h
        refine ⟨rfl, ?_, hstorable⟩
        rw [← hrows]
        exact wellFormed_ofRows _ _
      · cases h
    · cases hsize

theorem length_drawRows (length count : Nat) (s : WordStream) :
    (drawRows length count s).1.length = count := by
  induction count generalizing s with
  | zero => rfl
  | succ count ih =>
    simp only [drawRows, List.length_cons]
    rw [ih]

theorem random_eq {rows cols : Nat} (h : Storable rows cols) (s : WordStream) :
    random rows cols s = .ok (ofRows cols (drawRows (usedBytes cols) rows s).1,
      (drawRows (usedBytes cols) rows s).2) := if_pos h

theorem random_ok {rows cols : Nat} (h : Storable rows cols) (s : WordStream) :
    ∃ mask rest, random rows cols s = .ok (mask, rest) ∧ mask.WellFormed ∧ mask.rows = rows ∧
      mask.cols = cols :=
  ⟨_, _, random_eq h s, wellFormed_ofRows _ _, length_drawRows _ _ _, rfl⟩

theorem xor_ok {a b : BitMatrix} (ha : a.WellFormed) (hb : b.WellFormed) (hrows : a.rows = b.rows)
    (hcols : a.cols = b.cols) :
    ∃ m, a.xor b = .ok m ∧ m.WellFormed ∧ m.rows = a.rows ∧ m.cols = a.cols ∧
      ∀ r c, m.bit r c = (a.bit r c ^^ b.bit r c) := by
  have hlen : a.data.length = b.data.length := by
    rw [ha.length_data, hb.length_data, hrows, hcols]
  have hbit : ∀ r c, BitMatrix.bit { a with data := a.data.xor b.data } r c =
      (a.bit r c ^^ b.bit r c) := by
    intro r c
    rw [bit_eq, bit_eq, bit_eq, stride, stride, stride, ← hcols, Bytes.bit_xor hlen]
  refine ⟨_, if_pos ⟨hrows, hcols⟩, ⟨?_, ?_⟩, rfl, rfl, hbit⟩
  · simp only [Bytes.length_xor, ← hlen, Nat.min_self]
    exact ha.length_data
  · intro r hr c hc houtside
    have hb' := hb.bit_outside r (hrows ▸ hr) c (hcols ▸ hc) (by rw [← hrows, ← hcols]; exact houtside)
    rw [hbit, ha.bit_outside r hr c hc houtside, hb']
    rfl

/-- Masking twice by one matrix gives the matrix back. -/
theorem xor_eq_ok_comm {a b m : BitMatrix} (ha : a.WellFormed) (hb : b.WellFormed)
    (hm : m.WellFormed) (hrows : a.rows = b.rows) (hcols : a.cols = b.cols)
    (hrows' : a.rows = m.rows) (hcols' : a.cols = m.cols) :
    a.xor b = .ok m ↔ a.xor m = .ok b := by
  have himp : ∀ {b m : BitMatrix}, b.WellFormed → m.WellFormed → a.rows = b.rows →
      a.cols = b.cols → a.rows = m.rows → a.cols = m.cols → a.xor b = .ok m →
        a.xor m = .ok b := by
    intro b m hb hm hrows hcols hrows' hcols' hxor
    obtain ⟨m', hm', -, -, -, hbit⟩ := xor_ok ha hb hrows hcols
    obtain ⟨b', hb', wfb', rowsb', colsb', hbit'⟩ := xor_ok ha hm hrows' hcols'
    rw [hxor] at hm'
    obtain rfl : m = m' := Except.ok.inj hm'
    rw [hb']
    refine congrArg Except.ok (ext_bit wfb'.length_data hb.length_data (rowsb'.trans hrows)
      (colsb'.trans hcols) ?_)
    intro r _ c _
    rw [hbit', hbit, ← Bool.xor_assoc, Bool.xor_self, Bool.false_xor]
  exact ⟨himp hb hm hrows hcols hrows' hcols', himp hm hb hrows' hcols' hrows hcols⟩

end BitMatrix

end PrivateLift
