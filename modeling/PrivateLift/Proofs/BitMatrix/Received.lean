import PrivateLift.Proofs.BitMatrix.Built
import PrivateLift.Document.Records

/-!
# Received matrices

Storage that another party sends is checked before it is used. Run step by step in 64 bits, the
check measures the storage, copies the used bytes of every row to a blank matrix, masks there the
last one of every row, and compares (`ofStorageStepwise`). Whatever is computed after the measuring
is bounded by the measured length, so no step fails, and the copy is the matrix of the same rows
(`cleared_ok`). It is the received matrix only if nothing but cells is set. `ofStorage_exact` says
what is accepted, from messages and from documents.
-/

namespace PrivateLift

namespace Bytes

/-- The bytes from `start` on are replaced by others. -/
def overwrite (bs : Bytes) (start : Nat) (bytes : Bytes) : Bytes :=
  bs.take start ++ (bytes ++ bs.drop (start + bytes.length))

theorem length_overwrite {bs bytes : Bytes} {start : Nat} (h : start + bytes.length ≤ bs.length) :
    (bs.overwrite start bytes).length = bs.length := by
  simp only [overwrite, List.length_append, List.length_take, List.length_drop]
  omega

theorem bit_overwrite {bs bytes : Bytes} {start : Nat} (h : start + bytes.length ≤ bs.length)
    (k : Nat) :
    bit (bs.overwrite start bytes) k =
      if 8 * start ≤ k ∧ k < 8 * (start + bytes.length) then bit bytes (k - 8 * start)
      else bit bs k := by
  have hstart : (bs.take start).length = start := by
    rw [List.length_take]
    omega
  rw [overwrite, bit_append, bit_append, bit_take, bit_drop, hstart]
  by_cases hbefore : k < 8 * start
  · rw [if_pos hbefore, if_neg (by omega), decide_eq_true hbefore, Bool.true_and]
  · rw [if_neg hbefore]
    by_cases hinside : k < 8 * (start + bytes.length)
    · rw [if_pos (by omega), if_pos (by omega)]
    · have hposition : 8 * (start + bytes.length) + (k - 8 * start - 8 * bytes.length) = k := by
        omega
      rw [if_neg (by omega), if_neg (by omega), hposition]

end Bytes

namespace BitMatrix

/-! ## The check step by step -/

-- A number that has to fit into 64 bits goes through `checkSize`.

/-- A quotient rounded up. -/
def divCeil (n d : Nat) : Except Fault Nat := checkSize (n / d + if n % d = 0 then 0 else 1)

def paddedStepwise (n : Nat) : Except Fault Nat := do
  checkSize (max (← divCeil n 16) 1 * 16)

def product? (a b : Nat) : Option Nat := if a * b < UInt64.size then some (a * b) else none

/-- The length of the storage; there is none if a product is too large. -/
def measure (rows cols : Nat) : Except Fault (Option Nat) := do
  let rowBlocks ← divCeil rows 16
  let colBlocks ← divCeil cols 16
  return do
    let rows ← product? (max rowBlocks 1) 16
    let cols ← product? (max colBlocks 1) 16
    return (← product? rows cols) / 8

def blank (rows cols : Nat) : Except Fault BitMatrix := do
  let cells ← checkSize ((← paddedStepwise rows) * (← paddedStepwise cols))
  return ⟨rows, cols, List.replicate (cells / 8) 0⟩

/-- Where the used bytes of a row begin and where they end. -/
def rowRange (m : BitMatrix) (r : Nat) : Except Fault (Nat × Nat) := do
  let start ← checkSize (r * ((← paddedStepwise m.cols) / 8))
  let stop ← checkSize (start + (← divCeil m.cols 8))
  if stop ≤ m.data.length then return (start, stop) else throw .outOfRange

def readRow (m : BitMatrix) (r : Nat) : Except Fault Bytes := do
  if r < m.rows then
    let (start, stop) ← m.rowRange r
    return (m.data.drop start).take (stop - start)
  else throw (.noRow r)

def writeRow (m : BitMatrix) (r : Nat) (bytes : Bytes) : Except Fault BitMatrix := do
  let (start, stop) ← m.rowRange r
  if bytes.length = stop - start then return { m with data := m.data.overwrite start bytes }
  else throw .outOfRange

/-- Unsets the bits behind the last column in the last used byte of a row. -/
def maskLast (m : BitMatrix) (r : Nat) : Except Fault BitMatrix := do
  let (start, stop) ← m.rowRange r
  if m.cols / 8 < stop - start then
    let mask := UInt8.ofNat (1 <<< (m.cols % 8) - 1)
    return { m with data := m.data.modify (start + m.cols / 8) (· &&& mask) }
  else throw .outOfRange

def clearPadding (m : BitMatrix) : Except Fault BitMatrix :=
  if m.cols % 8 = 0 then .ok m else (List.range m.rows).foldlM maskLast m

def copyRow (m out : BitMatrix) (r : Nat) : Except Fault BitMatrix := do
  out.writeRow r (← m.readRow r)

/-- The rows of a matrix, copied to a blank one without the bits behind the last column. -/
def cleared (m : BitMatrix) : Except Fault BitMatrix := do
  let copied ← (List.range m.rows).foldlM m.copyRow (← blank m.rows m.cols)
  copied.clearPadding

/-- The check of received storage, with every number that has to fit into 64 bits. -/
def ofStorageStepwise (rows cols : Nat) (data : Bytes) : Outcome MatrixError BitMatrix := do
  match ← Outcome.ofFault (measure rows cols) with
  | none => throw (.error (.tooLarge rows cols))
  | some expected =>
    if data.length ≠ expected then
      throw (.error (.storageLength rows cols expected data.length))
    let m : BitMatrix := ⟨rows, cols, data⟩
    if (← Outcome.ofFault m.cleared) = m then return m
    throw (.error (.paddingBitsSet rows cols))

/-! ## No step fails -/

theorem divCeil_sixteen {n : Nat} (h : n < UInt64.size) : divCeil n 16 = .ok ((n + 15) / 16) := by
  have hceil : (n / 16 + if n % 16 = 0 then 0 else 1) = (n + 15) / 16 := by
    split <;> omega
  rw [divCeil, hceil, checkSize_ok (by omega)]

theorem divCeil_eight {n : Nat} (h : n < UInt64.size) : divCeil n 8 = .ok (usedBytes n) := by
  have hceil : (n / 8 + if n % 8 = 0 then 0 else 1) = usedBytes n := by
    rw [usedBytes]
    split <;> omega
  rw [divCeil, hceil, checkSize_ok (by rw [usedBytes]; omega)]

theorem paddedStepwise_ok {n : Nat} (h : padded n < UInt64.size) :
    paddedStepwise n = .ok (padded n) := by
  have hn : n < UInt64.size := Nat.lt_of_le_of_lt (le_padded n) h
  rw [paddedStepwise, divCeil_sixteen hn]
  exact checkSize_ok h

/-- A dimension that cannot be rounded up is too large beside any other. -/
theorem measure_ok {rows cols : Nat} (hrows : rows < UInt64.size) (hcols : cols < UInt64.size) :
    measure rows cols = .ok (storageSize? rows cols) := by
  have hpadded : ∀ n, product? (max ((n + 15) / 16) 1) 16 =
      if padded n < UInt64.size then some (padded n) else none := fun _ => rfl
  have hwide := Nat.le_mul_of_pos_right (padded rows) (padded_pos cols)
  have hhigh := Nat.le_mul_of_pos_left (padded cols) (padded_pos rows)
  simp only [measure, divCeil_sixteen hrows, divCeil_sixteen hcols, hpadded, bind, Except.bind]
  refine congrArg Except.ok ?_
  by_cases hstorable : Storable rows cols
  · have hcells : product? (padded rows) (padded cols) = some (padded rows * padded cols) :=
      if_pos hstorable
    rw [if_pos (Nat.lt_of_le_of_lt hwide hstorable), if_pos (Nat.lt_of_le_of_lt hhigh hstorable),
      storageSize?, if_pos hstorable, Option.bind_some, Option.bind_some, hcells]
    rfl
  · have hcells : product? (padded rows) (padded cols) = none := if_neg hstorable
    rw [storageSize?, if_neg hstorable]
    split
    · split
      · rw [Option.bind_some, Option.bind_some, hcells]
        rfl
      · rfl
    · rfl

theorem blank_ok {rows cols : Nat} (h : Storable rows cols) :
    blank rows cols = .ok ⟨rows, cols, List.replicate (storageSize rows cols) 0⟩ := by
  have hcells := checkSize_ok h
  simp only [blank, paddedStepwise_ok h.padded_lt.1, paddedStepwise_ok h.padded_lt.2, hcells, bind,
    Except.bind]
  rfl

theorem rowRange_ok {m : BitMatrix} (hs : Storable m.rows m.cols)
    (hlen : m.data.length = storageSize m.rows m.cols) {r : Nat} (hr : r < m.rows) :
    m.rowRange r = .ok (r * m.stride, r * m.stride + usedBytes m.cols) := by
  have hend := rowEnd_le m.cols hr
  have hsize : storageSize m.rows m.cols < UInt64.size :=
    Nat.lt_of_le_of_lt (Nat.div_le_self _ _) hs
  have hcols : m.cols < UInt64.size := (storable_comm hs).rows_lt
  have hstart : checkSize (r * (padded m.cols / 8)) = .ok (r * m.stride) :=
    checkSize_ok (by rw [← strideOf]; omega)
  have hstop := checkSize_ok (Nat.lt_of_le_of_lt hend hsize)
  rw [← stride] at hstop
  simp only [rowRange, paddedStepwise_ok hs.padded_lt.2, divCeil_eight hcols, hstart, hstop, bind,
    Except.bind]
  exact if_pos (hlen ▸ hend)

/-! ## What the loops do -/

/-- The matrix has the dimensions of `m`, and of its bits it has those at the positions that are
inside. -/
structure Keeps (m : BitMatrix) (inside : Nat → Nat → Prop) (out : BitMatrix) : Prop where
  rows_eq : out.rows = m.rows
  cols_eq : out.cols = m.cols
  length_data : out.data.length = m.data.length
  bit_iff : ∀ i, ∀ j < padded m.cols,
    Bytes.bit out.data (8 * (i * m.stride) + j) = true ↔ inside i j ∧ m.bit i j = true

/-- The positions of the used bytes of row `r` are those of its first bits. -/
theorem position_inside {width used i r j : Nat} (hused : used ≤ width) (hj : j < 8 * width) :
    8 * (r * width) ≤ 8 * (i * width) + j ∧ 8 * (i * width) + j < 8 * (r * width + used) ↔
      i = r ∧ j < 8 * used := by
  constructor
  · rintro ⟨hlow, hhigh⟩
    rcases Nat.lt_trichotomy i r with hlt | rfl | hlt
    · have hrow := Nat.mul_le_mul_right width (Nat.succ_le_of_lt hlt)
      rw [Nat.succ_mul] at hrow
      omega
    · exact ⟨rfl, by omega⟩
    · have hrow := Nat.mul_le_mul_right width (Nat.succ_le_of_lt hlt)
      rw [Nat.succ_mul] at hrow
      omega
  · rintro ⟨rfl, hj'⟩
    omega

namespace Keeps

variable {m out : BitMatrix} {inside inside' : Nat → Nat → Prop} {r : Nat}

theorem congr (h : Keeps m inside out) (hinside : ∀ i j, inside i j ↔ inside' i j) :
    Keeps m inside' out :=
  ⟨h.rows_eq, h.cols_eq, h.length_data, fun i j hj => by rw [h.bit_iff i j hj, hinside]⟩

theorem blank (hlen : m.data.length = storageSize m.rows m.cols) :
    Keeps m (fun _ _ => False) ⟨m.rows, m.cols, List.replicate (storageSize m.rows m.cols) 0⟩ := by
  refine ⟨rfl, rfl, List.length_replicate.trans hlen.symm, fun i j _ => ?_⟩
  simp

variable (hs : Storable m.rows m.cols) (hlen : m.data.length = storageSize m.rows m.cols)
  (h : Keeps m inside out) (hr : r < m.rows)

include hs hlen h hr

theorem rowRange_ok : out.rowRange r = .ok (r * m.stride, r * m.stride + usedBytes m.cols) := by
  have hdims : out.data.length = storageSize out.rows out.cols := by
    rw [h.length_data, hlen, h.rows_eq, h.cols_eq]
  rw [BitMatrix.rowRange_ok (h.rows_eq ▸ h.cols_eq ▸ hs) hdims (h.rows_eq ▸ hr), stride, h.cols_eq]
  rfl

/-- Copying a row adds its used bytes. -/
theorem copyRow_ok : ∃ out', m.copyRow out r = .ok out' ∧
    Keeps m (fun i j => inside i j ∨ i = r ∧ j < 8 * usedBytes m.cols) out' := by
  have hlength := length_rowBytes hlen hr
  have hfits : r * m.stride + (m.rowBytes r).length ≤ out.data.length := by
    rw [hlength, h.length_data, hlen]
    exact rowEnd_le _ hr
  refine ⟨{ out with data := out.data.overwrite (r * m.stride) (m.rowBytes r) }, ?_,
    h.rows_eq, h.cols_eq, (Bytes.length_overwrite hfits).trans h.length_data, fun i j hj => ?_⟩
  · have hread : m.readRow r = .ok (m.rowBytes r) := by
      simp only [readRow, if_pos hr, BitMatrix.rowRange_ok hs hlen hr, bind, Except.bind,
        Nat.add_sub_cancel_left]
      rfl
    simp only [copyRow, hread, writeRow, h.rowRange_ok hs hlen hr, bind, Except.bind,
      Nat.add_sub_cancel_left, hlength, if_true]
    rfl
  · have hwidth : j < 8 * m.stride := by
      rw [stride, eight_mul_strideOf]
      exact hj
    have hused : usedBytes m.cols ≤ m.stride := usedBytes_le_strideOf m.cols
    rw [Bytes.bit_overwrite hfits, hlength, if_congr (position_inside hused hwidth) rfl rfl]
    split
    next hrow =>
      obtain ⟨rfl, hused⟩ := hrow
      rw [Nat.add_sub_cancel_left, bit_rowBytes]
      simp [hused]
    next hrow =>
      rw [h.bit_iff i j hj]
      simp [hrow]

/-- Masking the last used byte of a row unsets the bits behind the last column. -/
theorem maskLast_ok (hcols : m.cols % 8 ≠ 0)
    (hinside : ∀ j, inside r j → j < 8 * usedBytes m.cols) :
    ∃ out', out.maskLast r = .ok out' ∧
      Keeps m (fun i j => inside i j ∧ (i = r → j < m.cols)) out' := by
  have hused : m.cols / 8 < usedBytes m.cols := by
    rw [usedBytes]
    omega
  have hlast : m.cols / 8 < m.stride := Nat.lt_of_lt_of_le hused (usedBytes_le_strideOf _)
  let mask := UInt8.ofNat (1 <<< (m.cols % 8) - 1)
  refine ⟨{ out with data := out.data.modify (r * m.stride + m.cols / 8) (· &&& mask) }, ?_,
    h.rows_eq, h.cols_eq, (List.length_modify _ _ _).trans h.length_data, fun i j hj => ?_⟩
  · simp only [maskLast, h.rowRange_ok hs hlen hr, bind, Except.bind, Nat.add_sub_cancel_left,
      h.cols_eq, if_pos hused]
    rfl
  have hdiv : (8 * (i * m.stride) + j) / 8 = i * m.stride + j / 8 := by omega
  have hmod : (8 * (i * m.stride) + j) % 8 = j % 8 := by omega
  have hwidth : j / 8 < m.stride := by
    rw [← eight_mul_strideOf] at hj
    rw [stride]
    omega
  have hmasked : inside i j → ((i * m.stride + j / 8 = r * m.stride + m.cols / 8 →
      j % 8 < m.cols % 8) ↔ (i = r → j < m.cols)) := by
    intro hin
    constructor
    · rintro hlow rfl
      have hrow := hinside j hin
      rw [usedBytes] at hrow
      omega
    · intro hrow heq
      rw [Nat.mul_comm i, Nat.mul_comm r] at heq
      obtain ⟨rfl, hbyte⟩ := position_inj hlast hwidth heq
      have := hrow rfl
      omega
  rw [bit_modify_lowMask _ _ (Nat.mod_lt _ (by decide)), Bool.and_eq_true, decide_eq_true_eq, hdiv,
    hmod, h.bit_iff i j hj]
  tauto

end Keeps

section

variable {m : BitMatrix} (hs : Storable m.rows m.cols)
  (hlen : m.data.length = storageSize m.rows m.cols)

include hs hlen

theorem copied_ok : ∃ out, (List.range m.rows).foldlM m.copyRow
      ⟨m.rows, m.cols, List.replicate (storageSize m.rows m.cols) 0⟩ = .ok out ∧
    Keeps m (fun i j => i < m.rows ∧ j < 8 * usedBytes m.cols) out := by
  refine foldlM_range_ok (P := fun k => Keeps m fun i j => i < k ∧ j < 8 * usedBytes m.cols)
    ((Keeps.blank hlen).congr fun i j => by simp) ?_
  intro k hk out h
  obtain ⟨out', hout', h'⟩ := h.copyRow_ok hs hlen hk
  exact ⟨out', hout', h'.congr fun i j => by omega⟩

theorem clearPadding_ok {copied : BitMatrix}
    (h : Keeps m (fun i j => i < m.rows ∧ j < 8 * usedBytes m.cols) copied) :
    ∃ out, copied.clearPadding = .ok out ∧ Keeps m (fun i j => i < m.rows ∧ j < m.cols) out := by
  rw [clearPadding, h.cols_eq, h.rows_eq]
  by_cases hcols : m.cols % 8 = 0
  · refine ⟨copied, if_pos hcols, h.congr fun i j => ?_⟩
    rw [usedBytes]
    omega
  · rw [if_neg hcols]
    -- The rows before row `k` have been masked.
    let masked (k i j : Nat) : Prop :=
      (i < m.rows ∧ j < 8 * usedBytes m.cols) ∧ (i < k → j < m.cols)
    obtain ⟨out, hout, h'⟩ : ∃ out, (List.range m.rows).foldlM maskLast copied = .ok out ∧
        Keeps m (masked m.rows) out := by
      refine foldlM_range_ok (P := fun k => Keeps m (masked k))
        (h.congr fun i j => by simp [masked]) ?_
      intro k hk out hout
      obtain ⟨out', hout', h'⟩ := hout.maskLast_ok hs hlen hk hcols fun j hj => hj.1.2
      refine ⟨out', hout', h'.congr fun i j => ?_⟩
      simp only [masked]
      omega
    refine ⟨out, hout, h'.congr fun i j => ?_⟩
    simp only [masked, usedBytes]
    omega

/-- The copy is the matrix of the rows, stored anew. -/
theorem cleared_ok : m.cleared = .ok (ofRows m.cols ((List.range m.rows).map m.rowBytes)) := by
  obtain ⟨copied, hcopied, h⟩ := copied_ok hs hlen
  obtain ⟨out, hout, h'⟩ := clearPadding_ok hs hlen h
  have hrows : (ofRows m.cols ((List.range m.rows).map m.rowBytes)).rows = m.rows := by
    simp [ofRows]
  have heq : out = ofRows m.cols ((List.range m.rows).map m.rowBytes) := by
    refine ext_bit ?_ ?_ (h'.rows_eq.trans hrows.symm) h'.cols_eq ?_
    · rw [h'.length_data, hlen, h'.rows_eq, h'.cols_eq]
    · exact length_ofRows _ _
    intro i _ j hj
    rw [h'.cols_eq] at hj
    rw [Bool.eq_iff_iff, bit_ofRows _ _ _ hj, bit_eq, stride, h'.cols_eq]
    refine (h'.bit_iff i j hj).trans ?_
    by_cases hi : i < m.rows
    · have hrow : ((List.range m.rows).map m.rowBytes).getD i [] = m.rowBytes i := by
        simp [List.getD_eq_getElem?_getD, hi]
      have hused : j < m.cols → j < 8 * usedBytes m.cols := by
        rw [usedBytes]
        omega
      rw [hrow, bit_rowBytes]
      simp only [Bool.and_eq_true, decide_eq_true_eq]
      tauto
    · simp [List.getD_eq_getElem?_getD, hi, Bytes.bit]
  simp only [cleared, blank_ok hs, hcopied, bind, Except.bind, hout, heq]

end

/-- In 64 bits the check takes no step that fails, and it ends as it does on unbounded numbers. -/
theorem ofStorageStepwise_eq {rows cols : Nat} (hrows : rows < UInt64.size)
    (hcols : cols < UInt64.size) (data : Bytes) :
    ofStorageStepwise rows cols data = Outcome.ofError id (ofStorage rows cols data) := by
  unfold ofStorageStepwise ofStorage
  rw [measure_ok hrows hcols, storageSize?]
  by_cases hs : Storable rows cols
  · rw [if_pos hs]
    by_cases hlen : data.length = storageSize rows cols
    · have hcleared := cleared_ok (m := ⟨rows, cols, data⟩) hs hlen
      simp only [Outcome.ofFault, bind, Except.bind, hlen, ne_eq, not_true, if_false, hcleared]
      split <;> rfl
    · simp only [Outcome.ofFault, bind, Except.bind, ne_eq, hlen, not_false_eq_true, if_true]
      rfl
  · rw [if_neg hs]
    rfl

/-! ## What is accepted -/

/-- Some stored bit that is not a cell is set. -/
def PaddingSet (m : BitMatrix) : Prop :=
  ∃ r < padded m.rows, ∃ c < padded m.cols, (m.rows ≤ r ∨ m.cols ≤ c) ∧ m.bit r c = true

instance (m : BitMatrix) : Decidable m.PaddingSet := by
  unfold PaddingSet
  infer_instance

theorem wellFormed_iff {m : BitMatrix} (hlen : m.data.length = storageSize m.rows m.cols) :
    m.WellFormed ↔ ¬m.PaddingSet := by
  constructor
  · rintro h ⟨r, hr, c, hc, houtside, hset⟩
    rw [h.bit_outside r hr c hc houtside] at hset
    cases hset
  · intro h
    refine ⟨hlen, fun r hr c hc houtside => ?_⟩
    rw [← Bool.not_eq_true]
    exact fun hset => h ⟨r, hr, c, hc, houtside, hset⟩

/-- A matrix is accepted as it is, or refused for the first condition that it breaks. -/
def verdict (m : BitMatrix) : Except MatrixError BitMatrix :=
  if ¬Storable m.rows m.cols then .error (.tooLarge m.rows m.cols)
  else if m.data.length ≠ storageSize m.rows m.cols then
    .error (.storageLength m.rows m.cols (storageSize m.rows m.cols) m.data.length)
  else if m.PaddingSet then .error (.paddingBitsSet m.rows m.cols)
  else .ok m

theorem ofStorage_eq_verdict (m : BitMatrix) : ofStorage m.rows m.cols m.data = m.verdict := by
  rw [ofStorage, verdict, storageSize?]
  by_cases hs : Storable m.rows m.cols
  · rw [if_pos hs, if_neg (not_not.2 hs)]
    by_cases hlen : m.data.length = storageSize m.rows m.cols
    · rw [if_neg (not_not.2 hlen)]
      simp only [hlen, ne_eq, not_true, if_false]
      by_cases hwf : m.WellFormed
      · rw [if_pos (ofRows_rowBytes hwf), if_neg ((wellFormed_iff hlen).1 hwf)]
      · -- What the rows give is well-formed, so it is not the matrix.
        have hrows : ofRows m.cols ((List.range m.rows).map m.rowBytes) ≠ m :=
          fun heq => hwf (heq ▸ wellFormed_ofRows _ _)
        rw [if_neg hrows, if_pos (not_not.1 fun h => hwf ((wellFormed_iff hlen).2 h))]
    · rw [if_pos hlen]
      simp only [ne_eq, hlen, not_false_eq_true, if_true]
  · rw [if_neg hs, if_pos hs]

end BitMatrix

/-! ## Matrices in messages and in documents -/

theorem Form.list_read {α : Type} {f : Form α} {l : List α}
    (h : ∀ a ∈ l, f.read (f.write a) = .ok a) : (Form.list f).read ((Form.list f).write l) = .ok l := by
  have hitems : l.mapM (f.read ∘ f.write) = .ok (l.map id) := mapM_map_ok h
  change (l.map f.write).mapM f.read = .ok l
  rw [List.mapM_map, hitems, List.map_id]

theorem Form.uint8_read (b : UInt8) : Form.uint8.read (Form.uint8.write b) = .ok b := by
  have hbyte : (Form.natural UInt8.size).read (.integer (.ofNat b.toNat)) = .ok b.toNat :=
    if_pos b.toNat_lt
  change ((Form.natural UInt8.size).read (.integer (.ofNat b.toNat))).map UInt8.ofNat = .ok b
  rw [hbyte]
  exact congrArg Except.ok UInt8.ofNat_toNat

namespace BitMatrix

theorem partsForm_read {rows cols : Nat} (hrows : rows < UInt64.size) (hcols : cols < UInt64.size)
    (data : Bytes) : partsForm.read (partsForm.write (rows, cols, data)) = .ok (rows, cols, data) := by
  have hcount : ∀ {n : Nat}, n < UInt64.size → Form.count.read (Form.count.write n) = .ok n :=
    fun h => if_pos h
  have hdata := Form.list_read fun b (_ : b ∈ data) => Form.uint8_read b
  change (do
    return (← Form.count.read (Form.count.write rows), ← Form.count.read (Form.count.write cols),
      ← (Form.list Form.uint8).read ((Form.list Form.uint8).write data))) = _
  rw [hcount hrows, hcount hcols, hdata]
  rfl

section

variable {rows cols : Nat} (hrows : rows < UInt64.size) (hcols : cols < UInt64.size) (data : Bytes)

include hrows hcols

theorem codec_decode (hlen : data.length < UInt64.size) (rest : Bytes) :
    codec.decode (Bytes.ofNat 8 rows ++ Bytes.ofNat 8 cols ++ Bytes.ofNat 8 data.length ++ data ++
      rest) = ((ofStorage rows cols data).mapError .matrix).map (·, rest) := by
  have hparts := Codec.pair_faithful Codec.count_faithful (Codec.pair_faithful
    Codec.count_faithful (Codec.list_faithful Codec.uint8_faithful)) (rows, cols, data)
    ⟨hrows, hcols, hlen, fun _ _ => trivial⟩ rest
  have hencode : (Codec.pair Codec.count (Codec.pair Codec.count (Codec.list Codec.uint8))).encode
      (rows, cols, data) =
      Bytes.ofNat 8 rows ++ Bytes.ofNat 8 cols ++ Bytes.ofNat 8 data.length ++ data := by
    change Bytes.ofNat 8 rows ++ (Bytes.ofNat 8 cols ++ (Codec.list Codec.uint8).encode data) = _
    rw [MessageKind.encode_bytes, List.append_assoc, List.append_assoc]
  rw [← hencode]
  simp only [codec, Codec.refine, hparts, bind, Except.bind]
  cases ofStorage rows cols data with
  | ok m => rfl
  | error e => rfl

theorem form_read : form.read (partsForm.write (rows, cols, data)) =
    (ofStorage rows cols data).mapError .matrix := by
  simp only [form, partsForm_read hrows hcols, bind, Except.bind]
  cases ofStorage rows cols data with
  | ok m => rfl
  | error e => rfl

end

/-- A received matrix is accepted as it is, or refused for the first condition that it breaks, in
messages and in documents alike. No step of the check fails, and no built matrix is refused. -/
theorem ofStorage_exact (rows cols : UInt64) (data : Bytes) :
    let m : BitMatrix := ⟨rows.toNat, cols.toNat, data⟩
    ofStorageStepwise m.rows m.cols m.data = Outcome.ofError id m.verdict ∧
      ofStorage m.rows m.cols m.data = m.verdict ∧
      (data.length < UInt64.size → ∀ rest,
        codec.decode (Bytes.ofNat 8 m.rows ++ Bytes.ofNat 8 m.cols ++ Bytes.ofNat 8 data.length ++
          data ++ rest) = (m.verdict.mapError .matrix).map (·, rest)) ∧
      form.read (partsForm.write (m.rows, m.cols, m.data)) = m.verdict.mapError .matrix ∧
      ∀ m, Built m → ofStorage m.rows m.cols m.data = .ok m := by
  intro m
  have hstorage : ofStorage rows.toNat cols.toNat data = m.verdict := ofStorage_eq_verdict m
  have hrows := rows.toNat_lt
  have hcols := cols.toNat_lt
  refine ⟨?_, hstorage, fun hlen rest => ?_, ?_, fun m h => ?_⟩
  · exact hstorage ▸ ofStorageStepwise_eq hrows hcols data
  · exact hstorage ▸ codec_decode hrows hcols data hlen rest
  · exact hstorage ▸ form_read hrows hcols data
  · exact ofStorage_ok h.wellFormed_storable.1 h.wellFormed_storable.2

/-- Three cells, the same with a bit behind the last column, and dimensions that nothing can
store. -/
theorem ofStorage_exact_one_by_three :
    ofStorage 1 3 (7 :: List.replicate 31 0) = .ok ⟨1, 3, 7 :: List.replicate 31 0⟩ ∧
      codec.decode (Bytes.ofNat 8 1 ++ Bytes.ofNat 8 3 ++ Bytes.ofNat 8 32 ++
        (15 :: List.replicate 31 0) ++ []) = .error (.matrix (.paddingBitsSet 1 3)) ∧
      ofStorage (UInt64.size - 1) (UInt64.size - 1) [] =
        .error (.tooLarge (UInt64.size - 1) (UInt64.size - 1)) := by
  refine ⟨?_, ?_, ?_⟩
  · exact (ofStorage_exact 1 3 (7 :: List.replicate 31 0)).2.1.trans (by decide)
  · exact ((ofStorage_exact 1 3 (15 :: List.replicate 31 0)).2.2.1 (by decide) []).trans (by decide)
  · exact (ofStorage_exact (-1) (-1) []).2.1.trans (by decide)

end BitMatrix
end PrivateLift
