import PrivateLift.Proofs.BitMatrix.Built

/-!
# The loop over the blocks

A transposition can also be run as a loop: block after block is loaded, and eight times the top bits
of its bytes are written to the storage of the result and its bits are moved one place up
(`transposeByBlocks`). Every write puts a byte of the transposed storage in its place (`Replaces`),
and the writes of all blocks together reach every byte, so the loop ends with the transposed storage
whatever the order of the writes is (`transposeByBlocks_eq`). `transpose_exact` states what that
storage is.
-/

namespace PrivateLift

/-! ## Loops that replace bytes -/

/-- The step replaces the bytes at the given positions by those of `target` and keeps the others. -/
def Replaces (target : Bytes) (at? : Nat → Prop) (step : Bytes → Bytes) : Prop :=
  ∀ out : Bytes, out.length = target.length → (step out).length = target.length ∧
    ∀ i, (at? i → (step out)[i]? = target[i]?) ∧ (¬at? i → (step out)[i]? = out[i]?)

namespace Replaces

variable {target : Bytes} {P Q : Nat → Prop} {f g : Bytes → Bytes}

theorem keep : Replaces target (fun _ => False) (·) :=
  fun _ hout => ⟨hout, fun _ => ⟨False.elim, fun _ => rfl⟩⟩

theorem set {i : Nat} {byte : UInt8} (h : target[i]? = some byte) :
    Replaces target (· = i) (·.set i byte) := by
  intro out hout
  refine ⟨by rw [List.length_set, hout], fun j => ⟨?_, fun hj => ?_⟩⟩
  · rintro rfl
    have hj : j < out.length := by
      rw [hout]
      exact (List.getElem?_eq_some_iff.1 h).1
    rw [List.getElem?_set_self hj, h]
  · exact List.getElem?_set_ne (Ne.symm hj)

/-- Whatever the second step replaces again was right already. -/
theorem comp (hf : Replaces target P f) (hg : Replaces target Q g) :
    Replaces target (fun i => P i ∨ Q i) (fun out => g (f out)) := by
  intro out hout
  obtain ⟨hlen, hf⟩ := hf out hout
  obtain ⟨hlen', hg⟩ := hg (f out) hlen
  refine ⟨hlen', fun i => ⟨fun hi => ?_, fun hi => ?_⟩⟩
  · by_cases hq : Q i
    · exact (hg i).1 hq
    · rw [(hg i).2 hq, (hf i).1 (hi.resolve_right hq)]
  · rw [(hg i).2 fun hq => hi (.inr hq), (hf i).2 fun hp => hi (.inl hp)]

theorem congr (hf : Replaces target P f) (h : ∀ i, P i ↔ Q i) : Replaces target Q f := by
  rwa [← funext fun i => propext (h i)]

theorem foldl_range {at? : Nat → Nat → Prop} {step : Bytes → Nat → Bytes} {n : Nat}
    (h : ∀ k < n, Replaces target (at? k) (step · k)) :
    Replaces target (fun i => ∃ k < n, at? k i) (fun out => (List.range n).foldl step out) := by
  induction n with
  | zero => exact keep.congr fun i => by simp
  | succ n ih =>
    have hboth := (ih fun k hk => h k (Nat.lt_succ_of_lt hk)).comp (h n (Nat.lt_succ_self n))
    simp only [List.range_succ, List.foldl_append, List.foldl_cons, List.foldl_nil]
    exact hboth.congr fun i => Nat.exists_lt_succ_right.symm

theorem eq_target (hf : Replaces target P f) (h : ∀ i < target.length, P i) {out : Bytes}
    (hout : out.length = target.length) : f out = target := by
  obtain ⟨hlen, hf⟩ := hf out hout
  apply List.ext_getElem?
  intro i
  by_cases hi : i < target.length
  · exact (hf i).1 (h i hi)
  · rw [List.getElem?_eq_none (by omega), List.getElem?_eq_none (by omega)]

end Replaces

/-! ## The loop -/

/-- Writes the columns of a block from column `count - 1` down to column 0, where the bits have been
moved up so that column `count - 1` is on top. -/
def Block.writeColumns (position : Nat → Nat) : (count : Nat) → Block → Bytes → Bytes
  | 0, _, out => out
  | c + 1, b, out =>
    let top := b.moveMask
    b.shiftLeft.writeColumns position c
      ((out.set (position c) top.toUInt8).set (position c + 1) (top >>> 8).toUInt8)

theorem Block.replaces_writeColumns {target : Bytes} {position : Nat → Nat} (b : Block)
    (count : Nat) (hcount : count ≤ 8)
    (hlow : ∀ c < count, target[position c]? = some (b.column c).toUInt8)
    (hhigh : ∀ c < count, target[position c + 1]? = some (b.column c >>> 8).toUInt8) :
    Replaces target (fun i => ∃ c < count, i = position c ∨ i = position c + 1)
      ((b.shiftLeftBy (8 - count)).writeColumns position count) := by
  induction count with
  | zero => exact Replaces.keep.congr fun i => by simp
  | succ c ih =>
    have hmoved : (b.shiftLeftBy (8 - (c + 1))).shiftLeft = b.shiftLeftBy (8 - c) := by
      have hstep : 8 - c = 8 - (c + 1) + 1 := by omega
      rw [hstep]
      rfl
    have hc : c < c + 1 := Nat.lt_succ_self c
    have hfirst := (Replaces.set (hlow c hc)).comp (Replaces.set (hhigh c hc))
    have hrest := ih (by omega) (fun k hk => hlow k (by omega)) (fun k hk => hhigh k (by omega))
    -- After `7 - c` moves column `c` is on top.
    have htop : (b.shiftLeftBy (8 - (c + 1))).moveMask = b.column c := by
      have hplace : 8 - (c + 1) = 7 - c := by omega
      rw [hplace]
      rfl
    simp only [writeColumns, hmoved, htop]
    exact (hfirst.comp hrest).congr fun i => by rw [Nat.exists_lt_succ_right, or_comm]

namespace BitMatrix

def writeBlock (data : Bytes) (rows cols r c : Nat) (out : Bytes) : Bytes :=
  (loadBlock data.toArray (cols / 8) r c).writeColumns
    (fun k => (8 * c + k) * (rows / 8) + 2 * r) 8 out

/-- The storage that is left when all blocks have been written to zeros. -/
def transposeByBlocks (data : Bytes) (rows cols : Nat) : Bytes :=
  (List.range (rows / 16)).foldl
    (fun out r =>
      (List.range (cols / 8)).foldl (fun out c => writeBlock data rows cols r c out) out)
    (List.replicate data.length 0)

theorem replaces_writeBlock (data : Bytes) {rows cols r c : Nat} (hrows : rows % 16 = 0)
    (hcols : cols % 16 = 0) (hr : r < rows / 16) (hc : c < cols / 8) :
    Replaces (transposeStorage data rows cols)
      (fun i => ∃ k < 8, i = (8 * c + k) * (rows / 8) + 2 * r ∨
        i = (8 * c + k) * (rows / 8) + 2 * r + 1)
      (writeBlock data rows cols r c) := by
  refine (loadBlock data.toArray (cols / 8) r c).replaces_writeColumns 8 (Nat.le_refl 8)
    (fun k hk => ?_) fun k hk => ?_
  · have hstored := getElem?_transposeStorage data (c := 8 * c + k) (k := 2 * r) hrows hcols
      (by omega) (by omega)
    have hrow : 2 * r / 2 = r := by omega
    have hcol : (8 * c + k) / 8 = c := by omega
    have hbit : (8 * c + k) % 8 = k := by omega
    rw [hstored, hrow, hcol, hbit, if_pos (by omega)]
  · have hstored := getElem?_transposeStorage data (c := 8 * c + k) (k := 2 * r + 1) hrows hcols
      (by omega) (by omega)
    have hrow : (2 * r + 1) / 2 = r := by omega
    have hcol : (8 * c + k) / 8 = c := by omega
    have hbit : (8 * c + k) % 8 = k := by omega
    rw [Nat.add_assoc, hstored, hrow, hcol, hbit, if_neg (by omega)]

theorem transposeByBlocks_eq {data : Bytes} {rows cols : Nat} (hrows : rows % 16 = 0)
    (hcols : cols % 16 = 0) (hlen : data.length = cols * (rows / 8)) :
    transposeByBlocks data rows cols = transposeStorage data rows cols := by
  have hall := Replaces.foldl_range fun r hr => Replaces.foldl_range fun c hc =>
    replaces_writeBlock data hrows hcols (r := r) (c := c) hr hc
  refine hall.eq_target (fun i hi => ?_)
    (by rw [List.length_replicate, length_transposeStorage, hlen])
  -- Byte `i` is byte `i % (rows / 8)` of row `i / (rows / 8)` of the result.
  rw [length_transposeStorage] at hi
  have hpos : 0 < rows / 8 := Nat.pos_of_ne_zero fun h0 => by simp [h0] at hi
  have hrow : i / (rows / 8) < cols := Nat.div_lt_of_lt_mul (by rwa [Nat.mul_comm])
  have hbyte : i % (rows / 8) < rows / 8 := Nat.mod_lt i hpos
  have hi' := Nat.div_add_mod' i (rows / 8)
  refine ⟨i % (rows / 8) / 2, by omega, i / (rows / 8) / 8, by omega, i / (rows / 8) % 8, by omega,
    ?_⟩
  rw [Nat.div_add_mod]
  omega

/-- Transposing a well-formed matrix moves every cell, those of the padding included, to its mirror
place, and nothing else: doing it twice restores the matrix with its storage. -/
theorem transpose_exact {m : BitMatrix} (h : m.WellFormed) :
    m.transpose.rows = m.cols ∧ m.transpose.cols = m.rows ∧
      (∀ r < m.rows, ∀ c < m.cols, ∃ on, m.get r c = .ok on ∧ m.transpose.get c r = .ok on) ∧
      m.transpose.WellFormed ∧ m.transpose.transpose = m ∧
      (∀ r < padded m.rows, ∀ c < padded m.cols, m.transpose.bit c r = m.bit r c) ∧
      m.transpose.data = transposeByBlocks m.data (padded m.rows) (padded m.cols) := by
  have hbit : ∀ r < padded m.rows, ∀ c < padded m.cols, m.transpose.bit c r = m.bit r c :=
    fun r hr c hc => bit_transpose m hr hc
  have hwf := wellFormed_transpose h
  refine ⟨rfl, rfl, fun r hr c hc => ?_, hwf, ?_, hbit, ?_⟩
  · refine ⟨m.bit r c, get_eq_bit hr hc, ?_⟩
    rw [get_eq_bit (m := m.transpose) hc hr,
      hbit r (Nat.lt_of_lt_of_le hr (le_padded _)) c (Nat.lt_of_lt_of_le hc (le_padded _))]
  · refine ext_bit (length_transpose _) h.length_data rfl rfl fun r hr c hc => ?_
    rw [bit_transpose m.transpose hc hr, hbit r hr c hc]
  · refine (transposeByBlocks_eq (padded_mod _) (padded_mod _) ?_).symm
    rw [h.length_data, storageSize, Nat.mul_comm]
    exact storageSize_eq m.cols m.rows

theorem transpose_exact_three_by_ten :
    (ofRows 10 [[1, 2], [255, 3], [0, 1]]).WellFormed ∧
      (ofRows 10 [[1, 2], [255, 3], [0, 1]]).transpose.rows = 10 ∧
      (ofRows 10 [[1, 2], [255, 3], [0, 1]]).transpose.WellFormed ∧
      (ofRows 10 [[1, 2], [255, 3], [0, 1]]).transpose.transpose =
        ofRows 10 [[1, 2], [255, 3], [0, 1]] ∧
      (ofRows 10 [[1, 2], [255, 3], [0, 1]]).transpose.get 9 1 = .ok true := by
  have hwf := wellFormed_ofRows 10 [[1, 2], [255, 3], [0, 1]]
  obtain ⟨hrows, -, -, hwf', htwice, -, -⟩ := transpose_exact hwf
  exact ⟨hwf, hrows, hwf', htwice, by decide +kernel⟩

end BitMatrix

end PrivateLift
