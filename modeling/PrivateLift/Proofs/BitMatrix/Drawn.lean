import PrivateLift.Proofs.BitMatrix.Storage

/-!
# Every matrix can be drawn

The words that a stream would have to hold for a matrix to be drawn can be read off the rows of the
matrix: a row begins with a fresh word, and four bytes make a word (`random_spelling`). So no
well-formed matrix is left out by `random`.
-/

namespace PrivateLift

/-! ## Words that spell byte strings -/

namespace WordStream

theorem length_flatMap_ofNat (f : Nat → Nat) (words : Nat) :
    ((List.range words).flatMap fun i => Bytes.ofNat 4 (f i)).length = 4 * words := by
  induction words with
  | zero => rfl
  | succ words ih =>
    rw [List.range_succ, List.flatMap_append, List.length_append, ih, List.flatMap_singleton,
      Bytes.length_ofNat]
    omega

theorem bit_flatMap_ofNat (f : Nat → Nat) {words k : Nat} (hk : k < 32 * words) :
    Bytes.bit ((List.range words).flatMap fun i => Bytes.ofNat 4 (f i)) k =
      (f (k / 32)).testBit (k % 32) := by
  induction words with
  | zero => omega
  | succ words ih =>
    rw [List.range_succ, List.flatMap_append, Bytes.bit_append, length_flatMap_ofNat]
    split
    next hlt => exact ih (by omega)
    next =>
      have hword : k / 32 = words := by omega
      have hbit : k - 8 * (4 * words) = k % 32 := by omega
      have hlast : k % 32 < 8 * 4 := by omega
      rw [List.flatMap_singleton, Bytes.bit_ofNat, hbit, hword]
      simp [hlast]

/-- A stream that spells byte strings of one length, each from a fresh word on. -/
def spelling (length : Nat) (rows : List Bytes) : WordStream :=
  let words := (length + 3) / 4
  ⟨fun n => UInt32.ofNat ((rows.getD (n / words) []).word (4 * (n % words)) 4), 0⟩

/-- The stream before the byte string `r`. -/
def spellingAt (length : Nat) (rows : List Bytes) (r : Nat) : WordStream :=
  { spelling length rows with drawn := r * ((length + 3) / 4) }

theorem bytes_spelling {length : Nat} {rows : List Bytes} {r : Nat} {row : Bytes}
    (hrow : rows[r]? = some row) (hlen : row.length = length) :
    (spellingAt length rows r).bytes length = (row, spellingAt length rows (r + 1)) := by
  have hdrawn : (r + 1) * ((length + 3) / 4) = r * ((length + 3) / 4) + (length + 3) / 4 :=
    Nat.succ_mul r _
  simp only [bytes, spellingAt, spelling, hdrawn, Prod.mk.injEq, and_true]
  apply Bytes.ext_bit
  · rw [List.length_take, length_flatMap_ofNat]
    omega
  intro k hk
  rw [List.length_take, length_flatMap_ofNat] at hk
  have hword : k / 32 < (length + 3) / 4 := by omega
  have hpos : 0 < (length + 3) / 4 := by omega
  have hdiv : (r * ((length + 3) / 4) + k / 32) / ((length + 3) / 4) = r := by
    rw [Nat.mul_comm, Nat.mul_add_div hpos, Nat.div_eq_of_lt hword, Nat.add_zero]
  have hmod : (r * ((length + 3) / 4) + k / 32) % ((length + 3) / 4) = k / 32 := by
    rw [Nat.mul_comm, Nat.mul_add_mod, Nat.mod_eq_of_lt hword]
  have hinside : k < 8 * length := by omega
  have hbit : 8 * (4 * (k / 32)) + k % 32 = k := by omega
  have hlast : k % 32 < 32 := by omega
  rw [Bytes.bit_take, bit_flatMap_ofNat _ (by omega), hdiv, hmod, List.getD_eq_getElem?_getD, hrow,
    Option.getD_some, UInt32.toNat_ofNat', Nat.testBit_mod_two_pow, Bytes.testBit_word, hbit]
  simp [hinside, hlast]

end WordStream

namespace BitMatrix

open WordStream

theorem drawRows_spelling {length : Nat} {rows : List Bytes}
    (hlen : ∀ row ∈ rows, row.length = length) (count : Nat) {r : Nat}
    (hcount : r + count = rows.length) :
    (drawRows length count (spellingAt length rows r)).1 = rows.drop r := by
  induction count generalizing r with
  | zero =>
    rw [List.drop_of_length_le (by omega)]
    rfl
  | succ count ih =>
    have hr : r < rows.length := by omega
    have hrow : rows[r]? = some rows[r] := List.getElem?_eq_getElem hr
    have hrest := ih (r := r + 1) (by omega)
    rw [drawRows, bytes_spelling hrow (hlen _ (List.getElem_mem hr)), List.drop_eq_getElem_cons hr]
    exact congrArg (rows[r] :: ·) hrest

/-- A well-formed matrix is drawn from the words that spell its rows. -/
theorem random_spelling {m : BitMatrix} (h : m.WellFormed) (hs : Storable m.rows m.cols) :
    ∃ s rest, random m.rows m.cols s = .ok (m, rest) := by
  have hlen : ∀ row ∈ (List.range m.rows).map m.rowBytes, row.length = usedBytes m.cols := by
    intro row hrow
    obtain ⟨r, hr, rfl⟩ := List.mem_map.1 hrow
    exact length_rowBytes h.length_data (List.mem_range.1 hr)
  have hdrawn := drawRows_spelling hlen m.rows (r := 0) (by simp)
  rw [List.drop_zero] at hdrawn
  have hrandom := random_eq hs
    (spellingAt (usedBytes m.cols) ((List.range m.rows).map m.rowBytes) 0)
  rw [hdrawn, ofRows_rowBytes h] at hrandom
  exact ⟨_, _, hrandom⟩

end BitMatrix

end PrivateLift
