import PrivateLift.Proofs.BitMatrix.Built
import PrivateLift.Proofs.Share

/-!
# Sharing loses nothing

`share_lossless`: rows of at least the shared width come back byte by byte from the byte strings of
both shares, and bit by bit from the cells of both matrices. Every width is allowed, but rows whose
matrix cannot be stored are not shared, and for a large width this holds even without any row
(`share_refuses_no_rows`).
-/

namespace PrivateLift.RowShares

open BitMatrix

variable {a b : RowShares} {rows : List Bytes} {width : Nat}

/-- Bit `k` of a shared row is the exclusive or of the cells of both shares in row `k` and in the
column of the row. -/
theorem Splits.get_xor (h : Splits a b rows width) {j k : Nat} {row : Bytes}
    (hrow : rows[j]? = some row) (hk : k < 8 * width) :
    ∃ x y, a.bits.get k j = .ok x ∧ b.bits.get k j = .ok y ∧ (x ^^ y) = Bytes.bit row k := by
  obtain ⟨hj, -⟩ := List.getElem?_eq_some_iff.1 hrow
  have hja : j < a.batchSize := h.batchSize_left ▸ hj
  have hjb : j < b.batchSize := h.batchSize_right ▸ hj
  have hka : k < a.rowBits := h.rowBits_left ▸ hk
  have hkb : k < b.rowBits := h.rowBits_right ▸ hk
  have hia : j < a.toByteRows.length := by rwa [length_toByteRows]
  have hib : j < b.toByteRows.length := by rwa [length_toByteRows]
  have hlen : a.toByteRows[j].length = b.toByteRows[j].length := by
    rw [length_of_mem_toByteRows (List.getElem_mem hia),
      length_of_mem_toByteRows (List.getElem_mem hib), h.rowBits_left, h.rowBits_right]
  have hreveal : a.toByteRows[j].xor b.toByteRows[j] = row.take width := by
    have hentry := congrArg (·[j]?) h.reveal
    simp only [List.getElem?_zipWith, List.getElem?_eq_getElem hia, List.getElem?_eq_getElem hib,
      List.getElem?_map, hrow] at hentry
    exact Option.some.inj hentry
  refine ⟨_, _, get_eq_bit hka hja, get_eq_bit hkb hjb, ?_⟩
  rw [← bit_toByteRows a hia hka, ← bit_toByteRows b hib hkb, ← Bytes.bit_xor hlen,
    hreveal, Bytes.bit_take]
  simp [hk]

/-- Whatever words are drawn, the two shares of rows give the rows back. -/
theorem share_lossless (hw : ∀ row ∈ rows, width ≤ row.length) (s : WordStream) :
    (Storable rows.length (8 * width) →
      ∃ a b rest, share rows width s = .ok (a, b, rest) ∧ Splits a b rows width ∧
        ∀ j row, rows[j]? = some row → ∀ k < 8 * width,
          ∃ x y, a.bits.get k j = .ok x ∧ b.bits.get k j = .ok y ∧ (x ^^ y) = Bytes.bit row k) ∧
    (¬Storable rows.length (8 * width) → share rows width s = .error .sizeOverflow) := by
  refine ⟨fun hs => ?_, fun hs => share_error hs s⟩
  obtain ⟨a, b, rest, hshare, hsplits⟩ := share_ok hs hw s
  exact ⟨a, b, rest, hshare, hsplits, fun j row hrow k hk => hsplits.get_xor hrow hk⟩

/-- Three rows, one of them longer than the two bytes that are shared. The top bit of the last row
is in row 15 and column 2 of the shares. -/
theorem share_lossless_three_rows :
    let rows : List Bytes := [[1, 2], [3, 4, 5], [0xff, 0x80]]
    (∀ row ∈ rows, 2 ≤ row.length) ∧ Storable rows.length (8 * 2) ∧
      ∃ a b rest, share rows 2 (.cyclic #[7, 11]) = .ok (a, b, rest) ∧ Splits a b rows 2 ∧
        ∃ x y, a.bits.get 15 2 = .ok x ∧ b.bits.get 15 2 = .ok y ∧ (x ^^ y) = true := by
  intro rows
  have hw : ∀ row ∈ rows, 2 ≤ row.length := by decide
  have hs : Storable rows.length (8 * 2) := by decide
  obtain ⟨a, b, rest, hshare, hsplits, hcells⟩ := (share_lossless hw (.cyclic #[7, 11])).1 hs
  exact ⟨hw, hs, a, b, rest, hshare, hsplits, hcells 2 [0xff, 0x80] rfl 15 (by decide)⟩

/-- No row is shorter than 2^57 bytes in an empty batch, which still is not shared: a matrix without
rows is padded to 16 rows, of 2^60 bits here, and so many positions do not fit into 64 bits. -/
theorem share_refuses_no_rows :
    (∀ row ∈ ([] : List Bytes), 0x200000000000000 ≤ row.length) ∧
      share [] 0x200000000000000 (.cyclic #[7, 11]) = .error .sizeOverflow := by
  have hs : ¬Storable ([] : List Bytes).length (8 * 0x200000000000000) := by decide
  exact ⟨fun row hrow => absurd hrow List.not_mem_nil, share_error hs _⟩

end PrivateLift.RowShares
