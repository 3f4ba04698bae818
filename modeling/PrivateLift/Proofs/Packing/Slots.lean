import PrivateLift.Proofs.Party.Ending
import PrivateLift.Proofs.UnionMap.Positions

/-!
# Every row in its slot

Packing reads a union map backwards: slot `p` gets the row whose entry is `p`. The map only has to
be valid and to stay within the union. What a slot holds is then fixed by the columns as they were
given, however short, long or ragged they are (`LocalInput.encodedRow`, `pack_slots`). The common
rows are picked through the same map, so its order is gone from what is picked (`selectRows_pack`).
-/

namespace PrivateLift

namespace RowSource

open IndexMap

variable {input : LocalInput} {c : Config} {source : RowSource} {map u v : IndexMap}
  {owners : List Nat}

/-! ## Packing -/

/-- A valid map with `k` positions gives `k` rows of one width, and every row with a position is in
the slot of this position. -/
theorem pack_slots (hsource : ofInput input c = .ok source) {k : Nat} (hvalid : map.validate = .ok k)
    (hlen : map.length ≤ input.unionSize) :
    ∃ rows, source.pack map = .ok rows ∧ rows.length = k ∧
      (∀ row ∈ rows, row.length = source.rowWidth) ∧
      (∀ i entry, map[i]? = some entry → 0 ≤ entry.toInt →
        ∃ row, rows[entry.toInt.toNat]? = some row ∧ input.encodedRow c i = .ok row) ∧
      (source.rowWidth < UInt64.size → ∀ {ε : Type} (calls : List (Call ε)) o,
        PartyStep.Ends (packRows source (input.role.layout c.conversionsPerUser) map) calls o ↔
          calls = [] ∧ o = .ok rows) := by
  have hnumbers := IndexMap.numbers_of_validate hvalid
  have hunion : ∀ i ∈ map.byPosition k, i < input.unionSize :=
    fun i hi => Nat.lt_of_lt_of_le (hnumbers.lt_of_mem hi) hlen
  have hpack := pack_numbers hsource hnumbers hlen
  refine ⟨_, hpack, by simp, ?_, ?_, ?_⟩
  · intro row hrow
    obtain ⟨i, hi, rfl⟩ := List.mem_map.1 hrow
    exact (packRow_ok hsource (hunion i hi)).2.trans (ofInput_inv hsource).2.symm
  · intro i entry hentry hset
    rcases hnumbers.entry_cases hentry with ⟨-, rfl⟩ | ⟨p, hp, rfl, -, hle⟩
    · exact absurd hset (by decide)
    · refine ⟨source.rowAt i, ?_, encodedRow_eq hsource (hunion i (List.mem_of_getElem? hp))⟩
      rw [IndexMap.toInt_ofNat hle, Int.toNat_natCast, List.getElem?_map, hp]
      rfl
  · intro hwidth ε calls o
    rw [(ofInput_inv hsource).2] at hwidth
    rw [← bind_pure (packRows source _ map), ends_packRows_bind hpack (labels_ok hwidth),
      PartyStep.ends_pure]

/-- A timestamp behind the last slot and a value of 33 bits, in rows of which the first is packed
last. -/
theorem pack_slots_overlong_list :
    let q : PartnerInput :=
      { purchaseTimestamps := [[0, 3, 9]], purchaseValues := [[4294967303]],
        dummyRows := [false, true, false] }
    let c : Config := ⟨.partner, 2, 10⟩
    q.recordAt c 0 = ⟨true, 0, [⟨0, 0, 7, 0⟩, ⟨3, 13, 0, 0⟩]⟩ ∧
      ∃ source rows row, ofInput (.partner q) c = .ok source ∧ source.pack [1, -1, 0] = .ok rows ∧
        rows.length = 2 ∧ rows[1]? = some row ∧ (LocalInput.partner q).encodedRow c 0 = .ok row := by
  intro q c
  have hsource : ∃ source, ofInput (.partner q) c = .ok source := ⟨_, rfl⟩
  obtain ⟨source, hsource⟩ := hsource
  obtain ⟨rows, hpack, hlen, -, hslots, -⟩ :=
    pack_slots hsource (show IndexMap.validate [1, -1, 0] = .ok 2 from rfl) (by decide)
  obtain ⟨row, hrow, hrecord⟩ := hslots 0 1 rfl (by decide)
  exact ⟨by decide, source, rows, row, hsource, hpack, hlen, hrow, hrecord⟩

/-! ## Packed and picked again -/

/-- The common rows, picked from the packed ones, are the rows of the union in ascending order. -/
theorem pack_select (hsource : ofInput input c = .ok source) (hu : u.Numbers owners)
    (hlen : u.length = v.length) (hunion : u.length ≤ input.unionSize) :
    ∃ rows selected, source.pack u = .ok rows ∧
      selectRows rows u (intersect u v) = .ok selected ∧
      (setRows (intersect u v)).mapM (input.encodedRow c) = .ok selected := by
  have hset := hu.setRows_intersect_eq hlen
  have howned : ∀ i ∈ setRows (intersect u v), i ∈ owners := by
    intro i hi
    rw [hset, List.mem_filter, decide_eq_true_eq] at hi
    exact Classical.not_not.1 fun hnot => hi.2.1 (hu.getD_eq_unset_iff.2 hnot)
  refine ⟨_, _, pack_numbers hsource hu hunion, selectRows_ok hu ?_ howned rfl, ?_⟩
  · rw [length_intersect, ← hlen, Nat.min_self]
  · apply mapM_map_ok
    intro i hi
    exact encodedRow_eq hsource (Nat.lt_of_lt_of_le (hu.lt_of_mem (howned i hi)) hunion)

/-- The rows that remain are those of both parties in union order, whatever the order of the own
map is. Of the map of the peer it only matters which rows it sets. -/
theorem selectRows_pack (hsource : ofInput input c = .ok source) {k : Nat}
    (hu : u.validate = .ok k) (hunion : u.length = input.unionSize) (hlen : v.length = u.length) :
    intersect u v = intersect v u ∧
    (intersect u v).length = u.length ∧
    (∀ i < u.length, 0 ≤ ((intersect u v).getD i unset).toInt ↔
      u.getD i unset ≠ unset ∧ v.getD i unset ≠ unset) ∧
    ((intersect u v).filter (0 ≤ ·.toInt)).map Int32.toInt =
      (List.range (intersect u v).setCount).map Int.ofNat ∧
    (intersect u v).validate = .ok (intersect u v).setCount ∧
    ∃ rows selected, source.pack u = .ok rows ∧
      selectRows rows u (intersect u v) = .ok selected ∧
      ((List.range u.length).filter fun i => u.getD i unset ≠ unset ∧ v.getD i unset ≠ unset).mapM
        (input.encodedRow c) = .ok selected ∧
      ∀ u' k', u'.validate = .ok k' → u'.length = u.length →
        (∀ i, u'.getD i unset = unset ↔ u.getD i unset = unset) →
        ∃ rows', source.pack u' = .ok rows' ∧
          selectRows rows' u' (intersect u' v) = .ok selected := by
  have hnumbers := numbers_of_validate hu
  have hcommon := hnumbers.intersect hlen.symm
  have hset := hnumbers.setRows_intersect_eq hlen.symm
  have hlength : (intersect u v).length = u.length := by
    rw [length_intersect, hlen, Nat.min_self]
  refine ⟨intersectFrom_comm 0 u v, hlength, ?_, hcommon.map_toInt, ?_, ?_⟩
  · intro i hi
    rw [← hlength] at hi
    have hentry : (intersect u v).getD i unset ∈ intersect u v := by
      rw [List.getD_eq_getElem _ _ hi]
      exact List.getElem_mem hi
    rw [hcommon.nonneg_iff hentry, ne_eq, hcommon.getD_eq_unset_iff, Classical.not_not, hset,
      List.mem_filter, List.mem_range, decide_eq_true_eq, and_iff_right (hlength ▸ hi)]
  · rw [hcommon.validate_ok, ← setCount_eq]
  · obtain ⟨rows, selected, hpack, hselect, hrecords⟩ :=
      pack_select hsource hnumbers hlen.symm hunion.le
    refine ⟨rows, selected, hpack, hselect, hset ▸ hrecords, ?_⟩
    intro u' k' hu' hlen' hunset
    obtain ⟨rows', selected', hpack', hselect', hrecords'⟩ :=
      pack_select hsource (numbers_of_validate hu') (hlen'.trans hlen.symm)
        (hlen'.trans hunion).le
    have hset' : setRows (intersect u' v) = setRows (intersect u v) := by
      rw [hset, (numbers_of_validate hu').setRows_intersect_eq (hlen'.trans hlen.symm), hlen']
      simp only [ne_eq, hunset]
    rw [hset', hrecords] at hrecords'
    exact ⟨rows', hpack', hselect'.trans hrecords'.symm⟩

/-- The own rows in either order, and a peer that has all three rows. -/
theorem selectRows_pack_either_order :
    let input : LocalInput :=
      .publisher { testPopulation := [true], dummyRows := [false, true, false] }
    ∃ source rows rows' selected, ofInput input ⟨.publisher, 2, 10⟩ = .ok source ∧
      source.pack [1, -1, 0] = .ok rows ∧ source.pack [0, -1, 1] = .ok rows' ∧
      selectRows rows [1, -1, 0] [0, -1, 1] = .ok selected ∧
      selectRows rows' [0, -1, 1] [0, -1, 1] = .ok selected ∧
      [0, 2].mapM (input.encodedRow ⟨.publisher, 2, 10⟩) = .ok selected := by
  intro input
  have hsource : ∃ source, ofInput input ⟨.publisher, 2, 10⟩ = .ok source := ⟨_, rfl⟩
  obtain ⟨source, hsource⟩ := hsource
  obtain ⟨-, -, -, -, -, rows, selected, hpack, hselect, hrecords, hsame⟩ :=
    selectRows_pack hsource (show IndexMap.validate [1, -1, 0] = .ok 2 from rfl) rfl
      (show List.length [2, 0, 1] = 3 from rfl)
  have hunset : ∀ i, List.getD [0, -1, 1] i unset = unset ↔ List.getD [1, -1, 0] i unset = unset := by
    intro i
    rcases i with _ | _ | _ | i <;> simp [unset]
  obtain ⟨rows', hpack', hselect'⟩ := hsame [0, -1, 1] 2 rfl rfl hunset
  exact ⟨source, rows, rows', selected, hsource, hpack, hpack', hselect, hselect', hrecords⟩

end RowSource

end PrivateLift
