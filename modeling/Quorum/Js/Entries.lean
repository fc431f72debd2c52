import Quorum.Js.Dict

/-!
# Maps and their entries

A map is made of its entries: writing them one after the other gives the map, and two maps that list
the same keys and answer alike are the same.
-/

namespace Js.Dict

variable {K V : Type} [BEq K] [LawfulBEq K]

/-- Two maps that list the same keys are the same if they answer alike. -/
theorem eq_of_keys {m m' : Dict K V} (hkeys : m.keys = m'.keys)
    (hget : ∀ k, m.get? k = m'.get? k) : m = m' := by
  have hentries (m : Dict K V) : m.entries.map (fun p => (p.1, some p.2)) =
      m.keys.map fun k => (k, m.get? k) := by
    unfold keys
    rw [List.map_map]
    refine List.map_congr_left fun p hp => ?_
    rw [Function.comp_apply, mem_entries_iff.mp hp]
  have hinj : Function.Injective fun p : K × V => (p.1, some p.2) := by
    rintro ⟨k, v⟩ ⟨k', v'⟩ h
    simpa using h
  refine ext (List.map_injective_iff.mpr hinj ?_)
  rw [hentries, hentries, hkeys]
  exact List.map_congr_left fun k _ => by rw [hget]

omit [LawfulBEq K] in
@[simp] theorem keys_mapValues {W : Type} (m : Dict K V) (f : K → V → W) : (m.mapValues f).keys = m.keys := by
  simp [keys, mapValues, Function.comp_def]

/-- Writing the entries of a map one after the other gives the map. -/
theorem setAll_entries (d : Dict K V) :
    empty.setAll d.entries = d := by
  have key : ∀ l done : List (K × V), ∀ h : (done ++ l).Pairwise (fun a b => (a.1 == b.1) = false),
      Dict.setAll ⟨done, (List.pairwise_append.mp h).1⟩ l = ⟨done ++ l, h⟩ := by
    intro l
    induction l with
    | nil =>
      intro done h
      apply Dict.ext
      simp [Dict.setAll]
    | cons p l ih =>
      intro done h
      have hcons : (done ++ [p] ++ l).Pairwise (fun a b => (a.1 == b.1) = false) := by
        simpa using h
      have hnot : Dict.has ⟨done, (List.pairwise_append.mp h).1⟩ p.1 = false := by
        refine List.any_eq_false.mpr fun q hq => ?_
        simpa using (List.pairwise_append.mp h).2.2 q hq p (.head _)
      have hset : Dict.set ⟨done, (List.pairwise_append.mp h).1⟩ p.1 p.2 =
          ⟨done ++ [p], (List.pairwise_append.mp hcons).1⟩ := by
        apply Dict.ext
        rw [Dict.entries_set, hnot]
        rfl
      change Dict.setAll (Dict.set _ p.1 p.2) l = _
      rw [hset, ih (done ++ [p]) hcons]
      apply Dict.ext
      simp
  exact key d.entries [] d.distinct

end Js.Dict
