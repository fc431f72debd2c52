import Quorum.ChanKeys
import Quorum.Js.Except

/-!
# Well-formed views of a channel

A `View` is what the key fields of an ordinary entry say, with its well-formedness as fields: the
log id and all keys are non-empty strings, and every other log has a key and a greater id.
`View.merge` is the merge at this level: it keeps every key and every log id, and its write log and
key are the lexicographic minimum of the two sides'.
-/

namespace Quorum

open Js

/-! ### What has been noted -/

section

variable {K : Type} [BEq K] [LawfulBEq K] {truthy : K → Bool}

/-- A key noted against a log. -/
def Noted (logs : Dict K (List K)) (hid k : K) : Prop := ∃ l, logs.get? hid = some l ∧ k ∈ l

theorem get?_note (truthy : K → Bool) (logs : Dict K (List K)) (p : K × List K) (hid : K) :
    (note truthy logs p).get? hid =
      if truthy p.1 && p.1 == hid then
        some ((p.2.filter truthy).foldl insertNew ((logs.get? hid).getD []))
      else logs.get? hid := by
  unfold note
  cases ht : truthy p.1 with
  | false => rfl
  | true =>
    rw [if_pos rfl, Dict.get?_set, Bool.true_and]
    split
    next hk => rw [eq_of_beq hk]
    next => rfl

theorem noted_note {logs : Dict K (List K)} {p : K × List K} {hid k : K} :
    Noted (note truthy logs p) hid k ↔ Noted logs hid k ∨
      (truthy p.1 = true ∧ p.1 = hid ∧ k ∈ p.2 ∧ truthy k = true) := by
  unfold Noted
  rw [get?_note]
  by_cases h : (truthy p.1 && p.1 == hid) = true
  · rw [if_pos h]
    rw [Bool.and_eq_true, beq_iff_eq] at h
    obtain ⟨ht, rfl⟩ := h
    simp only [Option.some.injEq, exists_eq_left', mem_foldl_insertNew, List.mem_filter, ht,
      true_and]
    refine or_congr_left ?_
    cases logs.get? p.1 <;> simp
  · rw [if_neg h]
    rw [Bool.and_eq_true, beq_iff_eq] at h
    exact ⟨.inl, fun h' => h'.elim id fun h' => absurd ⟨h'.1, h'.2.1⟩ h⟩

theorem noted_noteAll {notes : List (K × List K)} {hid k : K} :
    Noted (noteAll truthy notes) hid k ↔
      ∃ p ∈ notes, truthy p.1 = true ∧ p.1 = hid ∧ k ∈ p.2 ∧ truthy k = true := by
  have key : ∀ logs : Dict K (List K), Noted (notes.foldl (note truthy) logs) hid k ↔
      Noted logs hid k ∨
        ∃ p ∈ notes, truthy p.1 = true ∧ p.1 = hid ∧ k ∈ p.2 ∧ truthy k = true := by
    induction notes with
    | nil => simp
    | cons p notes ih =>
      intro logs
      rw [List.foldl_cons, ih, noted_note, List.exists_mem_cons_iff, or_assoc]
  rw [noteAll, key]
  simp [Noted]

theorem mem_keys_noteAll {notes : List (K × List K)} {hid : K} :
    hid ∈ (noteAll truthy notes).keys ↔ ∃ p ∈ notes, truthy p.1 = true ∧ p.1 = hid := by
  have key : ∀ logs : Dict K (List K), (notes.foldl (note truthy) logs).has hid = true ↔
      logs.has hid = true ∨ ∃ p ∈ notes, truthy p.1 = true ∧ p.1 = hid := by
    induction notes with
    | nil => simp
    | cons p notes ih =>
      intro logs
      have hstep : (note truthy logs p).has hid = true ↔
          logs.has hid = true ∨ (truthy p.1 = true ∧ p.1 = hid) := by
        rw [Dict.has_eq_isSome, Dict.has_eq_isSome, get?_note]
        cases ht : truthy p.1 <;> by_cases hk : p.1 = hid <;> simp [hk]
      rw [List.foldl_cons, ih, hstep, List.exists_mem_cons_iff, or_assoc]
  rw [← Dict.has_iff_mem_keys, noteAll, key]
  simp [Dict.has, Dict.empty]

theorem mem_flatten_values {logs : Dict K (List K)} {k : K} :
    k ∈ logs.values.flatten ↔ ∃ hid, Noted logs hid k := by
  simp only [List.mem_flatten, Dict.mem_values_iff, Noted]
  constructor
  · rintro ⟨l, ⟨hid, hl⟩, hk⟩
    exact ⟨hid, l, hl, hk⟩
  · rintro ⟨hid, l, hl, hk⟩
    exact ⟨l, ⟨hid, hl⟩, hk⟩

end

/-! ### Views -/

/-- What the key fields of a well-formed entry say. -/
structure View where
  hid : Str
  hkey : Str
  hkeys : List Str
  /-- The other logs: id and key. -/
  alts : List (Str × Str)
  hid_ne : hid ≠ []
  hkey_ne : hkey ≠ []
  hkeys_ne : ∀ k ∈ hkeys, k ≠ []
  alts_ok : ∀ a ∈ alts, hid < a.1 ∧ a.2 ≠ []

namespace View

def keys (v : View) : List Str := v.hkey :: v.hkeys ++ v.alts.map Prod.snd

def logIds (v : View) : List Str := v.hid :: v.alts.map Prod.fst

/-- The log written to and the key written under. -/
def write (v : View) : Str ×ₗ Str := toLex (v.hid, v.hkey)

def notes (v : View) : List (Str × List Str) :=
  (v.hid, v.hkey :: v.hkeys) :: v.alts.map (fun a => (a.1, [a.2])) ++ [(v.hid, v.hkeys)]

def nonEmpty (s : Str) : Bool := s ≠ []

/-- The logs that two views know. -/
def logs (a b : View) : Dict Str (List Str) := noteAll nonEmpty (a.notes ++ b.notes)

variable {v : View} {k : Str} {i : Str}

theorem key_ne (h : k ∈ v.keys) : k ≠ [] := by
  rw [keys, List.cons_append, List.mem_cons, List.mem_append, List.mem_map] at h
  rcases h with rfl | h | ⟨a, ha, rfl⟩
  · exact v.hkey_ne
  · exact v.hkeys_ne k h
  · exact (v.alts_ok a ha).2

theorem le_of_mem_logIds (h : i ∈ v.logIds) : v.hid ≤ i := by
  rw [logIds, List.mem_cons, List.mem_map] at h
  rcases h with rfl | ⟨a, ha, rfl⟩
  · exact le_refl _
  · exact (v.alts_ok a ha).1.le

theorem logId_ne (h : i ∈ v.logIds) : i ≠ [] := by
  rintro rfl
  rcases (le_of_mem_logIds h).lt_or_eq with hlt | heq
  · exact List.not_lt_nil _ hlt
  · exact v.hid_ne heq

/-- What a view notes are its keys. -/
theorem exists_note_iff_key : (∃ p ∈ v.notes, k ∈ p.2) ↔ k ∈ v.keys := by
  simp only [notes, keys, List.cons_append, List.mem_cons, List.mem_append, List.mem_map,
    List.not_mem_nil, or_false]
  constructor
  · rintro ⟨p, rfl | ⟨a, ha, rfl⟩ | rfl, hk⟩
    · exact (List.mem_cons.mp hk).imp id .inl
    · exact .inr (.inr ⟨a, ha, (List.mem_singleton.mp hk).symm⟩)
    · exact .inr (.inl hk)
  · rintro (rfl | hk | ⟨a, ha, rfl⟩)
    · exact ⟨_, .inl rfl, List.mem_cons_self ..⟩
    · exact ⟨_, .inl rfl, List.mem_cons_of_mem _ hk⟩
    · exact ⟨_, .inr (.inl ⟨a, ha, rfl⟩), List.mem_singleton.mpr rfl⟩

theorem exists_note_iff_logId :
    (∃ p ∈ v.notes, p.1 = i) ↔ i ∈ v.logIds := by
  simp only [notes, logIds, List.cons_append, List.mem_cons, List.mem_append, List.mem_map,
    List.not_mem_nil, or_false]
  constructor
  · rintro ⟨p, rfl | ⟨a, ha, rfl⟩ | rfl, rfl⟩
    · exact .inl rfl
    · exact .inr ⟨a, ha, rfl⟩
    · exact .inl rfl
  · rintro (rfl | ⟨a, ha, rfl⟩)
    · exact ⟨_, .inl rfl, rfl⟩
    · exact ⟨_, .inr (.inl ⟨a, ha, rfl⟩), rfl⟩

/-- Every log a view knows has a key. -/
theorem exists_key_of_logId (h : i ∈ v.logIds) :
    ∃ p ∈ v.notes, p.1 = i ∧ ∃ k, k ∈ p.2 := by
  rw [logIds, List.mem_cons, List.mem_map] at h
  rcases h with rfl | ⟨a, ha, rfl⟩
  · exact ⟨_, List.mem_cons_self .., rfl, v.hkey, List.mem_cons_self ..⟩
  · refine ⟨(a.1, [a.2]), ?_, rfl, a.2, List.mem_singleton.mpr rfl⟩
    exact List.mem_cons_of_mem _ (List.mem_append_left _ (List.mem_map.mpr ⟨a, ha, rfl⟩))

/-! ### The logs of two views -/

variable {a b : View}

theorem nonEmpty_iff {s : Str} : nonEmpty s = true ↔ s ≠ [] := decide_eq_true_iff

theorem mem_keys_logs : i ∈ (logs a b).keys ↔ i ∈ a.logIds ∨ i ∈ b.logIds := by
  rw [logs, mem_keys_noteAll, ← exists_note_iff_logId, ← exists_note_iff_logId]
  constructor
  · rintro ⟨p, hp, -, rfl⟩
    rcases List.mem_append.mp hp with hp | hp
    · exact .inl ⟨p, hp, rfl⟩
    · exact .inr ⟨p, hp, rfl⟩
  · rintro (⟨p, hp, rfl⟩ | ⟨p, hp, rfl⟩)
    · exact ⟨p, List.mem_append_left _ hp,
        nonEmpty_iff.mpr (logId_ne (exists_note_iff_logId.mp ⟨p, hp, rfl⟩)), rfl⟩
    · exact ⟨p, List.mem_append_right _ hp,
        nonEmpty_iff.mpr (logId_ne (exists_note_iff_logId.mp ⟨p, hp, rfl⟩)), rfl⟩

theorem mem_flatten_logs : k ∈ (logs a b).values.flatten ↔ k ∈ a.keys ∨ k ∈ b.keys := by
  rw [mem_flatten_values, ← exists_note_iff_key, ← exists_note_iff_key]
  simp only [logs, noted_noteAll]
  constructor
  · rintro ⟨i, p, hp, -, -, hk, -⟩
    rcases List.mem_append.mp hp with hp | hp
    · exact .inl ⟨p, hp, hk⟩
    · exact .inr ⟨p, hp, hk⟩
  · rintro (⟨p, hp, hk⟩ | ⟨p, hp, hk⟩)
    · exact ⟨p.1, p, List.mem_append_left _ hp,
        nonEmpty_iff.mpr (logId_ne (exists_note_iff_logId.mp ⟨p, hp, rfl⟩)), rfl, hk,
        nonEmpty_iff.mpr (key_ne (exists_note_iff_key.mp ⟨p, hp, hk⟩))⟩
    · exact ⟨p.1, p, List.mem_append_right _ hp,
        nonEmpty_iff.mpr (logId_ne (exists_note_iff_logId.mp ⟨p, hp, rfl⟩)), rfl, hk,
        nonEmpty_iff.mpr (key_ne (exists_note_iff_key.mp ⟨p, hp, hk⟩))⟩

/-- Every log of two views has a key noted against it. -/
theorem exists_noted (h : i ∈ (logs a b).keys) : ∃ k, Noted (logs a b) i k := by
  simp only [logs, noted_noteAll]
  rcases mem_keys_logs.mp h with h | h
  · obtain ⟨p, hp, rfl, k, hk⟩ := exists_key_of_logId h
    exact ⟨k, p, List.mem_append_left _ hp, nonEmpty_iff.mpr (logId_ne h), rfl, hk,
      nonEmpty_iff.mpr (key_ne (exists_note_iff_key.mp ⟨p, hp, hk⟩))⟩
  · obtain ⟨p, hp, rfl, k, hk⟩ := exists_key_of_logId h
    exact ⟨k, p, List.mem_append_right _ hp, nonEmpty_iff.mpr (logId_ne h), rfl, hk,
      nonEmpty_iff.mpr (key_ne (exists_note_iff_key.mp ⟨p, hp, hk⟩))⟩

/-- The log ids in the order of their strings. -/
def sortedIds (a b : View) : List Str := (logs a b).keys.insertionSort (· ≤ ·)

theorem min_hid_mem_keys (a b : View) : min a.hid b.hid ∈ (logs a b).keys := by
  rw [mem_keys_logs]
  rcases min_choice a.hid b.hid with h | h <;> rw [h]
  · exact .inl (List.mem_cons_self ..)
  · exact .inr (List.mem_cons_self ..)

theorem min_hid_le (h : i ∈ (logs a b).keys) : min a.hid b.hid ≤ i := by
  rcases mem_keys_logs.mp h with h | h
  · exact (min_le_left ..).trans (le_of_mem_logIds h)
  · exact (min_le_right ..).trans (le_of_mem_logIds h)

/-- The lowest log id is the lower of the two written to; the others are above it. -/
theorem sortedIds_eq (a b : View) : ∃ others, sortedIds a b = min a.hid b.hid :: others ∧
    ∀ i, i ∈ others ↔ i ∈ (logs a b).keys ∧ min a.hid b.hid < i := by
  have hmem : ∀ i, i ∈ sortedIds a b ↔ i ∈ (logs a b).keys := fun i => List.mem_insertionSort _
  have hsorted : (sortedIds a b).Pairwise (· ≤ ·) := List.pairwise_insertionSort _ _
  have hnodup : (sortedIds a b).Nodup :=
    (List.perm_insertionSort _ _).nodup_iff.mpr (Dict.nodup_keys _)
  cases hl : sortedIds a b with
  | nil =>
    have := (hmem _).mpr (min_hid_mem_keys a b)
    rw [hl] at this
    cases this
  | cons primary others =>
    rw [hl, List.pairwise_cons] at hsorted
    rw [hl, List.nodup_cons] at hnodup
    -- The head is below every id, and no id is below the minimum.
    have hhead : primary = min a.hid b.hid := by
      refine le_antisymm ?_ (min_hid_le ((hmem _).mp (by rw [hl]; exact List.mem_cons_self ..)))
      have := (hmem _).mpr (min_hid_mem_keys a b)
      rw [hl] at this
      rcases List.mem_cons.mp this with h | h
      · exact h.ge
      · exact hsorted.1 _ h
    subst hhead
    refine ⟨others, rfl, fun i => ⟨fun hi => ?_, fun ⟨hi, hlt⟩ => ?_⟩⟩
    · refine ⟨(hmem i).mp (by rw [hl]; exact List.mem_cons_of_mem _ hi), ?_⟩
      exact lt_of_le_of_ne (hsorted.1 i hi) fun e => hnodup.1 (e ▸ hi)
    · have := (hmem i).mpr hi
      rw [hl] at this
      exact (List.mem_cons.mp this).resolve_left hlt.ne'

/-- The ids above the lowest. -/
def otherIds (a b : View) : List Str := (sortedIds a b).tail

theorem mem_otherIds :
    i ∈ otherIds a b ↔ i ∈ (logs a b).keys ∧ min a.hid b.hid < i := by
  obtain ⟨others, heq, hmem⟩ := sortedIds_eq a b
  rw [otherIds, heq]
  exact hmem i

theorem mem_otherLogs {ids : List Str} (h : (i, k) ∈ otherLogs (logs a b) ids) :
    i ∈ ids ∧ Noted (logs a b) i k := by
  obtain ⟨i', hi', hk⟩ := List.mem_filterMap.mp h
  obtain ⟨k', hk', heq⟩ := Option.map_eq_some_iff.mp hk
  cases heq
  cases hg : (logs a b).get? i with
  | none => rw [hg] at hk'; cases hk'
  | some l =>
    rw [hg] at hk'
    exact ⟨hi', l, hg, List.mem_of_head? hk'⟩

theorem exists_mem_otherLogs {ids : List Str} (hi : i ∈ ids)
    (hk : i ∈ (logs a b).keys) : ∃ k, (i, k) ∈ otherLogs (logs a b) ids := by
  obtain ⟨k, l, hl, hk⟩ := exists_noted hk
  cases l with
  | nil => cases hk
  | cons k' l =>
    refine ⟨k', List.mem_filterMap.mpr ⟨i, hi, ?_⟩⟩
    rw [hl]
    rfl

theorem key_of_noted (h : Noted (logs a b) i k) : k ∈ a.keys ∨ k ∈ b.keys :=
  mem_flatten_logs.mp (mem_flatten_values.mpr ⟨i, h⟩)

theorem ne_of_mem_keys (h : k ∈ a.keys ∨ k ∈ b.keys) : k ≠ [] :=
  h.elim key_ne key_ne

/-! ### Merging views -/

/-- The key of the lower of two written logs, and the lower key on a tie. -/
def mergedKey (a b : View) : Str := (ofLex (min a.write b.write)).2

theorem mergedKey_eq (a b : View) : mergedKey a b = a.hkey ∨ mergedKey a b = b.hkey := by
  unfold mergedKey
  rcases min_choice a.write b.write with h | h <;> rw [h]
  · exact .inl rfl
  · exact .inr rfl

theorem mergedKey_mem (a b : View) : mergedKey a b ∈ a.keys ∨ mergedKey a b ∈ b.keys := by
  rcases mergedKey_eq a b with h | h <;> rw [h]
  · exact .inl (List.mem_cons_self ..)
  · exact .inr (List.mem_cons_self ..)

def merge (a b : View) : View where
  hid := min a.hid b.hid
  hkey := mergedKey a b
  hkeys := supersededKeys nonEmpty (· == mergedKey a b) (logs a b)
  alts := otherLogs (logs a b) (otherIds a b)
  hid_ne := by
    rcases min_choice a.hid b.hid with h | h <;> rw [h]
    · exact a.hid_ne
    · exact b.hid_ne
  hkey_ne := ne_of_mem_keys (mergedKey_mem a b)
  hkeys_ne k hk := by
    obtain ⟨-, hk⟩ := List.mem_filter.mp hk
    rw [Bool.and_eq_true] at hk
    exact nonEmpty_iff.mp hk.1
  alts_ok p hp := by
    obtain ⟨hi, hk⟩ := mem_otherLogs hp
    exact ⟨(mem_otherIds.mp hi).2, ne_of_mem_keys (key_of_noted hk)⟩

theorem mem_hkeys_merge :
    k ∈ (merge a b).hkeys ↔ (k ∈ a.keys ∨ k ∈ b.keys) ∧ k ≠ mergedKey a b := by
  change k ∈ supersededKeys _ _ _ ↔ _
  rw [supersededKeys, List.mem_filter, mem_unique, mem_flatten_logs]
  constructor
  · rintro ⟨hk, hne⟩
    exact ⟨hk, by simpa using (Bool.and_eq_true_iff.mp hne).2⟩
  · rintro ⟨hk, hne⟩
    refine ⟨hk, ?_⟩
    rw [Bool.and_eq_true, nonEmpty_iff]
    exact ⟨ne_of_mem_keys hk, by simpa using hne⟩

/-- **No key is lost, and none appears.** -/
theorem mem_keys_merge : k ∈ (merge a b).keys ↔ k ∈ a.keys ∨ k ∈ b.keys := by
  constructor
  · intro h
    change k ∈ mergedKey a b :: (merge a b).hkeys ++ (merge a b).alts.map Prod.snd at h
    rw [List.cons_append, List.mem_cons, List.mem_append, List.mem_map] at h
    rcases h with rfl | h | ⟨p, hp, rfl⟩
    · exact mergedKey_mem a b
    · exact (mem_hkeys_merge.mp h).1
    · exact key_of_noted (mem_otherLogs hp).2
  · intro h
    by_cases hk : k = mergedKey a b
    · rw [hk]
      exact List.mem_cons_self ..
    · exact List.mem_cons_of_mem _ (List.mem_append_left _ (mem_hkeys_merge.mpr ⟨h, hk⟩))

/-- **No log id is lost, and none appears.** -/
theorem mem_logIds_merge :
    i ∈ (merge a b).logIds ↔ i ∈ a.logIds ∨ i ∈ b.logIds := by
  rw [← mem_keys_logs]
  change i ∈ min a.hid b.hid :: (merge a b).alts.map Prod.fst ↔ _
  rw [List.mem_cons, List.mem_map]
  constructor
  · rintro (rfl | ⟨p, hp, rfl⟩)
    · exact min_hid_mem_keys a b
    · exact (mem_otherIds.mp (mem_otherLogs hp).1).1
  · intro h
    rcases (min_hid_le h).eq_or_lt with heq | hlt
    · exact .inl heq.symm
    · obtain ⟨k, hk⟩ := exists_mem_otherLogs (mem_otherIds.mpr ⟨h, hlt⟩) h
      exact .inr ⟨(i, k), hk, rfl⟩

/-- **The write log and key are the lower of the two pairs.** -/
theorem write_merge (a b : View) : (merge a b).write = min a.write b.write := by
  have hfst : min a.hid b.hid = (ofLex (min a.write b.write)).1 :=
    (Prod.Lex.monotone_fst_ofLex.map_min (a := a.write) (b := b.write)).symm
  change toLex (min a.hid b.hid, mergedKey a b) = _
  rw [hfst]
  rfl

end View

end Quorum
