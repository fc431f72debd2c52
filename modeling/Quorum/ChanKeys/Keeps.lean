import Quorum.ChanKeys.Refine

/-!
# A merge loses no key

Whatever the other side sends, a merge that returns still holds every key the entry held
(`mergeChanKeys_keeps`).  Views do not help here: the other side need not read as one.  The argument
is about what is noted instead.  A noted key stays noted, and every key that is noted ends up as the
current key of the merged entry or among the superseded ones.

Nor does a merge give the channel another log, unless one of the entries names a log with a lower id
(`mergeChanKeys_keeps_log`).
-/

namespace Quorum

open Js

/-! ### What is noted stays noted -/

section

variable {K : Type} [BEq K] {truthy : K → Bool} {logs : Dict K (List K)} {k : K}

/-- A key is noted against one of the logs. -/
def Tracked (logs : Dict K (List K)) (k : K) : Prop := ∃ keys ∈ logs.values, k ∈ keys

theorem Tracked.note [PartialEquivBEq K] (h : Tracked logs k) (p : K × List K) :
    Tracked (note truthy logs p) k := by
  obtain ⟨keys, hkeys, hk⟩ := h
  unfold Quorum.note
  split
  · rcases Dict.mem_values_set_of_mem hkeys p.1 _ with hstays | hfound
    · exact ⟨keys, hstays, hk⟩
    · refine ⟨_, Dict.mem_values_set_self logs p.1 _, mem_foldl_insertNew_of_mem ?_ _⟩
      rw [hfound]
      exact hk
  · exact ⟨keys, hkeys, hk⟩

theorem Tracked.noteAll_from [PartialEquivBEq K] (h : Tracked logs k) (notes : List (K × List K)) :
    Tracked (notes.foldl (Quorum.note truthy) logs) k := by
  induction notes generalizing logs with
  | nil => exact h
  | cons p notes ih => exact ih (h.note p)

theorem tracked_note (hk : ∀ y, (y == k) = true → y = k) {p : K × List K} (hp : truthy p.1 = true)
    (hmem : k ∈ p.2) (ht : truthy k = true) (logs : Dict K (List K)) :
    Tracked (note truthy logs p) k := by
  unfold note
  rw [if_pos hp]
  exact ⟨_, Dict.mem_values_set_self .., mem_foldl_insertNew_self hk
    (List.mem_filter.mpr ⟨hmem, ht⟩) _⟩

theorem tracked_noteAll [PartialEquivBEq K] (hk : ∀ y, (y == k) = true → y = k)
    {notes : List (K × List K)} {p : K × List K} (h : p ∈ notes) (hp : truthy p.1 = true)
    (hmem : k ∈ p.2) (ht : truthy k = true) : Tracked (noteAll truthy notes) k := by
  obtain ⟨before, after, rfl⟩ := List.append_of_mem h
  rw [noteAll, List.foldl_append, List.foldl_cons]
  exact (tracked_note hk hp hmem ht _).noteAll_from after

/-- Keys are noted against logs that a note names. -/
theorem exists_note_of_mem_keys {notes : List (K × List K)} {hid : K}
    (h : hid ∈ (noteAll truthy notes).keys) : truthy hid = true ∧ ∃ p ∈ notes, p.1 = hid := by
  have key : ∀ logs : Dict K (List K), ∀ x ∈ (notes.foldl (note truthy) logs).keys,
      x ∈ logs.keys ∨ truthy x = true ∧ ∃ p ∈ notes, p.1 = x := by
    clear h
    induction notes with
    | nil => exact fun _ _ h => .inl h
    | cons p notes ih =>
      intro logs x hx
      rcases ih _ x hx with hx | ⟨ht, q, hq, rfl⟩
      · unfold note at hx
        split at hx
        · rename_i hp
          rcases Dict.mem_keys_of_mem_keys_set hx with hx | rfl
          · exact .inl hx
          · exact .inr ⟨hp, p, List.mem_cons_self .., rfl⟩
        · exact .inl hx
      · exact .inr ⟨ht, q, List.mem_cons_of_mem _ hq, rfl⟩
  rcases key Dict.empty hid h with hnone | hnote
  · simp [Dict.empty, Dict.keys] at hnone
  · exact hnote

/-- The log of the first note is tracked. -/
theorem mem_keys_noteAll_cons {p : K × List K} (hp : truthy p.1 = true)
    (notes : List (K × List K)) : p.1 ∈ (noteAll truthy (p :: notes)).keys := by
  have key : ∀ logs : Dict K (List K), p.1 ∈ logs.keys →
      p.1 ∈ (notes.foldl (note truthy) logs).keys := by
    induction notes with
    | nil => exact fun _ h => h
    | cons q notes ih =>
      refine fun logs h => ih _ ?_
      unfold note
      split
      · exact Dict.mem_keys_set_of_mem h _ _
      · exact h
  refine key _ ?_
  rw [note, if_pos hp, Dict.keys_set, if_neg (by simp [Dict.has, Dict.empty])]
  exact List.mem_append_right _ (List.mem_singleton_self _)

/-- A noted key is current or superseded. -/
theorem mem_supersededKeys (hk : ∀ y, (y == k) = true → y = k) (h : Tracked logs k)
    (ht : truthy k = true) {isCurrent : K → Bool} (hc : isCurrent k = false) :
    k ∈ supersededKeys truthy isCurrent logs := by
  obtain ⟨keys, hkeys, hmem⟩ := h
  refine List.mem_filter.mpr ⟨?_, by rw [ht, hc]; rfl⟩
  exact mem_foldl_insertNew_self hk (List.mem_flatten.mpr ⟨keys, hkeys, hmem⟩) []

end

/-! ### The keys of an entry -/

/-- An entry with a log id holds a key: as the current one, among the superseded ones, or as the
key of another log, which has an id of its own. -/
structure HoldsKey (entry : Value) (k : Str) : Prop where
  hid : (entry.get (lit "hid")).truthy = true
  ne_nil : k ≠ []
  held : entry.get (lit "hkey") = .str k ∨
    (∃ l, (entry.get (lit "hkeys")).elements = .ok l ∧ .str k ∈ l) ∨
    ∃ l, (entry.get (lit "alts")).elements = .ok l ∧
      ∃ alt ∈ l, (alt.get (lit "hid")).truthy = true ∧ alt.get (lit "hkey") = .str k

/-- A list that can be read has an element that satisfies a test. -/
def anyElement (v : Value) (test : Value → Bool) : Bool :=
  match v.elements with
  | .ok l => l.any test
  | .error _ => false

theorem anyElement_iff {v : Value} {test : Value → Bool} :
    anyElement v test = true ↔ ∃ l, v.elements = .ok l ∧ ∃ x ∈ l, test x = true := by
  unfold anyElement
  cases v.elements <;> simp

instance (entry : Value) (k : Str) : Decidable (HoldsKey entry k) :=
  decidable_of_iff
    ((entry.get (lit "hid")).truthy = true ∧ k ≠ [] ∧
      ((entry.get (lit "hkey")).strictEq (.str k) = true ∨
        anyElement (entry.get (lit "hkeys")) (·.strictEq (.str k)) = true ∨
        anyElement (entry.get (lit "alts")) (fun alt => (alt.get (lit "hid")).truthy &&
          (alt.get (lit "hkey")).strictEq (.str k)) = true)) (by
    simp only [anyElement_iff, Bool.and_eq_true, Value.strictEq_str, exists_eq_right]
    exact ⟨fun ⟨h, h', h''⟩ => ⟨h, h', h''⟩, fun h => ⟨h.hid, h.ne_nil, h.held⟩⟩)

namespace HoldsKey

variable {entry : Value} {k : Str}

theorem exists_obj (h : HoldsKey entry k) : ∃ ref props, entry = .obj ref props :=
  exists_obj_of_hid fun hu => by cases hu ▸ h.hid

theorem truthy (h : HoldsKey entry k) : entry.truthy = true := by
  obtain ⟨ref, props, rfl⟩ := h.exists_obj
  rfl

theorem orEmpty (h : HoldsKey entry k) : orEmpty entry = entry := by
  obtain ⟨ref, props, rfl⟩ := h.exists_obj
  rfl

/-- The code notes every key of an entry. -/
theorem mem_notesOf (h : HoldsKey entry k) {notes : List (Value × List Value)}
    (hn : notesOf entry = .ok notes) : ∃ p ∈ notes, p.1.truthy = true ∧ .str k ∈ p.2 := by
  unfold notesOf at hn
  rw [h.truthy] at hn
  obtain ⟨hkeys, hhkeys, hn⟩ := bind_eq_ok.mp hn
  obtain ⟨alts, halts, hn⟩ := bind_eq_ok.mp hn
  cases hn
  rcases h.held with hcur | ⟨l, hl, hmem⟩ | ⟨l, hl, alt, halt, hhid, hkey⟩
  · exact ⟨_, List.mem_cons_self .., h.hid, hcur ▸ List.mem_cons_self ..⟩
  · obtain rfl := Except.ok.inj (hl.symm.trans hhkeys)
    exact ⟨_, List.mem_cons_self .., h.hid, List.mem_cons_of_mem _ hmem⟩
  · obtain rfl := Except.ok.inj (hl.symm.trans halts)
    refine ⟨(alt.get (lit "hid"), [alt.get (lit "hkey")]), ?_, hhid, by simp [hkey]⟩
    exact List.mem_append_left _ (List.mem_cons_of_mem _ (List.mem_map_of_mem halt))

end HoldsKey

/-- Key fields with a log id hold their current key and their superseded ones. -/
theorem holdsKey_ofDict {settings : Dict Str Value} {primary : Value} {hkey : Option Value}
    {hkeys : List Value} {alts : List (Value × Value)} {k : Str}
    (hp : primary.truthy = true) (hne : k ≠ []) (h : hkey = some (.str k) ∨ .str k ∈ hkeys) :
    HoldsKey (Value.ofDict (settings.setAll (keyProps primary hkey hkeys alts))) k where
  hid := by rwa [get_written (nodup_keyProps ..) (List.mem_cons_self ..)]
  ne_nil := hne
  held := by
    rcases h with rfl | h
    · exact .inl (get_written (nodup_keyProps ..) (by simp [keyProps]))
    · refine .inr (.inl ⟨hkeys, ?_, h⟩)
      rw [get_written (nodup_keyProps ..) (v := Value.ofList hkeys)]
      · rfl
      · cases hkeys with
        | nil => cases h
        | cons x l => simp [keyProps]

/-- **A merge keeps every key of the entry, whatever the other side is.** -/
theorem mergeChanKeys_keeps {mine theirs merged : Value} {mineWins : Bool}
    (h : mergeChanKeys mine theirs mineWins = .ok merged) {k : Str} (hk : HoldsKey mine k) :
    HoldsKey merged k := by
  have honly : ∀ y, (y == Value.str k) = true → y = .str k := fun _ => Value.eq_str_of_beq
  have ht : (Value.str k).truthy = true := by simp [Value.truthy, hk.ne_nil]
  unfold mergeChanKeys at h
  rw [hk.orEmpty] at h
  obtain ⟨mineNotes, hmine, h⟩ := bind_eq_ok.mp h
  obtain ⟨theirNotes, -, h⟩ := bind_eq_ok.mp h
  obtain ⟨hids, hsort, h⟩ := bind_eq_ok.mp h
  obtain ⟨p, hp, hhid, hmem⟩ := hk.mem_notesOf hmine
  have htracked : Tracked (noteAll Value.truthy (mineNotes ++ theirNotes)) (.str k) :=
    tracked_noteAll honly (List.mem_append_left _ hp) hhid hmem ht
  have hperm := Value.perm_of_sort hsort
  cases hids with
  | nil =>
    -- without a log there is nothing a key could be noted against
    obtain ⟨keys, hkeys, -⟩ := htracked
    obtain ⟨q, hq, -⟩ := List.mem_map.mp hkeys
    exact absurd (hperm.symm.subset (List.mem_map_of_mem hq)) (List.not_mem_nil)
  | cons primary others =>
    obtain ⟨hkey, -, h⟩ := bind_eq_ok.mp h
    cases h
    refine holdsKey_ofDict
      (exists_note_of_mem_keys (hperm.subset (List.mem_cons_self ..))).1 hk.ne_nil ?_
    cases hc : hkey.any (Value.str k).strictEq with
    | true =>
      cases hkey with
      | none => cases hc
      | some v => exact .inl (congrArg some (Value.str_strictEq.mp hc))
    | false => exact .inr (mem_supersededKeys honly htracked ht hc)

/-! ### The log a merge chooses -/

/-- A value that is no log id, or a string that does not come before an id. -/
def notBelow (hid : Str) : Value → Bool
  | .str id => id = [] || hid ≤ id
  | id => !id.truthy

/-- No log that an entry names, as its own or as another one, has an id that comes before `hid`. -/
def namesNoneBelow (hid : Str) (entry : Value) : Bool :=
  notBelow hid (entry.get (lit "hid")) &&
    match (entry.get (lit "alts")).elements with
    | .ok alts => alts.all fun alt => notBelow hid (alt.get (lit "hid"))
    | .error _ => true

theorem exists_str_of_notBelow {hid : Str} {id : Value} (h : notBelow hid id = true)
    (ht : id.truthy = true) : ∃ s, id = .str s ∧ hid ≤ s := by
  cases id with
  | str s =>
    have hne : s ≠ [] := by
      rintro rfl
      cases ht
    exact ⟨s, rfl, by simpa [notBelow, hne] using h⟩
  | _ => simp [notBelow, ht] at h

theorem notBelow_of_mem_notesOf {hid : Str} {side : Value} {notes : List (Value × List Value)}
    (hn : notesOf (orEmpty side) = .ok notes) (h : namesNoneBelow hid side = true)
    {p : Value × List Value} (hp : p ∈ notes) : notBelow hid p.1 = true := by
  have hside : namesNoneBelow hid (orEmpty side) = true := by
    cases side with
    | undefined => rfl
    | _ => exact h
  obtain ⟨hown, hothers⟩ := Bool.and_eq_true_iff.mp hside
  unfold notesOf at hn
  split at hn
  · cases hn
    cases hp
  · obtain ⟨hkeys, -, hn⟩ := bind_eq_ok.mp hn
    obtain ⟨alts, halts, hn⟩ := bind_eq_ok.mp hn
    cases hn
    rw [halts] at hothers
    rcases List.mem_cons.mp hp with rfl | hp
    · exact hown
    · rcases List.mem_append.mp hp with hp | hp
      · obtain ⟨alt, halt, rfl⟩ := List.mem_map.mp hp
        exact List.all_eq_true.mp hothers alt halt
      · rw [List.mem_singleton.mp hp]
        exact hown

/-- The lowest of a list of strings is sorted to the front. -/
theorem sort_of_lowest {hid : Str} {ids : List Value} (h : .str hid ∈ ids)
    (hids : ∀ id ∈ ids, ∃ s, id = .str s ∧ hid ≤ s) :
    ∃ others, Value.sort ids = .ok (.str hid :: others) := by
  obtain ⟨l, rfl⟩ : ids ∈ Set.range (List.map Value.str) := by
    rw [Set.range_list_map]
    exact fun id hid => let ⟨s, hs, _⟩ := hids id hid; ⟨s, hs.symm⟩
  have hle : ∀ s ∈ l, hid ≤ s := by
    intro s hs
    obtain ⟨t, ht, hle⟩ := hids (.str s) (List.mem_map_of_mem hs)
    rwa [Value.str.inj ht]
  have hmem : hid ∈ l.insertionSort (· ≤ ·) := by
    obtain ⟨s, hs, heq⟩ := List.mem_map.mp h
    rw [List.mem_insertionSort, ← Value.str.inj heq]
    exact hs
  have hsorted := List.pairwise_insertionSort (· ≤ ·) l
  rw [Value.sort_map_str]
  cases hl : l.insertionSort (· ≤ ·) with
  | nil =>
    rw [hl] at hmem
    cases hmem
  | cons first others =>
    rw [hl] at hmem hsorted
    have hfirst : hid ≤ first := hle first <| by
      rw [← List.mem_insertionSort (· ≤ ·), hl]
      exact List.mem_cons_self ..
    have heq : first = hid := by
      rcases List.mem_cons.mp hmem with heq | hm
      · exact heq.symm
      · exact le_antisymm ((List.pairwise_cons.mp hsorted).1 hid hm) hfirst
    exact ⟨others.map .str, by rw [heq]; rfl⟩

/-- **A merge leaves the entry its log when neither side names a log with a lower id.** -/
theorem mergeChanKeys_keeps_log {mine theirs merged : Value} {mineWins : Bool}
    (h : mergeChanKeys mine theirs mineWins = .ok merged) {hid : Str}
    (hmine : mine.get (lit "hid") = .str hid) (hne : hid ≠ [])
    (hm : namesNoneBelow hid mine = true) (ht : namesNoneBelow hid theirs = true) :
    merged.get (lit "hid") = .str hid := by
  have htruthy : (Value.str hid).truthy = true := by simp [Value.truthy, hne]
  obtain ⟨mineNotes, hmineNotes, h⟩ := bind_eq_ok.mp h
  obtain ⟨theirNotes, htheirNotes, h⟩ := bind_eq_ok.mp h
  obtain ⟨hids, hsort, h⟩ := bind_eq_ok.mp h
  have hown : .str hid ∈ (noteAll Value.truthy (mineNotes ++ theirNotes)).keys := by
    have hset : mine.get (lit "hid") ≠ .undefined := by simp [hmine]
    obtain ⟨ref, props, rfl⟩ := exists_obj_of_hid hset
    obtain ⟨hkeys, -, hmineNotes⟩ := bind_eq_ok.mp hmineNotes
    obtain ⟨alts, -, hmineNotes⟩ := bind_eq_ok.mp hmineNotes
    cases hmineNotes
    rw [← hmine] at htruthy ⊢
    exact mem_keys_noteAll_cons (p := (_, _)) htruthy _
  obtain ⟨others, hothers⟩ := sort_of_lowest hown fun id hid => by
    obtain ⟨hid, p, hp, rfl⟩ := exists_note_of_mem_keys hid
    refine exists_str_of_notBelow ?_ hid
    rcases List.mem_append.mp hp with hp | hp
    · exact notBelow_of_mem_notesOf hmineNotes hm hp
    · exact notBelow_of_mem_notesOf htheirNotes ht hp
  rw [hothers] at hsort
  cases hsort
  obtain ⟨hkey, -, h⟩ := bind_eq_ok.mp h
  cases h
  exact get_written (nodup_keyProps ..) (List.mem_cons_self ..)

end Quorum
