import Quorum.ChanKeys.View

/-!
# The merge of entries is the merge of views

On entries that read as views (`Reads`) the code's merge returns, and what it returns reads as
`View.merge` of the two (`mergeChanKeys_reads`).  Likewise one turn of the rotation loop returns an
entry that reads as the view with the fresh key (`rotateMeta_reads`).

The code works on values, a view on strings.  Every operation in between is natural in the type of
keys, so the maps of the two sides are the same map with its keys renamed by `Value.str`.
-/

namespace Quorum

open Js

/-! ### Renaming keys -/

section

variable {K L : Type} [BEq K] [BEq L] {f : K → L} {truthy : K → Bool} {truthy' : L → Bool}

theorem note_map (hf : ∀ a b, (f a == f b) = (a == b)) (ht : ∀ k, truthy' (f k) = truthy k)
    (logs : Dict K (List K)) (p : K × List K) :
    note truthy' (logs.rename hf (List.map f)) (f p.1, p.2.map f) =
      (note truthy logs p).rename hf (List.map f) := by
  have hfilter : (p.2.map f).filter truthy' = (p.2.filter truthy).map f := by
    rw [List.filter_map]
    congr 1
    exact List.filter_congr fun k _ => ht k
  have hkeys : (Option.map (List.map f) (logs.get? p.1)).getD [] =
      ((logs.get? p.1).getD []).map f := by
    cases logs.get? p.1 <;> rfl
  unfold note
  rw [ht, Dict.rename_get?, hfilter, hkeys, foldl_insertNew_map hf]
  split
  · exact Dict.rename_set hf _ logs p.1 _
  · rfl

theorem noteAll_map (hf : ∀ a b, (f a == f b) = (a == b)) (ht : ∀ k, truthy' (f k) = truthy k)
    (notes : List (K × List K)) :
    noteAll truthy' (notes.map fun p => (f p.1, p.2.map f)) =
      (noteAll truthy notes).rename hf (List.map f) := by
  have key : ∀ logs : Dict K (List K),
      (notes.map fun p => (f p.1, p.2.map f)).foldl (note truthy') (logs.rename hf (List.map f)) =
        (notes.foldl (note truthy) logs).rename hf (List.map f) := by
    induction notes with
    | nil => exact fun _ => rfl
    | cons p notes ih =>
      intro logs
      rw [List.map_cons, List.foldl_cons, List.foldl_cons, note_map hf ht, ih]
  exact key Dict.empty

theorem supersededKeys_map (hf : ∀ a b, (f a == f b) = (a == b))
    (ht : ∀ k, truthy' (f k) = truthy k) {isCurrent : K → Bool} {isCurrent' : L → Bool}
    (hc : ∀ k, isCurrent' (f k) = isCurrent k) (logs : Dict K (List K)) :
    supersededKeys truthy' isCurrent' (logs.rename hf (List.map f)) =
      (supersededKeys truthy isCurrent logs).map f := by
  have hflat : (logs.rename hf (List.map f)).values.flatten = logs.values.flatten.map f := by
    rw [List.map_flatten, Dict.values, Dict.values, Dict.rename, List.map_map, List.map_map]
    rfl
  rw [supersededKeys, supersededKeys, hflat, unique_map hf, List.filter_map]
  congr 1
  exact List.filter_congr fun k _ => by rw [Function.comp_apply, ht, hc]

theorem otherLogs_map (hf : ∀ a b, (f a == f b) = (a == b)) (logs : Dict K (List K))
    (hids : List K) :
    otherLogs (logs.rename hf (List.map f)) (hids.map f) =
      (otherLogs logs hids).map fun a => (f a.1, f a.2) := by
  rw [otherLogs, otherLogs, List.filterMap_map, List.map_filterMap]
  refine List.filterMap_congr fun hid _ => ?_
  rw [Function.comp_apply, Dict.rename_get?]
  cases logs.get? hid with
  | none => rfl
  | some l => cases l <;> rfl

end

/-! ### Entries that read as views -/

/-- An entry with a log is an object. -/
theorem exists_obj_of_hid {entry : Value} (h : entry.get (lit "hid") ≠ .undefined) :
    ∃ ref props, entry = .obj ref props := by
  cases entry with
  | obj ref props => exact ⟨ref, props, rfl⟩
  | _ => exact absurd rfl h

/-- The key fields of an entry say what a view says.  A list that is absent is empty. -/
structure Reads (entry : Value) (v : View) : Prop where
  hid : entry.get (lit "hid") = .str v.hid
  hkey : entry.get (lit "hkey") = .str v.hkey
  hkeys : (entry.get (lit "hkeys")).elements = .ok (v.hkeys.map .str)
  alts : ∃ l, (entry.get (lit "alts")).elements = .ok l ∧
    l.map (fun alt => (alt.get (lit "hid"), alt.get (lit "hkey"))) =
      v.alts.map fun a => (.str a.1, .str a.2)

namespace Reads

variable {entry mine theirs : Value} {v a b : View}

theorem exists_obj (h : Reads entry v) : ∃ ref props, entry = .obj ref props :=
  exists_obj_of_hid (by rw [h.hid]; exact nofun)

theorem truthy (h : Reads entry v) : entry.truthy = true := by
  obtain ⟨ref, props, rfl⟩ := h.exists_obj
  rfl

theorem orEmpty (h : Reads entry v) : orEmpty entry = entry := by
  obtain ⟨ref, props, rfl⟩ := h.exists_obj
  rfl

/-- What the code notes for an entry is what the view notes. -/
theorem notesOf (h : Reads entry v) :
    notesOf entry = .ok (v.notes.map fun p => (.str p.1, p.2.map .str)) := by
  obtain ⟨l, hl, halts⟩ := h.alts
  have halts' : l.map (fun alt => (alt.get (lit "hid"), [alt.get (lit "hkey")])) =
      v.alts.map fun a => (Value.str a.1, [Value.str a.2]) := by
    have := congrArg (List.map fun p : Value × Value => (p.1, [p.2])) halts
    rwa [List.map_map, List.map_map] at this
  unfold Quorum.notesOf
  rw [h.truthy, h.hkeys, hl, h.hid, h.hkey]
  simp only [ok_bind, pure_eq, halts', View.notes, List.map_append, List.map_map, List.map_cons,
    List.map_nil]
  rfl

theorem writeKey (h : Reads entry v) (primary : Str) :
    writeKey entry (.str primary) = if v.hid == primary then .str v.hkey else .bool false := by
  unfold Quorum.writeKey
  rw [h.hid, h.hkey]
  rfl

end Reads

/-! ### The key to write under -/

namespace View

/-- The keys under which the lower of the two logs is written. -/
def writers (a b : View) : List Str :=
  ([a, b].filter fun v => v.hid == min a.hid b.hid).map View.hkey

/-- The lowest of them is the key of the merge. -/
theorem head?_sort_writers (a b : View) :
    ((writers a b).insertionSort (· ≤ ·)).head? = some (mergedKey a b) := by
  have hle : ∀ x y : View, x.write ≤ y.write ↔ x.hid < y.hid ∨ x.hid = y.hid ∧ x.hkey ≤ y.hkey :=
    fun x y => Prod.Lex.toLex_le_toLex
  unfold writers mergedKey
  rcases lt_trichotomy a.hid b.hid with h | h | h
  · rw [min_eq_left h.le, min_eq_left ((hle a b).mpr (.inl h))]
    simp [h.ne', write]
  · rw [← h, min_self]
    simp only [beq_self_eq_true, List.filter_cons, h]
    rcases le_total a.hkey b.hkey with hk | hk
    · rw [min_eq_left ((hle a b).mpr (.inr ⟨h, hk⟩))]
      simp [hk, write]
    · rw [min_eq_right ((hle b a).mpr (.inr ⟨h.symm, hk⟩))]
      rcases hk.eq_or_lt with heq | hlt
      · simp [heq, write]
      · simp [not_le.mpr hlt, write]
  · rw [min_eq_right h.le, min_eq_right ((hle b a).mpr (.inl h))]
    simp [h.ne', write]

end View

/-! ### Reading a merged entry -/

theorem nodup_keyProps (primary : Value) (hkey : Option Value) (hkeys : List Value)
    (alts : List (Value × Value)) : ((keyProps primary hkey hkeys alts).map Prod.fst).Nodup := by
  unfold keyProps
  cases hkey <;> cases hkeys <;> cases alts <;> simp <;> decide

variable {field : Str} {settings : Dict Str Value}

/-- Settings say nothing about keys. -/
theorem get?_mergedSettings (mine theirs : Value) (mineWins : Bool)
    (h : field ∈ keyFields) : (mergedSettings mine theirs mineWins).get? field = none := by
  have hout : ∀ side : Value, field ∉ (settingsOf side).map Prod.fst := by
    intro side hmem
    obtain ⟨p, hp, rfl⟩ := List.mem_map.mp hmem
    exact (of_decide_eq_true (List.mem_filter.mp hp).2) h
  have hboth : ∀ x y : Value,
      ((Dict.ofList (settingsOf x)).setAll (settingsOf y)).get? field = none := by
    intro x y
    rw [Dict.get?_setAll_of_notMem (hout y), Dict.ofList, Dict.get?_setAll_of_notMem (hout x)]
    rfl
  unfold mergedSettings
  split
  · exact hboth theirs mine
  · exact hboth mine theirs

theorem get_written {props : List (Str × Value)}
    (hprops : (props.map Prod.fst).Nodup) {v : Value} (h : (field, v) ∈ props) :
    (Value.ofDict (settings.setAll props)).get field = v := by
  rw [Value.get_ofDict, Dict.get?_setAll_of_mem hprops h]
  rfl

theorem get_unwritten {props : List (Str × Value)}
    (hs : settings.get? field = none) (h : field ∉ props.map Prod.fst) :
    (Value.ofDict (settings.setAll props)).get field = Value.inherited field := by
  rw [Value.get_ofDict, Dict.get?_setAll_of_notMem h, hs]
  rfl

theorem altEntry_reads (a : Value × Value) :
    ((altEntry a).get (lit "hid"), (altEntry a).get (lit "hkey")) = a := by
  have hnames : [(lit "hid", a.1), (lit "hkey", a.2)].map Prod.fst = [lit "hid", lit "hkey"] := rfl
  have hnodup : ([(lit "hid", a.1), (lit "hkey", a.2)].map Prod.fst).Nodup := by
    rw [hnames]
    decide
  unfold altEntry Dict.ofList
  rw [get_written hnodup (List.mem_cons_self ..),
    get_written hnodup (List.mem_cons_of_mem _ (List.mem_cons_self ..))]

/-- Key fields written over settings read back. -/
theorem reads_ofDict (hs : ∀ field ∈ keyFields, settings.get? field = none) (v : View) :
    Reads (Value.ofDict (settings.setAll (keyProps (.str v.hid) (some (.str v.hkey))
      (v.hkeys.map .str) (v.alts.map fun a => (.str a.1, .str a.2))))) v where
  hid := get_written (nodup_keyProps ..) (List.mem_cons_self ..)
  hkey := get_written (nodup_keyProps ..) (by simp [keyProps])
  hkeys := by
    cases hv : v.hkeys with
    | nil =>
      rw [get_unwritten (hs _ (by decide))]
      · rfl
      · cases v.alts <;> simp [keyProps] <;> decide
    | cons k l =>
      rw [get_written (nodup_keyProps ..) (v := Value.ofList ((k :: l).map .str))]
      · rfl
      · simp [keyProps]
  alts := by
    cases hv : v.alts with
    | nil =>
      refine ⟨[], ?_, rfl⟩
      rw [get_unwritten (hs _ (by decide))]
      · rfl
      · cases v.hkeys <;> simp [keyProps] <;> decide
    | cons a l =>
      let others := (a :: l).map fun a => (Value.str a.1, Value.str a.2)
      refine ⟨others.map altEntry, ?_, ?_⟩
      · rw [get_written (nodup_keyProps ..) (v := Value.ofList (others.map altEntry))]
        · rfl
        · simp [keyProps, others]
      · rw [List.map_map]
        exact (List.map_congr_left fun a _ => altEntry_reads a).trans (List.map_id _)

/-! ### The merge -/

section

variable {mine theirs : Value} {a b : View}

/-- What two entries note, as values. -/
def valueLogs (a b : View) : Dict Value (List Value) :=
  (View.logs a b).rename Value.str_beq (List.map Value.str)

theorem noteAll_valueNotes (a b : View) :
    noteAll Value.truthy (a.notes.map (fun p => (Value.str p.1, p.2.map Value.str)) ++
      b.notes.map fun p => (Value.str p.1, p.2.map Value.str)) = valueLogs a b := by
  rw [← List.map_append]
  exact noteAll_map Value.str_beq (fun _ => rfl) _

theorem sort_keys_valueLogs (a b : View) : Value.sort (valueLogs a b).keys =
    .ok (.str (min a.hid b.hid) :: (View.otherIds a b).map .str) := by
  obtain ⟨others, hsorted, -⟩ := View.sortedIds_eq a b
  rw [valueLogs, Dict.keys_rename, Value.sort_map_str]
  change Except.ok ((View.sortedIds a b).map Value.str) = _
  rw [View.otherIds, hsorted]
  rfl

theorem chosenKey_reads (ha : Reads mine a) (hb : Reads theirs b) :
    chosenKey mine theirs (valueLogs a b) (.str (min a.hid b.hid)) =
      .ok (some (.str (View.mergedKey a b))) := by
  have hwriters : [writeKey mine (.str (min a.hid b.hid)),
      writeKey theirs (.str (min a.hid b.hid))].filter Value.truthy =
        (View.writers a b).map .str := by
    rw [ha.writeKey, hb.writeKey, View.writers]
    generalize min a.hid b.hid = primary
    by_cases hp : a.hid = primary <;> by_cases hq : b.hid = primary <;>
      simp [hp, hq, Value.truthy, a.hkey_ne, b.hkey_ne]
  have hhead := View.head?_sort_writers a b
  unfold chosenKey
  rw [hwriters, Value.sort_map_str, ok_bind, List.head?_append, List.head?_map, hhead]
  rfl

/-- A merge that notes what two views note, under the key of their merge. -/
theorem reads_of_valueLogs {notes notes' : List (Value × List Value)} (mineWins : Bool)
    (hmine : notesOf (orEmpty mine) = .ok notes) (htheirs : notesOf (orEmpty theirs) = .ok notes')
    (hlogs : noteAll Value.truthy (notes ++ notes') = valueLogs a b)
    (hkey : chosenKey (orEmpty mine) (orEmpty theirs) (valueLogs a b) (.str (min a.hid b.hid)) =
      .ok (some (.str (View.mergedKey a b)))) :
    ∃ merged, mergeChanKeys mine theirs mineWins = .ok merged ∧ Reads merged (a.merge b) := by
  have hkeys : supersededKeys Value.truthy
      (fun k => (some (Value.str (View.mergedKey a b))).any k.strictEq) (valueLogs a b) =
        (a.merge b).hkeys.map .str :=
    supersededKeys_map Value.str_beq (fun _ => rfl) (fun _ => rfl) _
  have halts : otherLogs (valueLogs a b) ((View.otherIds a b).map .str) =
      (a.merge b).alts.map fun p => (.str p.1, .str p.2) := otherLogs_map Value.str_beq _ _
  refine ⟨_, ?_, reads_ofDict
    (fun _ => get?_mergedSettings (orEmpty mine) (orEmpty theirs) mineWins) (a.merge b)⟩
  simp only [mergeChanKeys, hmine, htheirs, ok_bind, pure_eq, hlogs, sort_keys_valueLogs, hkey,
    hkeys, halts]
  rfl

/-- **The code's merge computes the merge of views.** -/
theorem mergeChanKeys_reads (ha : Reads mine a) (hb : Reads theirs b) (mineWins : Bool) :
    ∃ merged, mergeChanKeys mine theirs mineWins = .ok merged ∧ Reads merged (a.merge b) := by
  refine reads_of_valueLogs mineWins (ha.orEmpty.symm ▸ ha.notesOf) (hb.orEmpty.symm ▸ hb.notesOf)
    (noteAll_valueNotes a b) ?_
  rw [ha.orEmpty, hb.orEmpty]
  exact chosenKey_reads ha hb

end

end Quorum
