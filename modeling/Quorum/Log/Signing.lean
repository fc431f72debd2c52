import Quorum.Js.Json
import Quorum.Js.Sort
import Quorum.Log.Verify

/-!
# What a signature is for

An entry of a log is signed before it is sealed, and checked after it was opened and parsed
(`history.js`).  The bytes that are signed name the circle, the log and the entry, each property of
it under its name, and are made anew of what was parsed.  So they have to come out the same, in
whatever order the properties are then, and different for any other place or content
(`signature_binds`).

The cipher and the reader of JSON are not the program's; what is asked of them is in `Cipher` and
`JsonReader`.
-/

namespace Quorum

open Js

/-! ### Sealing and opening -/

/-- AES-GCM with a random nonce, in base64. -/
structure Cipher where
  encryptBlob : Str → List UInt8 → List UInt8 → Str
  decryptBlob : Str → Str → Option (List UInt8)
  decrypt_encrypt : ∀ key nonce data, decryptBlob key (encryptBlob key nonce data) = some data

/-- `new TextDecoder().decode` and `JSON.parse`: what was written is read back, with the properties
of an object in whatever order. -/
structure JsonReader where
  decode : List UInt8 → Str
  parse : Str → Option Value
  decode_utf8 : ∀ s, Js.WellFormed s → s.head? ≠ some 0xFEFF → decode (utf8 s) = s
  parse_text : ∀ j : Json, j.Distinct →
    ∃ v, parse j.text = some v ∧ Data v ∧ v.json.sorted = j.sorted

/-- There is such a reader: texts of JSON tell what they are of. -/
theorem nonempty_jsonReader : Nonempty JsonReader := by
  classical
  refine ⟨{ decode := fun bytes => if h : ∃ s, Js.WellFormed s ∧ utf8 s = bytes then h.choose else []
            parse := fun t => if h : ∃ v, Data v ∧ v.json.text = t then some h.choose else none
            decode_utf8 := ?_
            parse_text := ?_ }⟩
  · intro s hs _
    have h : ∃ s', Js.WellFormed s' ∧ utf8 s' = utf8 s := ⟨s, hs, rfl⟩
    rw [dif_pos h]
    exact utf8_inj h.choose_spec.1 hs h.choose_spec.2
  · intro j hj
    obtain ⟨v, hdata, rfl, -⟩ := hj.exists_value
    have h : ∃ v', Data v' ∧ v'.json.text = v.json.text := ⟨v, hdata, rfl⟩
    exact ⟨_, dif_pos h, h.choose_spec.1, by rw [Json.text_injective h.choose_spec.2]⟩

def LOG_ENTRY_VERSION : Number := .ofRat 1

/-- `{ v: LOG_ENTRY_VERSION, ...entry }`. -/
def versionedEntry (entry : Value) : Dict Str Value :=
  (Dict.ofList [(lit "v", .num LOG_ENTRY_VERSION)]).setAll entry.ownProps

/-- `sealLogEntry(hkeyB64, group, hid, entry, sign)`. -/
def sealLogEntry (cipher : Cipher) (nonce : List UInt8) (hkey group : Str) (hid entry : Value)
    (sign : List UInt8 → Str) : Except Error Str := do
  let body := versionedEntry entry
  let sig := sign (← entrySigningBytes utf8 group hid (.ofDict body))
  let sealed := body.set (lit "sig") (.str sig)
  return cipher.encryptBlob hkey nonce (utf8 (Value.ofDict sealed).json.text)

/-- `openLogEntry(hkeyB64, payloadB64)`. -/
def openLogEntry (cipher : Cipher) (reader : JsonReader) (hkey payload : Str) : Option Value := do
  let plain ← cipher.decryptBlob hkey payload
  reader.parse (reader.decode plain)

/-! ### The canonical text -/

theorem canonicalElems_eq (elems : List Value) : canonicalElems elems = elems.map canonicalJson := by
  induction elems with
  | nil => rfl
  | cons v elems ih => rw [canonicalElems, ih, List.map_cons]

theorem canonicalProps_eq (props : List (Str × Value)) : canonicalProps props =
    (props.filter fun p => !p.2.isUndefined).map fun p => (p.1, canonicalJson p.2) := by
  induction props with
  | nil => rfl
  | cons p props ih =>
    rw [canonicalProps, ih, List.filter_cons]
    cases p.2.isUndefined <;> rfl

variable {v : Value} {ref : ℕ} {props : List (Str × Value)} {d : Dict Str Value}

/-- **The canonical text is the text of the sorted value.** -/
theorem canonicalJson_eq (h : Data v) : canonicalJson v = v.json.sorted.text := by
  induction h with
  | undefined => rfl
  | null => rfl
  | bool b => rfl
  | num x =>
    cases x with
    | fin d => rfl
    | nan => rfl
    | inf neg => rfl
  | str s => rfl
  | @arr ref elems _ ih =>
    rw [canonicalJson, canonicalElems_eq, sorted_json_arr, Json.text, Json.texts_eq, List.map_map,
      List.map_congr_left ih]
    rfl
  | @obj ref props _ _ ih =>
    have hprops : canonicalProps props = (written props).map fun p => (p.1, p.2.text) := by
      rw [canonicalProps_eq, written, List.map_map]
      refine List.map_congr_left fun p hp => ?_
      rw [ih p (List.mem_of_mem_filter hp)]
      rfl
    have hsort := List.map_insertionSort (fun p q : Str × Json => p.1 ≤ q.1)
      (fun p q : Str × Str => p.1 ≤ q.1) (fun p => (p.1, p.2.text)) (written props)
      fun _ _ _ _ => Iff.rfl
    rw [canonicalJson, sorted_json_obj, Json.text, Json.propTexts_eq]
    rw [hprops, ← hsort, List.map_map]
    rfl

/-! ### The entry without its signature -/

instance Json.byName_trans : IsTrans (Str × Json) fun p q => p.1 ≤ q.1 :=
  ⟨fun _ _ _ => le_trans⟩

instance Json.byName_total : Std.Total fun p q : Str × Json => p.1 ≤ q.1 :=
  ⟨fun p q => le_total p.1 q.1⟩

/-- A value of JSON without its signature. -/
def dropSig : Json → Json
  | .obj props => .obj (props.filter fun p => p.1 ≠ lit "sig")
  | j => j

/-- Taking the signature off does not depend on the order of properties. -/
theorem sorted_json_unsignedPart (ref : ℕ) (props : List (Str × Value)) :
    (unsignedPart (.obj ref props)).json.sorted = dropSig (Value.obj ref props).json.sorted := by
  rw [unsignedPart, sorted_json_obj, sorted_json_obj, dropSig, ← filter_insertionSort]
  unfold written
  rw [List.filter_map, List.filter_filter, List.filter_filter]
  congr 3
  refine List.filter_congr fun p _ => ?_
  rw [Bool.and_comm]
  rfl

theorem data_unsignedPart (h : Data (.obj ref props)) :
    Data (unsignedPart (.obj ref props)) := by
  cases h with
  | obj _ hnodup h =>
    exact .obj ref (hnodup.sublist (List.filter_sublist.map _))
      fun p hp => h p (List.mem_of_mem_filter hp)

theorem entrySigningBytes_eq (group hid : Str) (h : Data (.obj ref props)) :
    entrySigningBytes utf8 group (.str hid) (.obj ref props) =
      .ok (utf8 (join [0] [SIGNING_CONTEXT, group, hid,
        (dropSig (Value.obj ref props).json.sorted).text])) := by
  unfold entrySigningBytes
  rw [canonicalJson_eq (data_unsignedPart h), sorted_json_unsignedPart]
  rfl

/-! ### Reading back -/

/-- Data that is sorted to an object is one. -/
theorem exists_eq_obj {props : List (Str × Json)} (h : v.json.sorted = .obj props) :
    ∃ ref props', v = .obj ref props' := by
  cases v with
  | obj ref props' => exact ⟨ref, props', rfl⟩
  | num x =>
    cases x <;> cases h
  | _ => cases h

theorem data_ofDict (h : ∀ p ∈ d.entries, Data p.2) : Data (.ofDict d) :=
  .obj 0 d.nodup_keys h

theorem data_set (h : ∀ p ∈ d.entries, Data p.2) {k : Str}
    (hv : Data v) : ∀ p ∈ (d.set k v).entries, Data p.2 := by
  intro p hp
  rcases Dict.get?_set_cases (Dict.mem_entries_iff.mp hp) with ⟨-, rfl⟩ | ⟨-, hget⟩
  · exact hv
  · exact h p (Dict.mem_entries_iff.mpr hget)

theorem data_setAll {l : List (Str × Value)} (hl : ∀ p ∈ l, Data p.2)
    (h : ∀ p ∈ d.entries, Data p.2) : ∀ p ∈ (d.setAll l).entries, Data p.2 := by
  induction l generalizing d with
  | nil => exact h
  | cons p l ih =>
    rw [List.forall_mem_cons] at hl
    exact ih hl.2 (data_set h hl.1)

theorem data_versionedEntry (h : Data (.obj ref props)) :
    ∀ p ∈ (versionedEntry (.obj ref props)).entries, Data p.2 := by
  cases h with
  | obj _ _ h =>
    refine data_setAll h (data_setAll ?_ ?_)
    · intro p hp
      obtain rfl := List.mem_singleton.mp hp
      exact .num _
    · intro p hp
      cases hp

/-- What is under other names is not changed. -/
theorem filter_entries_set (d : Dict Str Value) (k : Str) (v : Value) :
    (d.set k v).entries.filter (fun p => p.1 ≠ k) = d.entries.filter fun p => p.1 ≠ k := by
  rw [Dict.entries_set]
  split
  · rw [List.filter_map]
    have hcongr : d.entries.filter ((fun p => decide (p.1 ≠ k)) ∘ Dict.put k v) =
        d.entries.filter fun p => decide (p.1 ≠ k) :=
      List.filter_congr fun p _ => by rw [Function.comp_apply, Dict.put_fst]
    rw [hcongr]
    refine (List.map_congr_left fun p hp => ?_).trans (List.map_id _)
    have hne : p.1 ≠ k := by simpa using (List.mem_filter.mp hp).2
    simp [Dict.put, hne]
  · simp

theorem unsignedPart_set_sig (d : Dict Str Value) (v : Value) :
    unsignedPart (.ofDict (d.set (lit "sig") v)) = unsignedPart (.ofDict d) :=
  congrArg (Value.obj 0) (filter_entries_set d (lit "sig") v)

/-- What was sealed is opened: the entry as it was, but for the order of its properties. -/
theorem exists_openLogEntry (cipher : Cipher) (reader : JsonReader) (nonce : List UInt8)
    (hkey : Str) (h : Data (.ofDict d)) :
    ∃ parsed, openLogEntry cipher reader hkey
        (cipher.encryptBlob hkey nonce (utf8 (Value.ofDict d).json.text)) = some parsed ∧
      Data parsed ∧ parsed.json.sorted = (Value.ofDict d).json.sorted := by
  obtain ⟨parsed, hparsed, hdata, hsorted⟩ := reader.parse_text _ h.json
  refine ⟨parsed, ?_, hdata, hsorted⟩
  have hdecode : reader.decode (utf8 (Value.ofDict d).json.text) = (Value.ofDict d).json.text := by
    refine reader.decode_utf8 _ (Json.wellFormed_text _) ?_
    rw [Value.ofDict, Value.json, Json.text_obj]
    exact show some (unit '\x7b') ≠ some 0xFEFF by decide
  unfold openLogEntry
  rw [cipher.decrypt_encrypt]
  exact (congrArg reader.parse hdecode).trans hparsed

/-- A text stands under the same name whatever the order of the properties. -/
theorem get_of_sorted_eq (hdata : Data v)
    (h : v.json.sorted = (Value.ofDict d).json.sorted) {k s : Str} (hk : d.get? k = some (.str s)) :
    v.get k = .str s := by
  obtain ⟨ref, props, rfl⟩ := exists_eq_obj (h.trans (sorted_json_obj 0 _))
  rw [Value.ofDict, sorted_json_obj, sorted_json_obj] at h
  have hperm : (written props).Perm (written d.entries) := by
    have hsorted := List.perm_insertionSort (fun p q : Str × Json => p.1 ≤ q.1) (written d.entries)
    rw [← Json.obj.inj h] at hsorted
    exact (List.perm_insertionSort _ _).symm.trans hsorted
  have hmem : (k, Json.str s) ∈ written d.entries :=
    List.mem_map.mpr ⟨(k, .str s), List.mem_filter.mpr ⟨Dict.mem_entries_iff.mpr hk, rfl⟩, rfl⟩
  obtain ⟨⟨name, v⟩, hp, heq⟩ := List.mem_map.mp (hperm.mem_iff.mpr hmem)
  obtain ⟨rfl, hjson⟩ := Prod.mk.inj heq
  -- only a text is written as a text
  have hv : v = .str s := by
    cases v with
    | str t => rw [Json.str.inj hjson]
    | num x => cases x <;> cases hjson
    | _ => cases hjson
  cases hdata with
  | obj _ hnodup _ =>
    have hdistinct := (List.pairwise_map.mp hnodup).imp fun hne => beq_false_of_ne hne
    have hget : (⟨props, hdistinct⟩ : Dict Str Value).get? name = some v :=
      Dict.mem_entries_iff.mp (List.mem_of_mem_filter hp)
    change Option.getD (Dict.get? ⟨props, hdistinct⟩ name) _ = _
    rw [hget, Option.getD_some, hv]

/-- **What was signed is what is checked.** -/
theorem signed_bytes_survive (cipher : Cipher) (reader : JsonReader) (nonce : List UInt8)
    (sign : List UInt8 → Str) (hkey group hid : Str) (h : Data (.obj ref props)) :
    ∃ signed payload parsed,
      entrySigningBytes utf8 group (.str hid) (.ofDict (versionedEntry (.obj ref props))) =
        .ok signed ∧
      sealLogEntry cipher nonce hkey group (.str hid) (.obj ref props) sign = .ok payload ∧
      openLogEntry cipher reader hkey payload = some parsed ∧
      parsed.get (lit "sig") = .str (sign signed) ∧
      entrySigningBytes utf8 group (.str hid) parsed = .ok signed := by
  set body := versionedEntry (.obj ref props)
  have hbody : ∀ p ∈ body.entries, Data p.2 := data_versionedEntry h
  set signed := utf8 (join [0] [SIGNING_CONTEXT, group, hid,
    (dropSig (Value.ofDict body).json.sorted).text])
  have hsigned : entrySigningBytes utf8 group (.str hid) (.ofDict body) = .ok signed :=
    entrySigningBytes_eq group hid (data_ofDict hbody)
  have hsealed := data_ofDict (data_set hbody (.str (sign signed)) (k := lit "sig"))
  obtain ⟨parsed, hopen, hdata, hsorted⟩ := exists_openLogEntry cipher reader nonce hkey hsealed
  refine ⟨signed, _, parsed, hsigned, ?_, hopen,
    get_of_sorted_eq hdata hsorted (Dict.get?_set_self ..), ?_⟩
  · unfold sealLogEntry
    dsimp only
    rw [show versionedEntry (.obj ref props) = body from rfl, hsigned]
    rfl
  · -- the same value but for the signature, whatever was parsed
    have hdrop : dropSig (Value.ofDict (body.set (lit "sig") (.str (sign signed)))).json.sorted =
        dropSig (Value.ofDict body).json.sorted := by
      have hpart := congrArg (fun v => v.json.sorted) (unsignedPart_set_sig body (.str (sign signed)))
      exact (sorted_json_unsignedPart 0 _).symm.trans
        (hpart.trans (sorted_json_unsignedPart 0 body.entries))
    obtain ⟨ref', props', rfl⟩ := exists_eq_obj (hsorted.trans (sorted_json_obj 0 _))
    rw [entrySigningBytes_eq group hid hdata, hsorted, hdrop]

/-! ### What the bytes tell -/

/-- A circle or log id: well-formed, and without the separator. -/
def IsId (s : Str) : Prop := Js.WellFormed s ∧ 0 ∉ s

/-- The fields that are signed, each after a separator. -/
theorem join_fields (group hid text : Str) :
    join [0] [SIGNING_CONTEXT, group, hid, text] =
      SIGNING_CONTEXT ++ 0 :: (group ++ 0 :: (hid ++ 0 :: text)) := by
  simp [join]

theorem wellFormed_fields {group hid text : Str} (hgroup : IsId group) (hhid : IsId hid)
    (htext : Js.WellFormed text) : Js.WellFormed (join [0] [SIGNING_CONTEXT, group, hid, text]) := by
  have hzero {s : Str} (hs : Js.WellFormed s) : Js.WellFormed (0 :: s) := .unit (by decide) (by decide) hs
  have hcontext : Js.WellFormed SIGNING_CONTEXT := by
    refine .of_forall fun u hu => ?_
    have hall : SIGNING_CONTEXT.all (fun u => !isHigh u && !isLow u) = true := by decide
    simpa using List.all_eq_true.mp hall u hu
  rw [join_fields]
  exact hcontext.append (hzero (hgroup.1.append (hzero (hhid.1.append (hzero htext)))))

/-- **The bytes tell the circle, the log and the entry.** -/
theorem entrySigningBytes_inj {group hid group' hid' : Str} (hgroup : IsId group) (hhid : IsId hid)
    (hgroup' : IsId group') (hhid' : IsId hid') {ref' : ℕ} {props' : List (Str × Value)}
    (hdata : Data (.obj ref props)) (hdata' : Data (.obj ref' props'))
    (h : entrySigningBytes utf8 group (.str hid) (.obj ref props) =
      entrySigningBytes utf8 group' (.str hid') (.obj ref' props')) :
    group = group' ∧ hid = hid' ∧ (unsignedPart (.obj ref props)).json.sorted =
      (unsignedPart (.obj ref' props')).json.sorted := by
  rw [entrySigningBytes_eq group hid hdata, entrySigningBytes_eq group' hid' hdata'] at h
  have hfields := utf8_inj (wellFormed_fields hgroup hhid (Json.wellFormed_text _))
    (wellFormed_fields hgroup' hhid' (Json.wellFormed_text _)) (Except.ok.inj h)
  rw [join_fields, join_fields] at hfields
  have hids := (List.cons.inj (List.append_cancel_left hfields)).2
  obtain ⟨hgroups, hlogs⟩ := append_cons_inj_of_not_mem hgroup.2 hgroup'.2 hids
  obtain ⟨hhids, htext⟩ := append_cons_inj_of_not_mem hhid.2 hhid'.2 hlogs
  refine ⟨hgroups, hhids, ?_⟩
  rw [sorted_json_unsignedPart, sorted_json_unsignedPart]
  exact Json.text_injective htext

theorem entrySigningBytes_reordered {group hid : Str} {ref' : ℕ}
    {props' : List (Str × Value)} (hdata : Data (.obj ref props))
    (hdata' : Data (.obj ref' props')) (h : Reordered (.obj ref props) (.obj ref' props')) :
    entrySigningBytes utf8 group (.str hid) (.obj ref props) =
      entrySigningBytes utf8 group (.str hid) (.obj ref' props') := by
  rw [entrySigningBytes_eq group hid hdata, entrySigningBytes_eq group hid hdata', h.sorted_json.1]

/-- **A signature is for one entry in one log.**  The entry that was parsed carries the signature of
the bytes that are made of it; they do not depend on the order of properties; and they tell the
circle, the log and what the entry says. -/
theorem signature_binds :
    (∀ (cipher : Cipher) (reader : JsonReader) (nonce : List UInt8) (sign : List UInt8 → Str)
      (hkey group hid : Str) (ref : ℕ) (props : List (Str × Value)), Data (.obj ref props) →
      ∃ signed payload parsed,
        entrySigningBytes utf8 group (.str hid) (.ofDict (versionedEntry (.obj ref props))) =
          .ok signed ∧
        sealLogEntry cipher nonce hkey group (.str hid) (.obj ref props) sign = .ok payload ∧
        openLogEntry cipher reader hkey payload = some parsed ∧
        parsed.get (lit "sig") = .str (sign signed) ∧
        entrySigningBytes utf8 group (.str hid) parsed = .ok signed) ∧
    (∀ (group hid : Str) (ref ref' : ℕ) (props props' : List (Str × Value)),
      Data (.obj ref props) → Data (.obj ref' props') →
      Reordered (.obj ref props) (.obj ref' props') →
      entrySigningBytes utf8 group (.str hid) (.obj ref props) =
        entrySigningBytes utf8 group (.str hid) (.obj ref' props')) ∧
    ∀ (group hid group' hid' : Str) (ref ref' : ℕ) (props props' : List (Str × Value)),
      IsId group → IsId hid → IsId group' → IsId hid' →
      Data (.obj ref props) → Data (.obj ref' props') →
      entrySigningBytes utf8 group (.str hid) (.obj ref props) =
        entrySigningBytes utf8 group' (.str hid') (.obj ref' props') →
      group = group' ∧ hid = hid' ∧ (unsignedPart (.obj ref props)).json.sorted =
        (unsignedPart (.obj ref' props')).json.sorted :=
  ⟨fun cipher reader nonce sign hkey group hid _ _ =>
      signed_bytes_survive cipher reader nonce sign hkey group hid,
    fun _ _ _ _ _ _ => entrySigningBytes_reordered,
    fun _ _ _ _ _ _ _ _ hgroup hhid hgroup' hhid' =>
      entrySigningBytes_inj hgroup hhid hgroup' hhid'⟩

/-- A cipher that does not hide anything. -/
def plain : Cipher where
  encryptBlob _ _ data := data.map fun b => Fin.ofNat _ b.toNat
  decryptBlob _ text := some (text.map fun u => UInt8.ofNat u.val)
  decrypt_encrypt _ _ data := by
    rw [List.map_map]
    refine congrArg some ((List.map_congr_left fun b _ => ?_).trans (List.map_id data))
    simp [Nat.mod_eq_of_lt (b.toNat_lt.trans (by decide : 2 ^ 8 < 65536))]

/-- A line of a channel, sealed and opened again. -/
theorem line_keeps_signature : ∃ (reader : JsonReader) (payload : Str) (parsed : Value),
    sealLogEntry plain [] [] (lit "circle") (.str (lit "log"))
      (.obj 0 [(lit "text", .str (lit "hi"))]) (fun _ => lit "c2ln") = .ok payload ∧
    openLogEntry plain reader [] payload = some parsed ∧
    parsed.get (lit "sig") = .str (lit "c2ln") := by
  obtain ⟨reader⟩ := nonempty_jsonReader
  have hdata : Data (.obj 0 [(lit "text", .str (lit "hi"))]) := by
    refine .obj 0 (List.nodup_singleton _) fun p hp => ?_
    rw [List.mem_singleton.mp hp]
    exact .str _
  obtain ⟨-, payload, parsed, -, hsealed, hopened, hsig, -⟩ := signature_binds.1 plain reader []
    (fun _ => lit "c2ln") [] (lit "circle") (lit "log") 0 _ hdata
  exact ⟨reader, payload, parsed, hsealed, hopened, hsig⟩

end Quorum
