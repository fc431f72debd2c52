import Quorum.Envelope.RoomKeys
import Quorum.Js.Equiv.Number
import Quorum.Order.Along

/-!
# Settings of a channel

The entry of a channel has settings, a topic and how long messages are kept, next to its keys.  An
admin changes them (`chanset`), and every rebroadcast carries them along for those who have none.
The merge takes a setting from the side that wins, or from the other side if that one has it
(`ownField_merge`).

So what other members send leaves a setting alone that a channel has.  One that the channel does not
have may be put in by anybody, in a rebroadcast: the settings of a channel stay as they are if no
rebroadcast lists one for it that it lacks (`settings_kept`).
-/

namespace Quorum

open Js

/-! ### Fields of an entry -/

/-- A setting of an entry, if the entry has it. -/
def ownField (entry : Value) (field : Str) : Option Value :=
  (Dict.ofList (settingsOf entry)).get? field

/-- The settings an entry may have. -/
def settingFields : List Str := [lit "topic", lit "retention"]

variable {field : Str} {entry : Value} {c : Str}

theorem settingFields_not_key (h : field ∈ settingFields) : field ∉ keyFields := by
  revert field
  decide

theorem get?_setAll (d : Dict Str Value) (l : List (Str × Value)) (k : Str) :
    (d.setAll l).get? k = ((Dict.ofList l).get? k).or (d.get? k) := by
  unfold Dict.ofList Dict.setAll
  induction l using List.reverseRecOn with
  | nil => rfl
  | append_singleton l p ih =>
    rw [List.foldl_concat, List.foldl_concat, Dict.get?_set, Dict.get?_set, ih]
    split <;> rfl

/-- The settings of an object that the code built. -/
theorem ownField_ofDict (d : Dict Str Value) (h : field ∉ keyFields) :
    ownField (.ofDict d) field = d.get? field := by
  have hsettings : settingsOf (.ofDict d) = d.entries.filter fun p => p.1 ∉ keyFields := rfl
  have hnodup : ((settingsOf (.ofDict d)).map Prod.fst).Nodup := by
    rw [hsettings]
    exact d.nodup_keys.sublist (List.filter_sublist.map _)
  unfold ownField Dict.ofList
  cases hget : d.get? field with
  | some v =>
    refine Dict.get?_setAll_of_mem hnodup ?_ _
    rw [hsettings, List.mem_filter]
    exact ⟨Dict.mem_entries_iff.mpr hget, by simpa using h⟩
  | none =>
    rw [Dict.get?_setAll_of_notMem]
    · rfl
    · intro hmem
      obtain ⟨p, hp, rfl⟩ := List.mem_map.mp hmem
      rw [hsettings, List.mem_filter] at hp
      have hsome := Dict.mem_entries_iff.mp hp.1
      rw [hget] at hsome
      cases hsome

theorem ownField_orEmpty (entry : Value) (field : Str) :
    ownField (orEmpty entry) field = ownField entry field := by
  cases entry <;> rfl

theorem mem_keyFields_of_keyProps {primary : Value} {hkey : Option Value} {hkeys : List Value}
    {alts : List (Value × Value)}
    (h : field ∈ (keyProps primary hkey hkeys alts).map Prod.fst) : field ∈ keyFields := by
  obtain ⟨p, hp, rfl⟩ := List.mem_map.mp h
  simp only [keyProps, List.mem_append, List.mem_cons] at hp
  rcases hp with ((hp | hp) | hp) | hp
  · rw [hp]
    exact (by decide : lit "hid" ∈ keyFields)
  · obtain ⟨k, -, rfl⟩ := Option.map_eq_some_iff.mp (Option.mem_toList.mp hp)
    exact (by decide : lit "hkey" ∈ keyFields)
  · split at hp
    · cases hp
    · rw [List.mem_singleton.mp hp]
      exact (by decide : lit "hkeys" ∈ keyFields)
  · split at hp
    · cases hp
    · rw [List.mem_singleton.mp hp]
      exact (by decide : lit "alts" ∈ keyFields)

/-- **The merge takes a setting from the side that wins if it has it, else from the other.** -/
theorem ownField_merge {mine theirs merged : Value} {mineWins : Bool}
    (h : mergeChanKeys mine theirs mineWins = .ok merged) (hf : field ∉ keyFields) :
    ownField merged field =
      if mineWins then (ownField mine field).or (ownField theirs field)
      else (ownField theirs field).or (ownField mine field) := by
  have hsettings : (mergedSettings (orEmpty mine) (orEmpty theirs) mineWins).get? field =
      if mineWins then (ownField mine field).or (ownField theirs field)
      else (ownField theirs field).or (ownField mine field) := by
    unfold mergedSettings
    cases mineWins with
    | true =>
      rw [if_pos rfl, if_pos rfl, get?_setAll]
      exact congrArg₂ Option.or (ownField_orEmpty mine field) (ownField_orEmpty theirs field)
    | false =>
      rw [if_neg Bool.false_ne_true, if_neg Bool.false_ne_true, get?_setAll]
      exact congrArg₂ Option.or (ownField_orEmpty theirs field) (ownField_orEmpty mine field)
  rw [← hsettings]
  obtain ⟨notes, -, h⟩ := bind_eq_ok.mp h
  obtain ⟨notes', -, h⟩ := bind_eq_ok.mp h
  obtain ⟨hids, -, h⟩ := bind_eq_ok.mp h
  cases hids with
  | nil =>
    cases h
    exact ownField_ofDict _ hf
  | cons primary others =>
    obtain ⟨hkey, -, h⟩ := bind_eq_ok.mp h
    cases h
    rw [ownField_ofDict _ hf, Dict.get?_setAll_of_notMem]
    exact fun hmem => hf (mem_keyFields_of_keyProps hmem)

/-! ### Reading an entry -/

/-- An object has no two properties of one name. -/
def Proper : Value → Prop
  | .obj _ props => (props.map Prod.fst).Nodup
  | _ => True

theorem proper_ofDict (d : Dict Str Value) : Proper (.ofDict d) := d.nodup_keys

theorem indexName_ne (h : field ∈ settingFields) (i : ℕ) :
    Value.indexName i ≠ field := by
  rintro rfl
  have hdigits : ∀ u ∈ Value.indexName i, Number.isDigit u = true := by
    unfold Value.indexName
    split
    · intro u hu
      rw [List.mem_singleton.mp (show u ∈ [unit '0'] from hu)]
      decide
    · exact fun u hu => Number.isDigit_of_mem_digits hu
  generalize Value.indexName i = name at h hdigits
  simp only [settingFields, List.mem_cons, List.not_mem_nil, or_false] at h
  rcases h with rfl | rfl
  · exact absurd (hdigits (unit 't') (by decide)) (by decide)
  · exact absurd (hdigits (unit 'r') (by decide)) (by decide)

theorem ownField_of_indices {α : Type} (l : List (α × ℕ)) (f : α → Value)
    (h : entry.ownProps = l.map fun p => (Value.indexName p.2, f p.1))
    (hf : field ∈ settingFields) : ownField entry field = none := by
  unfold ownField Dict.ofList
  rw [Dict.get?_setAll_of_notMem]
  · rfl
  · intro hmem
    obtain ⟨p, hp, hname⟩ := List.mem_map.mp hmem
    have hp := (List.mem_filter.mp hp).1
    rw [h] at hp
    obtain ⟨q, -, rfl⟩ := List.mem_map.mp hp
    exact indexName_ne hf q.2 hname

/-- What the code reads of a setting. -/
theorem get_eq_ownField (hproper : Proper entry)
    (hf : field ∈ settingFields) : entry.get field = (ownField entry field).getD .undefined := by
  have hinherited : Value.inherited field = .undefined := by
    unfold Value.inherited
    rw [if_neg]
    revert field
    decide
  have hat : field ≠ lit "at" := by
    rintro rfl
    revert hf
    decide
  cases entry with
  | obj ref props =>
    let d : Dict Str Value := ⟨props, by
      refine (List.pairwise_map.mp hproper).imp fun h => ?_
      simpa using h⟩
    change (Value.ofDict d).get field = (ownField (.ofDict d) field).getD .undefined
    rw [Value.get_ofDict, ownField_ofDict _ (settingFields_not_key hf), hinherited]
  | arr ref l =>
    rw [ownField_of_indices l.zipIdx (fun v => v) rfl hf]
    exact (if_neg hat).trans hinherited
  | str s =>
    rw [ownField_of_indices s.zipIdx (fun u => .str [u]) rfl hf]
    exact (if_neg hat).trans hinherited
  | bool b => exact hinherited
  | num x => exact hinherited
  | undefined => rfl
  | null => rfl
  | native n => rfl

theorem proper_merge {mine theirs merged : Value} {mineWins : Bool}
    (h : mergeChanKeys mine theirs mineWins = .ok merged) : Proper merged := by
  obtain ⟨notes, -, h⟩ := bind_eq_ok.mp h
  obtain ⟨notes', -, h⟩ := bind_eq_ok.mp h
  obtain ⟨hids, -, h⟩ := bind_eq_ok.mp h
  cases hids with
  | nil =>
    cases h
    exact proper_ofDict _
  | cons primary others =>
    obtain ⟨hkey, -, h⟩ := bind_eq_ok.mp h
    cases h
    exact proper_ofDict _

/-! ### The entry of a channel -/

/-- The settings of a channel are those of an entry. -/
def Rooms.HasSettings (c : Str) (entry : Value) (rooms : Rooms) : Prop :=
  ∃ table entry', rooms.chanMeta = some table ∧ table.own.get? c = some entry' ∧ Proper entry' ∧
    ∀ field ∈ settingFields, ownField entry' field = ownField entry field

/-- An entry that is listed for a channel has no setting that another entry lacks. -/
def Harmless (entry listed : Value) : Prop :=
  ∀ field ∈ settingFields, ownField entry field = none → ownField listed field = none

theorem Rooms.HasSettings.of_chanMeta_eq {rooms rooms' : Rooms}
    (h : rooms'.chanMeta = rooms.chanMeta) (hrooms : rooms.HasSettings c entry) :
    rooms'.HasSettings c entry := by
  obtain ⟨table, entry', htable, hrest⟩ := hrooms
  exact ⟨table, entry', h.trans htable, hrest⟩

/-- One entry of a rebroadcast. -/
theorem hasSettings_mergeInto {table table' : Table} {p : Str × Value}
    (hm : Envelope.mergeInto table p = .ok table') (hp : p.1 = c → Harmless entry p.2)
    (h : ∃ entry', table.own.get? c = some entry' ∧ Proper entry' ∧
      ∀ field ∈ settingFields, ownField entry' field = ownField entry field) :
    ∃ entry', table'.own.get? c = some entry' ∧ Proper entry' ∧
      ∀ field ∈ settingFields, ownField entry' field = ownField entry field := by
  obtain ⟨entry', hget, hproper, hsame⟩ := h
  obtain ⟨merged, hmerged, ht⟩ := bind_eq_ok.mp hm
  cases ht
  refine ⟨_, Table.own_assign_get? hget, ?_⟩
  split
  · rename_i hc
    rw [hc, Table.get_of_own hget] at hmerged
    refine ⟨proper_merge hmerged, fun field hf => ?_⟩
    rw [ownField_merge hmerged (settingFields_not_key hf), if_pos rfl, hsame field hf]
    cases hown : ownField entry field with
    | some v => rfl
    | none => exact hp hc field hf hown
  · exact ⟨hproper, hsame⟩

/-- The entries of a rebroadcast, up to the first that throws. -/
theorem hasSettings_fillEntries {listed : List (Str × Value)}
    (hlisted : ∀ p ∈ listed, p.1 = c → Harmless entry p.2) :
    Act.Moves (Act.Carries (Rooms.HasSettings c entry)) (Envelope.fillEntries listed) := by
  refine Act.moves_read_bind fun rooms => ?_
  cases htable : rooms.chanMeta with
  | none =>
    rintro ⟨table, entry', htable', -⟩
    rw [htable] at htable'
    cases htable'
  | some table =>
    refine Act.moves_forM (fun p hp => Act.moves_read_bind fun rooms hrooms => ?_) rooms
    obtain ⟨table, entry', htable, hrest⟩ := hrooms
    rw [htable, Option.getD_some]
    cases hm : Envelope.mergeInto table p with
    | error e => exact ⟨table, entry', htable, hrest⟩
    | ok table' =>
      obtain ⟨entry'', hafter⟩ := hasSettings_mergeInto hm (hlisted p hp) ⟨entry', hrest⟩
      exact ⟨table', entry'', rfl, hafter⟩

/-! ### Envelopes of members -/

namespace Envelope

variable (env : Envelope)

/-- The kinds about rooms that need an admin. -/
theorem refused_of_member {kind : Kind} (hkind : Kind.ofContent env.content = some kind)
    (hrooms : kind.onRooms = true) (hchat : kind ≠ .chat ∧ kind ≠ .game ∧ kind ≠ .file)
    (hmember : env.ctx.admin = false) : env.refused = true := by
  unfold refused adminRequirement
  rw [hkind, hmember]
  cases kind with
  | chat => exact absurd rfl hchat.1
  | game => exact absurd rfl hchat.2.1
  | file => exact absurd rfl hchat.2.2
  | chanset | chan | vchan | chanRen | chanDel | vchanRen | vchanDel => rfl
  | _ => cases hrooms

end Envelope

/-- A rebroadcast lists no setting for a channel that an entry lacks. -/
def Delivery.Harmless (c : Str) (entry : Value) (e : Delivery) : Prop :=
  Kind.ofContent e.content = some .meta_ →
    ∀ p ∈ (e.content.get (lit "chanMeta")).ownProps, p.1 = c → Quorum.Harmless entry p.2

/-- A device that is not catching up, where a channel has the settings of an entry. -/
def Record.HasSettings (c : Str) (entry : Value) (record : Record) : Prop :=
  record.pendingMetaSync = false ∧ record.rooms.HasSettings c entry

/-- A rebroadcast fills gaps only. -/
theorem hasSettings_applyMeta {env : Envelope} {record : Record}
    (hharmless : ∀ p ∈ (env.field "chanMeta").ownProps, p.1 = c → Harmless entry p.2)
    (h : record.HasSettings c entry) : (env.applyMeta record).state.HasSettings c entry := by
  rw [env.applyMeta_of_not_pending h.1]
  refine Envelope.moves_fillMeta (R := Act.Carries (Record.HasSettings c entry))
    (fun x hx record hrecord => ?_) (fun _ _ _ hrecord => hrecord) (fun _ _ _ hrecord => hrecord)
    { record with name := (env.field "name").orElse record.name } h
  refine ⟨hrecord.1, ?_⟩
  simp only [List.mem_cons, List.not_mem_nil, or_false] at hx
  rcases hx with rfl | rfl
  · exact .of_chanMeta_eq (env.sameMeta_fillRooms record.rooms) hrecord.2
  · have hfill : Act.Moves (Act.Carries (Rooms.HasSettings c entry)) env.fillChanMeta := by
      unfold Envelope.fillChanMeta
      dsimp only
      split
      · exact Act.moves_bind (hasSettings_fillEntries hharmless) fun _ => Act.moves_emit _
      · exact Act.moves_pure _
    exact hfill record.rooms hrecord.2

/-- **What a member sends leaves the settings of a channel alone**, unless it is a rebroadcast that
lists one the channel lacks. -/
theorem hasSettings_apply {e : Delivery} {record : Record}
    (hmember : e.ctx.admin = false) (hharmless : e.Harmless c entry)
    (h : record.HasSettings c entry) : (e.apply record).HasSettings c entry := by
  rcases e.apply_cases record with heq | ⟨kind, hkind, hrefused, heq⟩ <;> rw [heq]
  · exact h
  · by_cases hmeta : kind = .meta_
    · subst hmeta
      exact hasSettings_applyMeta (hharmless hkind) h
    · have hpending : ((e.envelope record.id).applyKind kind record).state.pendingMetaSync =
          record.pendingMetaSync := by
        cases hquiet : kind.quiet with
        | true => rw [applyKind_quiet _ hquiet]
        | false =>
          cases kind with
          | meta_ => exact absurd rfl hmeta
          | pres | want | type | react | edit | del | role => cases hquiet
          | _ => rfl
      refine ⟨hpending.trans h.1, Rooms.HasSettings.of_chanMeta_eq ?_ h.2⟩
      cases hrooms : kind.onRooms with
      | false => exact congrArg Rooms.chanMeta (rooms_applyKind _ hrooms hmeta record)
      | true =>
        by_cases hlines : kind ≠ .chat ∧ kind ≠ .game ∧ kind ≠ .file
        · have htrue := (e.envelope record.id).refused_of_member hkind hrooms hlines hmember
          rw [hrefused] at htrue
          cases htrue
        · cases kind with
          | chat => exact (e.envelope record.id).sameMeta_applyChat record.rooms
          | game => exact (e.envelope record.id).sameMeta_applyGame record.rooms
          | file => exact (e.envelope record.id).sameMeta_applyFile record.rooms
          | _ => exact absurd ⟨nofun, nofun, nofun⟩ hlines

/-- **Members do not change what a channel keeps, if their rebroadcasts list no setting for it that
it lacks.** -/
theorem settings_kept {record : Record} {c : Str} {table : Table} {entry : Value}
    (hpending : record.pendingMetaSync = false) (htable : record.rooms.chanMeta = some table)
    (hentry : table.own.get? c = some entry) (hproper : Proper entry) {envelopes : List Delivery}
    (hmembers : ∀ e ∈ envelopes, e.ctx.admin = false)
    (hharmless : ∀ e ∈ envelopes, e.Harmless c entry) :
    ∃ table' entry', (runEnvelopes record envelopes).rooms.chanMeta = some table' ∧
      table'.own.get? c = some entry' ∧
      entry'.get (lit "retention") = entry.get (lit "retention") ∧
      entry'.get (lit "topic") = entry.get (lit "topic") := by
  have hall : Along Delivery.apply (fun _ e => e.ctx.admin = false ∧ e.Harmless c entry) record
      envelopes := along_of_forall (fun e he _ => ⟨hmembers e he, hharmless e he⟩) record
  obtain ⟨-, table', entry', htable', hentry', hproper', hsame⟩ :=
    hall.preserves (P := Record.HasSettings c entry)
      (fun record e h hok => hasSettings_apply hok.1 hok.2 h)
      ⟨hpending, table, entry, htable, hentry, hproper, fun _ _ => rfl⟩
  have hget : ∀ field ∈ settingFields, entry'.get field = entry.get field := by
    intro field hf
    rw [get_eq_ownField hproper' hf, get_eq_ownField hproper hf, hsame field hf]
  exact ⟨table', entry', htable', hentry', hget _ (by decide), hget _ (by decide)⟩

/-- A rebroadcast of a member, with a minute for what `#general` keeps. -/
def aMinute : Delivery where
  sender := lit "mallory"
  content := .obj 2 [(lit "k", .str (lit "meta")), (lit "chanMeta", .obj 3 [(lit "general",
    .obj 4 [(lit "retention", .num (.ofRat 60))])])]
  ctx := { plainCtx with isAdmin := some false }

/-- What `#general` keeps, in a circle. -/
def generalField (record : Record) (field : String) : Option Value :=
  (record.rooms.chanMeta.bind (·.own.get? (lit "general"))).map (·.get (lit field))

def topicEntry : Value := .obj 1 [(lit "topic", .str (lit "hello"))]

/-- An entry that also says how long messages are kept. -/
def fullEntry : Value :=
  .obj 1 [(lit "topic", .str (lit "hello")), (lit "retention", .num (.ofRat 3600))]

theorem hour_kept :
    generalField (runEnvelopes (circleWith [(lit "general", fullEntry)] false) [aMinute])
      "retention" = some (.num (.ofRat 3600)) := by
  have hharmless : aMinute.Harmless (lit "general") fullEntry := by
    intro _ p _ _ field hf hnone
    simp only [settingFields, List.mem_cons, List.not_mem_nil, or_false] at hf
    rcases hf with rfl | rfl
    · cases (show ownField fullEntry (lit "topic") = some _ from rfl).symm.trans hnone
    · cases (show ownField fullEntry (lit "retention") = some _ from rfl).symm.trans hnone
  have hproper : Proper fullEntry := by
    change [lit "topic", lit "retention"].Nodup
    decide
  obtain ⟨table, entry, htable, hentry, hretention, -⟩ :=
    @settings_kept (circleWith [(lit "general", fullEntry)] false) (lit "general") _ _ rfl rfl rfl
      hproper [aMinute] (by simp [aMinute, Ctx.admin]) (by simpa using hharmless)
  rw [generalField, htable, Option.bind_some, hentry, Option.map_some, hretention]
  rfl

/-- In a channel that keeps everything, a member sets how long messages are kept. -/
theorem member_sets_retention :
    generalField (circleWith [(lit "general", topicEntry)] false) "retention" = some .undefined ∧
      generalField (runEnvelopes (circleWith [(lit "general", topicEntry)] false) [aMinute])
        "retention" = some (.num (.ofRat 60)) := by
  constructor <;> rfl

end Quorum
