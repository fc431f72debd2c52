import Quorum.ChanKeys.Keeps
import Quorum.Envelope.Frame

/-!
# Room keys across an envelope

Room keys are merged and never picked between, so that no member is locked out of what a room has
said.  Settings and rebroadcasts keep that: whatever they carry, every key of every channel is
still held afterwards (`Rooms.Keeps`).  Two reducers replace an entry instead of merging it.  A
device that is catching up adopts the table of a rebroadcast as it is, and a renamed channel's
entry is written over an entry that stands under the new name.

`Delivery.keepsKeys_iff` says when an envelope keeps every key: exactly if the adopted table holds what the
record held, and the renamed entry holds what the overwritten one held.
-/

namespace Quorum

open Js

/-! ### The keys of a record -/

/-- A table of settings holds a key for a channel, in an entry of its own. -/
def TableHolds (table : Table) (c k : Str) : Prop :=
  ∃ entry, table.own.get? c = some entry ∧ HoldsKey entry k

namespace Rooms

/-- The rooms hold a key for a channel. -/
def Holds (rooms : Rooms) (c k : Str) : Prop :=
  ∃ table, rooms.chanMeta = some table ∧ TableHolds table c k

/-- Every key is still held. -/
def Keeps (rooms rooms' : Rooms) : Prop := ∀ c k, rooms.Holds c k → rooms'.Holds c k

instance : Std.Refl Keeps := ⟨fun _ _ _ h => h⟩

instance : IsTrans Rooms Keeps := ⟨fun _ _ _ h h' c k hk => h' c k (h c k hk)⟩

theorem Keeps.of_chanMeta_eq {rooms rooms' : Rooms} (h : rooms'.chanMeta = rooms.chanMeta) :
    rooms.Keeps rooms' := by
  rintro c k ⟨table, ht, hk⟩
  exact ⟨table, h.trans ht, hk⟩

theorem holds_iff {rooms : Rooms} {table : Table} (h : rooms.chanMeta = some table) {c k : Str} :
    rooms.Holds c k ↔ TableHolds table c k := by
  unfold Holds
  rw [h]
  simp

end Rooms

/-! ### Writing entries -/

section

variable {table : Table} {c k key : Str}

theorem tableHolds_define (h : TableHolds table c k) {entry : Value}
    (hentry : HoldsKey (table.get key) k → HoldsKey entry k) :
    TableHolds (table.define key entry) c k := by
  obtain ⟨old, hold, hk⟩ := h
  by_cases hc : key = c
  · subst hc
    rw [Table.get_of_own hold] at hentry
    exact ⟨entry, Dict.get?_set_self .., hentry hk⟩
  · exact ⟨old, (Dict.get?_set_of_ne _ _ hc).trans hold, hk⟩

theorem tableHolds_assign (h : TableHolds table c k) {entry : Value}
    (hentry : HoldsKey (table.get key) k → HoldsKey entry k) :
    TableHolds (table.assign key entry) c k := by
  obtain ⟨old, hold, hk⟩ := h
  refine ⟨_, Table.own_assign_get? hold, ?_⟩
  split
  · rename_i hc
    subst hc
    rw [Table.get_of_own hold] at hentry
    exact hentry hk
  · exact hk

theorem tableHolds_delete (hc : key ≠ c) :
    TableHolds (table.delete key) c k ↔ TableHolds table c k := by
  unfold TableHolds Table.delete
  simp [Dict.get?_delete, hc]

theorem tableHolds_mergeInto {table' : Table} {p : Str × Value}
    (hm : Envelope.mergeInto table p = .ok table') (h : TableHolds table c k) :
    TableHolds table' c k := by
  obtain ⟨merged, hmerged, ht⟩ := bind_eq_ok.mp hm
  cases ht
  exact tableHolds_assign h (mergeChanKeys_keeps hmerged)

end

/-! ### Reducers that leave the settings alone -/

/-- The rooms have no other settings. -/
def SameMeta (rooms rooms' : Rooms) : Prop := rooms'.chanMeta = rooms.chanMeta

instance : Std.Refl SameMeta := ⟨fun _ => rfl⟩

instance : IsTrans Rooms SameMeta := ⟨fun _ _ _ h h' => h'.trans h⟩

namespace Envelope

variable (env : Envelope)

theorem sameMeta_ensureChannel (ch : Value) :
    Act.Moves SameMeta (Act.update (·.ensureChannel ch) : Act Effect Rooms Unit) := by
  refine Act.moves_update fun rooms => ?_
  unfold Rooms.ensureChannel
  split
  · rfl
  · split <;> rfl

theorem sameMeta_applyChat : Act.Moves SameMeta env.applyChat :=
  Act.moves_bind (sameMeta_ensureChannel _) fun _ => Act.moves_emit_bind fun _ =>
  Act.moves_lift_bind fun _ => Act.moves_lift_bind fun _ => Act.moves_emit _

theorem sameMeta_applyGame : Act.Moves SameMeta env.applyGame := by
  refine Act.moves_lift_bind fun game => ?_
  cases game with
  | none => exact Act.moves_pure _
  | some game =>
    exact Act.moves_bind (sameMeta_ensureChannel _) fun _ => Act.moves_lift_bind fun _ =>
      Act.moves_emit _

theorem sameMeta_applyFile : Act.Moves SameMeta env.applyFile :=
  Act.moves_bind (sameMeta_ensureChannel _) fun _ => Act.moves_lift_bind fun _ => Act.moves_emit _

theorem sameMeta_applyChan : Act.Moves SameMeta env.applyChan := by
  refine Act.moves_bind (Act.moves_update fun _ => rfl) fun _ =>
    Act.moves_bind Act.moves_read fun _ => ?_
  split
  · exact Act.moves_pure _
  · exact Act.moves_bind (Act.moves_update fun _ => rfl) fun _ => Act.moves_lift_bind fun _ =>
      Act.moves_emit_bind fun _ => Act.moves_emit _

theorem sameMeta_applyVchan : Act.Moves SameMeta env.applyVchan := by
  refine Act.moves_bind (Act.moves_update fun _ => rfl) fun _ =>
    Act.moves_bind Act.moves_read fun _ => ?_
  split
  · exact Act.moves_pure _
  · exact Act.moves_bind (Act.moves_update fun _ => rfl) fun _ => Act.moves_lift_bind fun _ =>
      Act.moves_emit _

theorem sameMeta_leaveCall (ch : Value) :
    Act.Moves SameMeta (env.leaveCall ch : Act Effect Rooms Unit) := by
  unfold leaveCall
  split
  · exact Act.moves_emit _
  · exact Act.moves_pure _

theorem sameMeta_applyVchanRen : Act.Moves SameMeta env.applyVchanRen := by
  refine Act.moves_bind Act.moves_read fun _ => ?_
  split
  · exact Act.moves_bind (Act.moves_update fun _ => rfl) fun _ =>
      Act.moves_bind (Act.moves_update fun _ => rfl) fun _ =>
      Act.moves_bind (Act.moves_update fun _ => rfl) fun _ =>
      Act.moves_bind (sameMeta_leaveCall env _) fun _ => Act.moves_lift_bind fun _ =>
      Act.moves_lift_bind fun _ => Act.moves_emit_bind fun _ => Act.moves_emit _
  · exact Act.moves_pure _

theorem sameMeta_applyVchanDel : Act.Moves SameMeta env.applyVchanDel := by
  refine Act.moves_bind Act.moves_read fun _ => ?_
  split
  · exact Act.moves_bind (Act.moves_update fun _ => rfl) fun _ =>
      Act.moves_bind (Act.moves_update fun _ => rfl) fun _ =>
      Act.moves_bind (sameMeta_leaveCall env _) fun _ => Act.moves_lift_bind fun _ =>
      Act.moves_emit_bind fun _ => Act.moves_emit _
  · exact Act.moves_pure _

theorem sameMeta_fillRooms : Act.Moves SameMeta env.fillRooms := by
  refine Act.moves_lift_bind fun _ => Act.moves_bind (Act.moves_update fun _ => rfl) fun _ => ?_
  dsimp only
  split
  · exact Act.moves_lift_bind fun _ => Act.moves_update fun _ => rfl
  · exact Act.moves_pure _

/-! ### Reducers that merge keys -/

/-- The sender's copy of the settings counts, but its keys are merged in. -/
theorem keeps_applyChanset : Act.Moves Rooms.Keeps env.applyChanset := by
  refine Act.moves_bind (Act.moves_update fun rooms => .of_chanMeta_eq (by split <;> rfl)) fun _ => ?_
  refine Act.moves_read_bind fun rooms => ?_
  cases (env.field "ch").toStr with
  | error e => exact Std.Refl.refl rooms
  | ok key =>
    rw [Act.state_lift_ok_bind]
    cases hm : mergeChanKeys (rooms.settings key)
        ((env.field "meta").orElse (.ofDict Dict.empty)) false with
    | error e => exact Std.Refl.refl rooms
    | ok merged =>
      rw [Act.state_lift_ok_bind, Act.state_update_bind]
      refine trans_of Rooms.Keeps (fun c k hk => ?_)
        (Act.moves_bind (Act.moves_lift _) (fun _ => Act.moves_emit_bind fun _ =>
          Act.moves_emit_bind fun _ => Act.moves_emit_bind fun _ => Act.moves_emit _) _)
      obtain ⟨table, ht, hk⟩ := hk
      have hsettings : rooms.settings key = table.get key := by rw [Rooms.settings, ht]
      refine ⟨table.define key merged, by rw [ht]; rfl, tableHolds_define hk fun h => ?_⟩
      exact mergeChanKeys_keeps hm (hsettings ▸ h)

/-- One entry of a rebroadcast merged in, and all of them up to the first that throws. -/
theorem keeps_fillEntries (listed : List (Str × Value)) :
    Act.Moves Rooms.Keeps (fillEntries listed) := by
  refine Act.moves_read_bind fun rooms => ?_
  cases ht : rooms.chanMeta with
  | none =>
    rintro c k ⟨table, ht', -⟩
    rw [ht] at ht'
    cases ht'
  | some table =>
    refine Act.moves_forM (fun p _ => Act.moves_read_bind fun rooms c k hk => ?_) rooms
    obtain ⟨table, ht, hk⟩ := hk
    rw [ht, Option.getD_some]
    cases hm : mergeInto table p with
    | error e => exact ⟨table, ht, hk⟩
    | ok table' => exact ⟨table', rfl, tableHolds_mergeInto hm hk⟩

theorem keeps_fillChanMeta : Act.Moves Rooms.Keeps env.fillChanMeta := by
  unfold fillChanMeta
  dsimp only
  split
  · exact Act.moves_bind (keeps_fillEntries _) fun _ => Act.moves_emit _
  · exact Act.moves_pure _

/-! ### Reducers that write over an entry -/

/-- A table with the entry of one channel under another name. -/
def movedTable (source target : Str) (table : Table) : Table :=
  if (table.get source).truthy then (table.define target (table.get source)).delete source
  else table

theorem tableHolds_movedTable {source target c k : Str} {table : Table}
    (hs : (table.get source).truthy = true) :
    TableHolds (movedTable source target table) c k ↔
      source ≠ c ∧ if target = c then HoldsKey (table.get source) k else TableHolds table c k := by
  unfold movedTable
  rw [if_pos hs]
  by_cases hc : source = c
  · simp [TableHolds, Table.delete, Dict.get?_delete, hc]
  · rw [tableHolds_delete hc]
    by_cases htc : target = c
    · subst htc
      simp [TableHolds, Table.define, hc]
    · simp [TableHolds, Table.define, Dict.get?_set_of_ne _ _ htc, hc, htc]

/-- Moving an entry loses no key exactly if the entry it writes over holds none of its own. -/
theorem movedTable_keeps_iff (source target : Str) (table : Table) :
    (∀ c k, TableHolds table c k →
      TableHolds (movedTable source target table) (if source = c then target else c) k) ↔
    ((table.get source).truthy = true →
      ∀ k, TableHolds table target k → source ≠ target ∧ HoldsKey (table.get source) k) := by
  have hsource : ∀ k, TableHolds table source k → HoldsKey (table.get source) k := by
    rintro k ⟨entry, hentry, hk⟩
    rwa [Table.get_of_own hentry]
  by_cases hs : (table.get source).truthy = true
  · simp only [tableHolds_movedTable hs, hs, true_implies]
    constructor
    · intro hkeeps k hk
      simpa using hkeeps target k hk
    · intro hcond c k hk
      by_cases hc : source = c
      · subst hc
        have hne : source ≠ target := by
          rintro rfl
          exact (hcond k hk).1 rfl
        simpa [hne] using hsource k hk
      · rw [if_neg hc]
        refine ⟨hc, ?_⟩
        split
        · rename_i htc
          subst htc
          exact (hcond k hk).2
        · exact hk
  · -- an entry that holds a key is there to be moved
    refine iff_of_true (fun c k hk => ?_) fun h => absurd h hs
    have hc : source ≠ c := by
      rintro rfl
      exact hs (hsource k hk).truthy
    rw [if_neg hc, movedTable, if_neg hs]
    exact hk

/-- A table without the entry of a channel. -/
def droppedTable (key : Str) (table : Table) : Table :=
  if (table.get key).truthy then table.copy.delete key else table

theorem chanMeta_moveSettings (ch to_ : Value) (rooms : Rooms) :
    (moveSettings ch to_ rooms).state.chanMeta =
      match ch.toStr, to_.toStr with
      | .ok source, .ok target => rooms.chanMeta.map (movedTable source target)
      | _, _ => rooms.chanMeta := by
  unfold moveSettings
  rw [Act.state_read_bind]
  cases ht : rooms.chanMeta with
  | none => cases ch.toStr <;> cases to_.toStr <;> exact ht
  | some table =>
    cases ch.toStr with
    | error e => exact ht
    | ok source =>
      rw [Act.state_lift_ok_bind]
      by_cases hs : (table.get source).truthy = true
      · rw [if_pos hs]
        cases to_.toStr with
        | error e => exact ht
        | ok target => exact congrArg some (if_pos hs).symm
      · rw [if_neg hs]
        cases to_.toStr with
        | error e => exact ht
        | ok target => exact ht.trans (congrArg some (if_neg hs).symm)

theorem chanMeta_dropSettings (ch : Value) (rooms : Rooms) :
    (dropSettings ch rooms).state.chanMeta =
      match ch.toStr with
      | .ok key => rooms.chanMeta.map (droppedTable key)
      | .error _ => rooms.chanMeta := by
  unfold dropSettings
  rw [Act.state_read_bind]
  cases ht : rooms.chanMeta with
  | none => cases ch.toStr <;> exact ht
  | some table =>
    cases ch.toStr with
    | error e => exact ht
    | ok key =>
      dsimp only
      rw [Act.state_lift_ok_bind, Option.map_some, droppedTable]
      split
      · rfl
      · exact ht

/-- The entry that a rename moves and the name it moves it to, if the rename takes effect. -/
def moved (rooms : Rooms) : Option (Str × Str) :=
  match (env.field "ch").toStr, (env.field "to").toStr with
  | .ok source, .ok target =>
    if includes rooms.channels (env.field "ch") && !includes rooms.channels (env.field "to") then
      some (source, target)
    else none
  | _, _ => none

/-- The entry that a removal drops, if the removal takes effect. -/
def dropped (rooms : Rooms) : Option Str :=
  match (env.field "ch").toStr with
  | .ok key =>
    if includes rooms.channels (env.field "ch") && 1 < rooms.channels.length then some key
    else none
  | .error _ => none

theorem chanMeta_applyChanRen (rooms : Rooms) :
    (env.applyChanRen rooms).state.chanMeta =
      match env.moved rooms with
      | some (source, target) => rooms.chanMeta.map (movedTable source target)
      | none => rooms.chanMeta := by
  unfold applyChanRen moved
  rw [Act.state_read_bind]
  cases hren : includes rooms.channels (env.field "ch") &&
      !includes rooms.channels (env.field "to") with
  | false => cases (env.field "ch").toStr <;> cases (env.field "to").toStr <;> rfl
  | true =>
    rw [if_pos rfl, Act.state_update_bind, Act.state_update_bind, Act.state_update_bind,
      Quiet.state_bind, chanMeta_moveSettings]
    · cases (env.field "ch").toStr <;> cases (env.field "to").toStr <;> rfl
    · exact fun _ => Quiet.emit_bind fun _ => Quiet.lift_bind fun _ => Quiet.lift_bind fun _ =>
        Quiet.emit_bind fun _ => Quiet.emit_bind fun _ => Quiet.emit _

theorem chanMeta_applyChanDel (rooms : Rooms) :
    (env.applyChanDel rooms).state.chanMeta =
      match env.dropped rooms with
      | some key => rooms.chanMeta.map (droppedTable key)
      | none => rooms.chanMeta := by
  unfold applyChanDel dropped
  rw [Act.state_read_bind]
  cases hdel : includes rooms.channels (env.field "ch") &&
      decide (1 < rooms.channels.length) with
  | false => cases (env.field "ch").toStr <;> rfl
  | true =>
    rw [if_pos rfl, Act.state_update_bind, Act.state_update_bind, Quiet.state_bind,
      chanMeta_dropSettings]
    · cases (env.field "ch").toStr <;> rfl
    · exact fun _ => Quiet.emit_bind fun _ => Quiet.lift_bind fun _ => Quiet.emit_bind fun _ =>
        Quiet.emit _

/-- What a snapshot says of keys is what it lists. -/
theorem chanMeta_reconcileMeta {rooms : RoomsSnapshot} {board : BoardSnapshot}
    (h : env.reconcileMeta = .ok (rooms, board)) :
    rooms.chanMeta = listedMeta (env.field "chanMeta") := by
  obtain ⟨overview, -, h⟩ := bind_eq_ok.mp h
  obtain ⟨offers, -, h⟩ := bind_eq_ok.mp h
  obtain ⟨notices, -, h⟩ := bind_eq_ok.mp h
  obtain ⟨rsvps, -, h⟩ := bind_eq_ok.mp h
  cases h
  rfl

theorem chanMeta_adoptMeta (record : Record) :
    (env.adoptMeta record).state.rooms.chanMeta =
      if env.reconcileMeta.isOk then
        (listedMeta (env.field "chanMeta")).or record.rooms.chanMeta
      else record.rooms.chanMeta := by
  unfold adoptMeta
  rw [Act.state_update_bind]
  cases h : env.reconcileMeta with
  | error e => rfl
  | ok snapshot =>
    rw [isOk_ok, if_pos rfl, ← chanMeta_reconcileMeta env h]
    rfl

end Envelope

/-! ### Envelopes that keep every key -/

/-- Code that works on another part of the record keeps every key. -/
def Record.Keeps (record record' : Record) : Prop := record.rooms.Keeps record'.rooms

instance : Std.Refl Record.Keeps := ⟨fun record => Std.Refl.refl record.rooms⟩

instance : IsTrans Record Record.Keeps := ⟨fun _ _ _ h h' => trans_of Rooms.Keeps h h'⟩

theorem keeps_fillMeta (env : Envelope) (n : ℕ) : Act.Moves Record.Keeps (env.fillMeta n) := by
  refine Envelope.moves_fillMeta (fun x hx record => ?_)
    (fun _ _ record => Std.Refl.refl record.rooms) fun _ _ record => Std.Refl.refl record.rooms
  simp only [List.mem_cons, List.not_mem_nil, or_false] at hx
  rcases hx with rfl | rfl
  · exact .of_chanMeta_eq (env.sameMeta_fillRooms record.rooms)
  · exact env.keeps_fillChanMeta record.rooms

/-- A rebroadcast that fills gaps keeps every key. -/
theorem Envelope.keeps_applyMeta_fill (env : Envelope) {record : Record}
    (hp : record.pendingMetaSync = false) : record.Keeps (env.applyMeta record).state := by
  rw [env.applyMeta_of_not_pending hp]
  exact keeps_fillMeta env _ { record with name := (env.field "name").orElse record.name }

/-- A rebroadcast that is adopted replaces the table by the one it lists, if it lists one. -/
theorem Envelope.chanMeta_applyMeta (env : Envelope) {record : Record}
    (hp : record.pendingMetaSync = true) :
    (env.applyMeta record).state.rooms.chanMeta =
      if env.reconcileMeta.isOk then
        (listedMeta (env.field "chanMeta")).or record.rooms.chanMeta
      else record.rooms.chanMeta := by
  unfold applyMeta
  rw [Act.state_update_bind, Act.state_read_bind, if_pos hp]
  exact chanMeta_adoptMeta env _

/-- **Every reducer but three keeps every key.** -/
theorem keeps_applyKind (env : Envelope) {kind : Kind} (hr : kind ≠ .chanRen)
    (hd : kind ≠ .chanDel) (hm : kind ≠ .meta_) (record : Record) :
    record.Keeps (env.applyKind kind record).state := by
  cases hrooms : kind.onRooms with
  | false => exact .of_chanMeta_eq (congrArg Rooms.chanMeta (rooms_applyKind env hrooms hm record))
  | true =>
    cases kind with
    | chat => exact .of_chanMeta_eq (env.sameMeta_applyChat record.rooms)
    | game => exact .of_chanMeta_eq (env.sameMeta_applyGame record.rooms)
    | file => exact .of_chanMeta_eq (env.sameMeta_applyFile record.rooms)
    | chanset => exact env.keeps_applyChanset record.rooms
    | chan => exact .of_chanMeta_eq (env.sameMeta_applyChan record.rooms)
    | vchan => exact .of_chanMeta_eq (env.sameMeta_applyVchan record.rooms)
    | vchanRen => exact .of_chanMeta_eq (env.sameMeta_applyVchanRen record.rooms)
    | vchanDel => exact .of_chanMeta_eq (env.sameMeta_applyVchanDel record.rooms)
    | chanRen => exact absurd rfl hr
    | chanDel => exact absurd rfl hd
    | _ => cases hrooms

/-! ### When an envelope keeps every key -/

namespace Delivery

variable (e : Delivery) (record : Record)

/-- The entry that an envelope moves, and the name it moves it to. -/
def renamed : Option (Str × Str) :=
  if e.reaches record.id = some .chanRen then (e.envelope record.id).moved record.rooms else none

/-- The channel that an envelope removes. -/
def removed : Option Str :=
  if e.reaches record.id = some .chanDel then (e.envelope record.id).dropped record.rooms else none

/-- The name of a channel after an envelope. -/
def nameAfter (c : Str) : Str :=
  match e.renamed record with
  | some (source, target) => if source = c then target else c
  | none => c

/-- **No key is lost**: every key of a channel is still held for the channel, under the name it has
now, unless the envelope removes the channel. -/
def KeepsKeys : Prop :=
  ∀ c k, record.rooms.Holds c k → e.removed record ≠ some c →
    (e.apply record).rooms.Holds (e.nameAfter record c) k

/-- An envelope that writes over no key: a snapshot that is adopted lists every key held, and a
channel that is renamed onto an entry holds every key of that entry. -/
structure Careful : Prop where
  snapshot : e.reaches record.id = some .meta_ → record.pendingMetaSync = true →
    (e.envelope record.id).reconcileMeta.isOk = true →
    ∀ table, Envelope.listedMeta (e.content.get (lit "chanMeta")) = some table →
      ∀ c k, record.rooms.Holds c k → TableHolds table c k
  rename : ∀ source target, e.renamed record = some (source, target) →
    (record.rooms.settings source).truthy = true →
      ∀ k, record.rooms.Holds target k →
        source ≠ target ∧ HoldsKey (record.rooms.settings source) k

variable {e record}

/-- A rename moves an entry, or leaves the table alone. -/
theorem chanMeta_chanRen (h : e.reaches record.id = some .chanRen) :
    (e.apply record).rooms.chanMeta =
      match e.renamed record with
      | some (source, target) => record.rooms.chanMeta.map (Envelope.movedTable source target)
      | none => record.rooms.chanMeta := by
  rw [e.apply_of_reaches h, renamed, if_pos h]
  exact (e.envelope record.id).chanMeta_applyChanRen record.rooms

/-- A removal drops an entry, or leaves the table alone. -/
theorem chanMeta_chanDel (h : e.reaches record.id = some .chanDel) :
    (e.apply record).rooms.chanMeta =
      match e.removed record with
      | some key => record.rooms.chanMeta.map (Envelope.droppedTable key)
      | none => record.rooms.chanMeta := by
  rw [e.apply_of_reaches h, removed, if_pos h]
  exact (e.envelope record.id).chanMeta_applyChanDel record.rooms

theorem renamed_eq_none (h : e.reaches record.id ≠ some .chanRen) : e.renamed record = none :=
  if_neg h

theorem removed_eq_none (h : e.reaches record.id ≠ some .chanDel) : e.removed record = none :=
  if_neg h

theorem nameAfter_of_renamed_eq_none (h : e.renamed record = none) (c : Str) :
    e.nameAfter record c = c := by
  unfold nameAfter
  rw [h]

theorem keepsKeys_of_keeps (h : record.Keeps (e.apply record)) (hr : e.renamed record = none) :
    e.KeepsKeys record := by
  intro c k hk _
  rw [nameAfter_of_renamed_eq_none hr]
  exact h c k hk

/-- Away from snapshots and renames there is nothing to be careful about. -/
theorem careful_of_ne (hm : e.reaches record.id ≠ some .meta_) (hr : e.renamed record = none) :
    e.Careful record where
  snapshot h := absurd h hm
  rename _ _ h := absurd (hr.symm.trans h) nofun

/-- A removal loses no key of any other channel. -/
theorem keepsKeys_of_chanDel (h : e.reaches record.id = some .chanDel) : e.KeepsKeys record := by
  have hren : e.renamed record = none := renamed_eq_none (by rw [h]; exact nofun)
  intro c k hk hc
  rw [nameAfter_of_renamed_eq_none hren]
  have hmeta := chanMeta_chanDel h
  cases hrem : e.removed record with
  | none =>
    rw [hrem] at hmeta
    exact Rooms.Keeps.of_chanMeta_eq hmeta c k hk
  | some key =>
    rw [hrem] at hmeta hc
    have hne : key ≠ c := fun heq => hc (congrArg some heq)
    obtain ⟨table, ht, hk⟩ := hk
    refine ⟨Envelope.droppedTable key table, by rw [hmeta, ht]; rfl, ?_⟩
    unfold Envelope.droppedTable
    split
    · exact (tableHolds_delete hne).mpr hk
    · exact hk

/-- A rebroadcast keeps every key, unless it is adopted as it is and lists too few. -/
theorem keepsKeys_meta_iff (h : e.reaches record.id = some .meta_) :
    e.KeepsKeys record ↔ e.Careful record := by
  have hren : e.renamed record = none := renamed_eq_none (by rw [h]; exact nofun)
  have hrem : e.removed record = none := removed_eq_none (by rw [h]; exact nofun)
  have hno : ∀ source target, e.renamed record ≠ some (source, target) := by
    rw [hren]
    exact fun _ _ => nofun
  cases hp : record.pendingMetaSync with
  | false =>
    refine iff_of_true (keepsKeys_of_keeps ?_ hren)
      ⟨fun _ hp' => absurd (hp.symm.trans hp') nofun, fun _ _ h' => absurd h' (hno _ _)⟩
    rw [e.apply_of_reaches h]
    exact (e.envelope record.id).keeps_applyMeta_fill hp
  | true =>
    have hmeta : (e.apply record).rooms.chanMeta =
        if (e.envelope record.id).reconcileMeta.isOk then
          (Envelope.listedMeta (e.content.get (lit "chanMeta"))).or record.rooms.chanMeta
        else record.rooms.chanMeta := by
      rw [e.apply_of_reaches h]
      exact (e.envelope record.id).chanMeta_applyMeta hp
    constructor
    · refine fun hkeeps => ⟨fun _ _ hok table ht c k hk => ?_, fun _ _ h' => absurd h' (hno _ _)⟩
      have hafter := hkeeps c k hk (by rw [hrem]; exact nofun)
      rw [nameAfter_of_renamed_eq_none hren] at hafter
      rw [if_pos hok, ht] at hmeta
      exact (Rooms.holds_iff hmeta).mp hafter
    · intro hcareful
      refine keepsKeys_of_keeps (fun c k hk => ?_) hren
      cases hok : (e.envelope record.id).reconcileMeta.isOk with
      | false =>
        rw [hok] at hmeta
        exact Rooms.Keeps.of_chanMeta_eq hmeta c k hk
      | true =>
        rw [hok] at hmeta
        cases ht : Envelope.listedMeta (e.content.get (lit "chanMeta")) with
        | none =>
          rw [ht] at hmeta
          exact Rooms.Keeps.of_chanMeta_eq hmeta c k hk
        | some table =>
          rw [ht] at hmeta
          exact (Rooms.holds_iff hmeta).mpr (hcareful.snapshot h hp hok table ht c k hk)

section

variable {source target : Str} {table : Table} (h : e.reaches record.id = some .chanRen)
  (hren : e.renamed record = some (source, target)) (ht : record.rooms.chanMeta = some table)

include h hren ht

theorem keepsKeys_iff_movedTable :
    e.KeepsKeys record ↔ ∀ c k, TableHolds table c k →
      TableHolds (Envelope.movedTable source target table)
        (if source = c then target else c) k := by
  have hrem : e.removed record = none := removed_eq_none (by rw [h]; exact nofun)
  have hmeta : (e.apply record).rooms.chanMeta =
      some (Envelope.movedTable source target table) := by
    rw [chanMeta_chanRen h, hren, ht]
    rfl
  have hname : ∀ c, e.nameAfter record c = if source = c then target else c := by
    intro c
    rw [nameAfter, hren]
  unfold KeepsKeys
  simp only [Rooms.holds_iff ht, Rooms.holds_iff hmeta, hrem, hname]
  simp

theorem careful_iff_source :
    e.Careful record ↔ ((table.get source).truthy = true →
      ∀ k, TableHolds table target k → source ≠ target ∧ HoldsKey (table.get source) k) := by
  have hsettings : record.rooms.settings source = table.get source := by
    rw [Rooms.settings, ht]
  constructor
  · intro hcareful hs k hk
    have hover := hcareful.rename source target hren
    rw [hsettings] at hover
    exact hover hs k ((Rooms.holds_iff ht).mpr hk)
  · intro hcond
    refine ⟨fun h' => absurd (h.symm.trans h') nofun, fun source' target' hren' hs k hk => ?_⟩
    cases hren.symm.trans hren'
    rw [hsettings] at hs ⊢
    exact hcond hs k ((Rooms.holds_iff ht).mp hk)

end

/-- A rename keeps every key, unless it writes over an entry that holds more. -/
theorem keepsKeys_chanRen_iff (h : e.reaches record.id = some .chanRen) :
    e.KeepsKeys record ↔ e.Careful record := by
  have hnm : e.reaches record.id ≠ some .meta_ := by rw [h]; exact nofun
  cases hren : e.renamed record with
  | none =>
    have hmeta := chanMeta_chanRen h
    rw [hren] at hmeta
    exact iff_of_true (keepsKeys_of_keeps (.of_chanMeta_eq hmeta) hren) (careful_of_ne hnm hren)
  | some names =>
    cases ht : record.rooms.chanMeta with
    | none =>
      have hnone : ∀ c k, ¬record.rooms.Holds c k := by
        rintro c k ⟨table, ht', -⟩
        exact absurd (ht.symm.trans ht') nofun
      exact iff_of_true (fun c k hk => absurd hk (hnone c k))
        ⟨fun h' => absurd h' hnm, fun _ _ _ _ k hk => absurd hk (hnone _ k)⟩
    | some table =>
      rw [keepsKeys_iff_movedTable h hren ht, careful_iff_source h hren ht]
      exact Envelope.movedTable_keeps_iff ..

/-- **An envelope keeps every room key exactly if it is careful.** -/
theorem keepsKeys_iff (e : Delivery) (record : Record) :
    e.KeepsKeys record ↔ e.Careful record := by
  by_cases hm : e.reaches record.id = some .meta_
  · exact keepsKeys_meta_iff hm
  by_cases hr : e.reaches record.id = some .chanRen
  · exact keepsKeys_chanRen_iff hr
  have hren := renamed_eq_none hr
  refine iff_of_true ?_ (careful_of_ne hm hren)
  by_cases hd : e.reaches record.id = some .chanDel
  · exact keepsKeys_of_chanDel hd
  refine keepsKeys_of_keeps ?_ hren
  rw [e.apply_eq]
  cases hkind : e.reaches record.id with
  | none => exact Std.Refl.refl record
  | some kind =>
    rw [hkind] at hm hr hd
    exact keeps_applyKind _ (by simpa using hr) (by simpa using hd) (by simpa using hm) record

end Delivery

/-! ### Keys that are lost -/

instance (table : Table) (c k : Str) : Decidable (TableHolds table c k) :=
  decidable_of_iff ((table.own.get? c).any (fun entry => decide (HoldsKey entry k)) = true) (by
    unfold TableHolds
    cases table.own.get? c <;> simp)

instance (rooms : Rooms) (c k : Str) : Decidable (rooms.Holds c k) :=
  decidable_of_iff (rooms.chanMeta.any (fun table => decide (TableHolds table c k)) = true) (by
    unfold Rooms.Holds
    cases rooms.chanMeta <;> simp)

/-- A circle whose channels have the given settings. -/
def circleWith (chanMeta : List (Str × Value)) (pendingMetaSync : Bool) : Record :=
  { emptyCircle with
    pendingMetaSync
    rooms := { emptyCircle.rooms with chanMeta := some { own := Dict.ofList chanMeta } } }

/-- The entry of a channel with one log and one key. -/
def keyEntry (hid hkey : String) : Value :=
  .obj 1 [(lit "hid", .str (lit hid)), (lit "hkey", .str (lit hkey))]

/-- A rebroadcast that lists a topic for the channel and no key. -/
def topicOnly : Delivery where
  sender := lit "alice"
  content := .obj 2 [(lit "k", .str (lit "meta")),
    (lit "chanMeta", .obj 3 [(lit "general", .obj 4 [(lit "topic", .str (lit "hello"))])])]
  ctx := plainCtx

/-- The rename of `#general` to `#den` by an admin. -/
def renameToDen : Delivery where
  sender := lit "alice"
  content := .obj 5 [(lit "k", .str (lit "chan-ren")), (lit "ch", .str (lit "general")),
    (lit "to", .str (lit "den"))]
  ctx := { plainCtx with isAdmin := some true }

/-- A snapshot without the key takes it from a device that is catching up, and a rename takes the
key that was kept under the new name. -/
theorem keys_written_over :
    ¬ topicOnly.KeepsKeys (circleWith [(lit "general", keyEntry "log" "key")] true) ∧
    ¬ renameToDen.KeepsKeys (circleWith
      [(lit "general", keyEntry "log" "key"), (lit "den", keyEntry "log2" "key2")] false) := by
  constructor
  · intro h
    exact absurd (h (lit "general") (lit "key") (by decide +kernel) (by decide +kernel))
      (by decide +kernel)
  · intro h
    exact absurd (h (lit "den") (lit "key2") (by decide +kernel) (by decide +kernel))
      (by decide +kernel)

end Quorum
