import Quorum.Js.Entries
import Quorum.Mls
import Quorum.Order.Along

/-!
# The snapshot of a client

A client is written to disk as its header, which lists its groups, and the provider's storage, from
which the groups are loaded again (`export_state` and `import_state`).  The client keeps its groups
in a map of its own besides.  Groups that are in the map are in the storage, since OpenMLS writes
what it changes (`Writes`).  The other way round three things go wrong.

* `forget_group` takes a group out of the map and leaves it in the storage.
* A join for a group that the client has is refused after OpenMLS has written the group that was
  joined over the one the client has.
* A group whose id is not UTF-8 is in the map under another id.

In a run without these (`Steady`) the storage holds exactly the groups of the map, and a snapshot
is read back with the same groups (`snapshot_matches`).
-/

namespace Quorum.Mls

open Js (Dict)
open Store (Bytes)

variable {mls : OpenMls} {α β : Type}

/-! ### What OpenMLS writes -/

/-- A group has been written, and no other. -/
structure Saved (mls : OpenMls) (values values' : Values) (group : mls.Group) : Prop where
  self : mls.load values' (mls.groupId group) = .ok (some group)
  other : ∀ gid ≠ mls.groupId group, mls.load values' gid = mls.load values gid

/-- No group has been written. -/
def Untouched (mls : OpenMls) (values values' : Values) : Prop :=
  ∀ gid, mls.load values' gid = mls.load values gid

/-- A group has been changed in memory and in the storage alike. -/
structure Kept (mls : OpenMls) (before after : mls.Group × Values) : Prop where
  groupId : mls.groupId after.1 = mls.groupId before.1
  self : mls.load before.2 (mls.groupId before.1) = .ok (some before.1) →
    mls.load after.2 (mls.groupId before.1) = .ok (some after.1)
  other : ∀ gid ≠ mls.groupId before.1, mls.load after.2 gid = mls.load before.2 gid

theorem Kept.refl (s : mls.Group × Values) : Kept mls s s := ⟨rfl, id, fun _ _ => rfl⟩

theorem Kept.trans {s t u : mls.Group × Values} (h : Kept mls s t) (h' : Kept mls t u) :
    Kept mls s u := by
  refine ⟨h'.groupId.trans h.groupId, fun hs => ?_, fun gid hne => ?_⟩
  · have ht := h.self hs
    rw [← h.groupId] at ht ⊢
    exact h'.self ht
  · rw [h'.other gid (h.groupId ▸ hne), h.other gid hne]

/-- A function of OpenMLS on a group writes what it changes. -/
def InPlace (f : mls.Group → Values → Except String α × mls.Group × Values) : Prop :=
  ∀ group values, Kept mls (group, values) (f group values).2

/-- **OpenMLS writes the state of a group** whenever it creates, joins, stages, merges or processes
for it.  A group is created under the id that is asked for. -/
structure Writes (mls : OpenMls) : Prop where
  create_ok : ∀ {credential gid values group values'},
    mls.newWithGroupId credential gid values = (.ok group, values') →
      mls.groupId group = gid ∧ Saved mls values values' group
  create_error : ∀ {credential gid values e values'},
    mls.newWithGroupId credential gid values = (.error e, values') → Untouched mls values values'
  welcome_ok : ∀ {bytes values group values'},
    mls.intoGroup bytes values = (.ok group, values') → Saved mls values values' group
  welcome_error : ∀ {bytes values e values'},
    mls.intoGroup bytes values = (.error e, values') → Untouched mls values values'
  external_ok : ∀ {credential bytes values group commit values'},
    mls.externalCommit credential bytes values = (.ok (group, commit), values') →
      Saved mls values values' group
  external_error : ∀ {credential bytes values e values'},
    mls.externalCommit credential bytes values = (.error e, values') → Untouched mls values values'
  add : ∀ keyPackage, InPlace (mls.addMembers keyPackage)
  remove : ∀ index, InPlace (mls.removeMembers index)
  merge : InPlace mls.mergePendingCommit
  clear : InPlace mls.clearPendingCommit
  process : ∀ bytes, InPlace (mls.processMessage bytes)
  mergeStaged : ∀ staged, InPlace (mls.mergeStagedCommit staged)
  store : ∀ proposal, InPlace (mls.storePendingProposal proposal)

/-- Calls on a group write what they change. -/
def Call.InPlace (x : Call mls α) : Prop := ∀ s, Kept mls s (x s).2

theorem call_inPlace {f : mls.Group → Values → Except String α × mls.Group × Values}
    (h : InPlace f) : Call.InPlace (call f) := fun s => h s.1 s.2

theorem pure_inPlace (a : α) : Call.InPlace (pure a : Call mls α) := fun s => .refl s

theorem throw_inPlace (e : CoreError) : Call.InPlace (throw e : Call mls α) := fun s => .refl s

theorem theGroup_inPlace : Call.InPlace (theGroup : Call mls mls.Group) := fun s => .refl s

theorem bind_inPlace {x : Call mls α} {f : α → Call mls β} (hx : Call.InPlace x)
    (hf : ∀ a, Call.InPlace (f a)) : Call.InPlace (x >>= f) := by
  intro s
  have h := hx s
  change Kept mls s ((ExceptT.bindCont f (x s).1) (x s).2).2
  cases hr : (x s).1 with
  | error e => exact h
  | ok a => exact h.trans (hf a (x s).2)

/-! ### The operations -/

inductive Operation
  | createGroup (id : String)
  | addMember (id : String) (keyPackage : Bytes) (expectedIdentity : String) (expectedKey : Bytes)
  | removeMember (id name : String)
  | mergeStagedCommit (id : String)
  | discardStagedCommit (id : String)
  | joinFromWelcome (welcome : Bytes)
  | joinByExternalCommit (groupInfo : Bytes)
  | forgetGroup (id : String)
  | processIncoming (bytes : Bytes)
deriving DecidableEq, Repr

def Operation.perform (c : ChatClient mls) : Operation → ChatClient mls
  | .createGroup id => (Mls.createGroup id c).2
  | .addMember id keyPackage expectedIdentity expectedKey =>
    (Mls.addMember id keyPackage expectedIdentity expectedKey c).2
  | .removeMember id name => (Mls.removeMember id name c).2
  | .mergeStagedCommit id => (Mls.mergeStagedCommit id c).2
  | .discardStagedCommit id => (Mls.discardStagedCommit id c).2
  | .joinFromWelcome welcome => (Mls.joinFromWelcome welcome c).2
  | .joinByExternalCommit groupInfo => (Mls.joinByExternalCommit groupInfo c).2
  | .forgetGroup id => (Mls.forgetGroup id c).2
  | .processIncoming bytes => (Mls.processIncoming bytes c).2

/-- The id of the group that OpenMLS joins in an operation, and whether its commit can be
serialized. -/
def Operation.joins (c : ChatClient mls) : Operation → Option (Bytes × Bool)
  | .joinFromWelcome welcome =>
    match (mls.intoGroup welcome c.values).1 with
    | .ok group => some (mls.groupId group, true)
    | .error _ => none
  | .joinByExternalCommit groupInfo =>
    match (mls.externalCommit c.credential groupInfo c.values).1 with
    | .ok (group, commit) => some (mls.groupId group, commit.isOk)
    | .error _ => none
  | _ => none

/-- The group that an operation forgets. -/
def Operation.forgets : Operation → Option String
  | .forgetGroup id => some id
  | _ => none

/-- No group of the client is forgotten, and a group that is joined is none of the client's, has an
id that is UTF-8, and its commit can be serialized. -/
def Steady (c : ChatClient mls) (op : Operation) : Prop :=
  (∀ id ∈ op.forgets, c.groups.has id = false) ∧
    ∀ p ∈ op.joins c, p.2 = true ∧ (utf8 p.1).isSome = true ∧
      c.groups.has (mls.fromUtf8Lossy p.1) = false

instance decidableSteady (c : ChatClient mls) (op : Operation) : Decidable (Steady c op) :=
  inferInstanceAs (Decidable ((∀ id ∈ op.forgets, _) ∧ ∀ p ∈ op.joins c, _))

/-! ### Map and storage -/

/-- The storage holds exactly the groups of the map, as they are there. -/
structure Synced (c : ChatClient mls) : Prop where
  held : ∀ id group, c.groups.get? id = some group →
    mls.groupId group = asBytes id ∧ mls.load c.values (asBytes id) = .ok (some group)
  stored : ∀ gid, (∀ id, c.groups.has id = true → asBytes id ≠ gid) → mls.load c.values gid = .ok none

variable {c : ChatClient mls} {id : String} {group : mls.Group} {values : Values}

/-- A group that goes into the map has been written. -/
theorem Synced.insert (h : Synced c) (hid : mls.groupId group = asBytes id)
    (hsaved : Saved mls c.values values group) :
    Synced { c with values, groups := c.groups.set id group } := by
  constructor
  · intro id' group' hget
    rcases Dict.get?_set_cases hget with ⟨rfl, rfl⟩ | ⟨hne, hget⟩
    · exact ⟨hid, hid ▸ hsaved.self⟩
    · obtain ⟨hgid, hload⟩ := h.held id' group' hget
      have hother : asBytes id' ≠ mls.groupId group := by
        rw [hid]
        exact fun heq => hne (asBytes_injective heq).symm
      exact ⟨hgid, (hsaved.other _ hother).trans hload⟩
  · intro gid hall
    have hne : gid ≠ mls.groupId group := by
      rw [hid]
      exact (hall id (by simp [Dict.has_eq_isSome])).symm
    rw [hsaved.other gid hne]
    refine h.stored gid fun id' hhas => hall id' ?_
    rw [Dict.has_iff_mem_keys] at hhas ⊢
    exact Dict.mem_keys_set_of_mem hhas _ _

/-- A group of the map has been changed and written. -/
theorem Synced.update (h : Synced c) (hget : c.groups.get? id = some group)
    {s : mls.Group × Values} (hkept : Kept mls (group, c.values) s) :
    Synced { c with groups := c.groups.set id s.1, values := s.2 } := by
  obtain ⟨hid, hload⟩ := h.held id group hget
  have hgroup : mls.groupId s.1 = asBytes id := hkept.groupId.trans hid
  constructor
  · intro id' group' hget'
    rcases Dict.get?_set_cases hget' with ⟨rfl, rfl⟩ | ⟨hne, hget'⟩
    · exact ⟨hgroup, hid ▸ hkept.self (hid.symm ▸ hload)⟩
    · obtain ⟨hgid, hload'⟩ := h.held id' group' hget'
      have hother : asBytes id' ≠ mls.groupId group := by
        rw [hid]
        exact fun heq => hne (asBytes_injective heq).symm
      exact ⟨hgid, (hkept.other _ hother).trans hload'⟩
  · intro gid hall
    have hhas : c.groups.has id = true := by rw [Dict.has_eq_isSome, hget]; rfl
    have hin {id' : String} (hold : c.groups.has id' = true) :
        (c.groups.set id s.1).has id' = true := by
      rw [Dict.has_iff_mem_keys] at hold ⊢
      exact Dict.mem_keys_set_of_mem hold _ _
    have hne : gid ≠ mls.groupId group := by
      rw [hid]
      exact (hall id (hin hhas)).symm
    rw [hkept.other gid hne]
    exact h.stored gid fun id' hold => hall id' (hin hold)

/-- No group has been written. -/
theorem Synced.untouched (h : Synced c) (hvalues : Untouched mls c.values values) :
    Synced { c with values } :=
  ⟨fun id group hget => (h.held id group hget).imp_right fun hload => (hvalues _).trans hload,
    fun gid hall => (hvalues gid).trans (h.stored gid hall)⟩

theorem Synced.onGroup (h : Synced c) {x : Call mls α} (hx : Call.InPlace x) (id : String) :
    Synced (onGroup id x c).2 := by
  unfold Mls.onGroup
  cases hget : c.groups.get? id with
  | none => exact h
  | some group => exact h.update hget (hx (group, c.values))

/-- Something that changes nothing comes first. -/
theorem Synced.bind_lift (h : Synced c) (r : Except String α) {f : α → Op mls β}
    (hf : ∀ a, Synced (f a c).2) : Synced ((lift r >>= f) c).2 := by
  cases r with
  | error e => exact h
  | ok a => exact hf a

theorem processContent_inPlace (hw : Writes mls) (id sender : String)
    (content : Content mls.Staged mls.Proposal) : Call.InPlace (processContent id sender content) := by
  cases content with
  | applicationMessage bytes => exact bind_inPlace theGroup_inPlace fun _ => pure_inPlace _
  | stagedCommitMessage staged =>
    exact bind_inPlace (call_inPlace (hw.mergeStaged staged)) fun _ =>
      bind_inPlace theGroup_inPlace fun _ => pure_inPlace _
  | proposalMessage proposal | externalJoinProposalMessage proposal =>
    exact bind_inPlace (call_inPlace (hw.store proposal)) fun _ =>
      bind_inPlace theGroup_inPlace fun _ => pure_inPlace _
  | ownPendingCommit => exact throw_inPlace _
  | ownPrivateMessage => exact throw_inPlace _

theorem Synced.createGroup (h : Synced c) (hw : Writes mls) (id : String) :
    Synced (createGroup id c).2 := by
  unfold Mls.createGroup
  cases hhas : c.groups.has id with
  | true => exact h
  | false =>
    rw [if_neg (by simp)]
    split
    · rename_i hr
      exact h.untouched (hw.create_error hr)
    · rename_i hr
      obtain ⟨hid, hsaved⟩ := hw.create_ok hr
      exact h.insert hid hsaved

theorem Synced.addMember (h : Synced c) (hw : Writes mls) (id : String) (keyPackage : Bytes)
    (expectedIdentity : String) (expectedKey : Bytes) :
    Synced (addMember id keyPackage expectedIdentity expectedKey c).2 := by
  refine h.bind_lift _ fun leaf => ?_
  split
  · exact h
  · split
    · exact h
    · exact h.onGroup (call_inPlace (hw.add keyPackage)) id

theorem Synced.removeMember (h : Synced c) (hw : Writes mls) (id name : String) :
    Synced (removeMember id name c).2 := by
  refine h.onGroup (fun s => ?_) id
  unfold removeFirst
  split
  · exact .refl s
  · exact call_inPlace (hw.remove _) s

theorem Synced.processIncoming (h : Synced c) (hw : Writes mls) (bytes : Bytes) :
    Synced (processIncoming bytes c).2 := by
  refine h.bind_lift _ fun gid => h.onGroup (bind_inPlace ?_ fun _ => ?_) _
  · exact call_inPlace (hw.process bytes)
  · exact processContent_inPlace hw _ _ _

/-- An id that is UTF-8 is read as itself. -/
theorem asBytes_fromUtf8Lossy {gid : Bytes} (h : (utf8 gid).isSome = true) :
    asBytes (mls.fromUtf8Lossy gid) = gid := by
  obtain ⟨text, htext⟩ := Option.isSome_iff_exists.mp h
  rw [OpenMls.fromUtf8Lossy, htext]
  exact asBytes_of_utf8 htext

theorem Synced.joinFromWelcome (h : Synced c) (hw : Writes mls) {welcome : Bytes}
    (hok : Steady c (.joinFromWelcome welcome)) : Synced (joinFromWelcome welcome c).2 := by
  unfold Mls.joinFromWelcome
  split
  · rename_i hr
    exact h.untouched (hw.welcome_error hr)
  · rename_i group values hr
    obtain ⟨-, hutf8, hnew⟩ := hok.2 (mls.groupId group, true) (by simp [Operation.joins, hr])
    dsimp only at hnew ⊢
    rw [hnew, if_neg (by simp)]
    exact h.insert (asBytes_fromUtf8Lossy hutf8).symm (hw.welcome_ok hr)

theorem Synced.joinByExternalCommit (h : Synced c) (hw : Writes mls) {groupInfo : Bytes}
    (hok : Steady c (.joinByExternalCommit groupInfo)) :
    Synced (joinByExternalCommit groupInfo c).2 := by
  unfold Mls.joinByExternalCommit
  split
  · rename_i hr
    exact h.untouched (hw.external_error hr)
  · rename_i group commit values hr
    obtain ⟨hser, hutf8, hnew⟩ :=
      hok.2 (mls.groupId group, commit.isOk) (by simp [Operation.joins, hr])
    dsimp only at hser hnew ⊢
    rw [hnew, if_neg (by simp)]
    cases commit with
    | error e => cases hser
    | ok bytes => exact h.insert (asBytes_fromUtf8Lossy hutf8).symm (hw.external_ok hr)

theorem Synced.forgetGroup (h : Synced c) (hnone : c.groups.has id = false) :
    Synced (forgetGroup id c).2 := by
  have hdelete : c.groups.delete id = c.groups := by
    apply Dict.ext
    refine List.filter_eq_self.mpr fun p hp => ?_
    have hall := List.any_eq_false.mp hnone p hp
    simpa using hall
  unfold Mls.forgetGroup
  rw [hdelete]
  exact h

/-- **Every operation that is steady keeps map and storage together.** -/
theorem Synced.perform (h : Synced c) (hw : Writes mls) {op : Operation} (hok : Steady c op) :
    Synced (op.perform c) := by
  cases op with
  | createGroup id => exact h.createGroup hw id
  | addMember id keyPackage expectedIdentity expectedKey => exact h.addMember hw _ _ _ _
  | removeMember id name => exact h.removeMember hw id name
  | mergeStagedCommit id =>
    refine h.onGroup (bind_inPlace (call_inPlace hw.merge) fun _ => ?_) id
    exact bind_inPlace theGroup_inPlace fun _ => pure_inPlace _
  | discardStagedCommit id => exact h.onGroup (call_inPlace hw.clear) id
  | joinFromWelcome welcome => exact h.joinFromWelcome hw hok
  | joinByExternalCommit groupInfo => exact h.joinByExternalCommit hw hok
  | forgetGroup id => exact h.forgetGroup (hok.1 id rfl)
  | processIncoming bytes => exact h.processIncoming hw bytes

/-! ### The bundle -/

/-- `StateHeader`. -/
structure StateHeader where
  v : ℕ
  name : String
  signer : Signer
  groups : List String
deriving DecidableEq, Repr

/-- `serde_json` for the header. -/
structure Serde where
  toVec : StateHeader → Bytes
  fromSlice : Bytes → Except String StateHeader
  fromSlice_toVec : ∀ header, fromSlice (toVec header) = .ok header

/-- `group_ids`. -/
def groupIds (c : ChatClient mls) : List String := c.groups.keys.mergeSort fun a b => a ≤ b

def writeEntry (p : Bytes × Bytes) : Bytes :=
  beBytes 8 p.1.length ++ beBytes 8 p.2.length ++ p.1 ++ p.2

def headerOf (c : ChatClient mls) : StateHeader where
  v := 1
  name := c.name
  signer := c.signer
  groups := groupIds c

def writeBundle (serde : Serde) (header : StateHeader) (values : Values) : Bytes :=
  beBytes 4 (serde.toVec header).length ++ serde.toVec header ++ beBytes 8 values.size ++
    values.entries.flatMap writeEntry

/-- `export_state`. -/
def exportState (serde : Serde) (c : ChatClient mls) : Bytes :=
  writeBundle serde (headerOf c) c.values

/-- `take(n)`: the bytes, and the rest. -/
def take (n : ℕ) (rest : Bytes) : Except CoreError (Bytes × Bytes) :=
  if rest.length < n then .error (.badState "truncated") else .ok (rest.splitAt n)

/-- The loop over the entries. -/
def readEntries : ℕ → Bytes → Values → Except CoreError Values
  | 0, _, map => .ok map
  | n + 1, rest, map => do
    let (kLen, rest) ← take 8 rest
    let (vLen, rest) ← take 8 rest
    let (k, rest) ← take (ofBeBytes kLen) rest
    let (v, rest) ← take (ofBeBytes vLen) rest
    readEntries n rest (map.set k v)

/-- The loop over the groups of the header. -/
def loadGroups (values : Values) : List String → Dict String mls.Group →
    Except CoreError (Dict String mls.Group)
  | [], groups => .ok groups
  | id :: ids, groups =>
    match mls.load values (asBytes id) with
    | .error e => .error (.mls e)
    | .ok none => .error (.badState ("group " ++ id ++ " missing from storage"))
    | .ok (some group) => loadGroups values ids (groups.set id group)

/-- `import_state`. -/
def importState (mls : OpenMls) (serde : Serde) (bytes : Bytes) :
    Except CoreError (ChatClient mls) := do
  let (headerLen, rest) ← take 4 bytes
  let (header, rest) ← take (ofBeBytes headerLen) rest
  let header ← (serde.fromSlice header).mapError .badState
  if header.v ≠ 1 then
    throw (.badState "unsupported version")
  let (count, rest) ← take 8 rest
  let values ← readEntries (ofBeBytes count) rest Dict.empty
  let groups ← loadGroups values header.groups Dict.empty
  return { values, signer := header.signer, groups, name := header.name }

/-- The lengths that are written fit their widths. -/
structure Fits (serde : Serde) (c : ChatClient mls) : Prop where
  header : (serde.toVec (headerOf c)).length < 256 ^ 4
  count : c.values.size < 256 ^ 8
  entries : ∀ p ∈ c.values.entries, p.1.length < 256 ^ 8 ∧ p.2.length < 256 ^ 8

/-! ### Reading a bundle back -/

theorem take_append {n : ℕ} {bytes : Bytes} (h : bytes.length = n) (rest : Bytes) :
    take n (bytes ++ rest) = .ok (bytes, rest) := by
  subst h
  rw [take, if_neg (by simp)]
  simp

theorem readEntries_append {l : List (Bytes × Bytes)}
    (hl : ∀ p ∈ l, p.1.length < 256 ^ 8 ∧ p.2.length < 256 ^ 8) (map : Values) :
    readEntries l.length (l.flatMap writeEntry) map = .ok (map.setAll l) := by
  induction l generalizing map with
  | nil => rfl
  | cons p l ih =>
    obtain ⟨hk, hv⟩ := hl p (.head _)
    have hrest := ih (fun q hq => hl q (.tail _ hq)) (map.set p.1 p.2)
    rw [List.length_cons, List.flatMap_cons, writeEntry]
    simp only [List.append_assoc, readEntries, take_append (length_beBytes 8 _),
      ofBeBytes_beBytes hk, ofBeBytes_beBytes hv, Except.bind, bind, take_append rfl]
    exact hrest

/-- All groups of the header are loaded, the last of a name counting. -/
theorem loadGroups_ok (values : Values) (find : String → Option mls.Group) {ids : List String}
    (hload : ∀ id ∈ ids, ∃ group, find id = some group ∧
      mls.load values (asBytes id) = .ok (some group)) (groups : Dict String mls.Group) :
    ∃ groups', loadGroups values ids groups = .ok groups' ∧
      ∀ id, groups'.get? id = if id ∈ ids then find id else groups.get? id := by
  induction ids generalizing groups with
  | nil => exact ⟨groups, rfl, fun id => by simp⟩
  | cons id ids ih =>
    obtain ⟨group, hfind, hgroup⟩ := hload id (.head _)
    obtain ⟨groups', hok, hget⟩ := ih (fun id' h => hload id' (.tail _ h)) (groups.set id group)
    refine ⟨groups', ?_, fun id' => ?_⟩
    · rw [loadGroups, hgroup]
      exact hok
    · rw [hget id', Dict.get?_set]
      by_cases hmem : id' ∈ ids
      · simp [hmem]
      · by_cases heq : id = id'
        · subst heq
          simp [hmem, hfind]
        · simp [hmem, heq, Ne.symm heq]

/-- The header and the storage are read back, and the groups are loaded from there. -/
theorem importState_exportState (serde : Serde) (hfits : Fits serde c) :
    importState mls serde (exportState serde c) =
      (loadGroups c.values (groupIds c) Dict.empty).map fun groups =>
        { values := c.values, signer := c.signer, groups, name := c.name } := by
  have hentries : readEntries c.values.size (c.values.entries.flatMap writeEntry) Dict.empty =
      .ok c.values := by
    rw [← congrArg Except.ok (Dict.setAll_entries c.values)]
    exact readEntries_append hfits.entries Dict.empty
  have hversion : ¬(headerOf c).v ≠ 1 := fun hne => hne rfl
  simp only [importState, exportState, writeBundle, List.append_assoc, take_append (length_beBytes _ _),
    ofBeBytes_beBytes hfits.header, ofBeBytes_beBytes hfits.count, take_append rfl,
    serde.fromSlice_toVec, bind, Except.bind, Except.mapError, hentries, if_neg hversion]
  cases hgroups : loadGroups c.values (groupIds c) Dict.empty with
  | error e =>
    have hheader : loadGroups c.values (headerOf c).groups Dict.empty = .error e := hgroups
    rw [hheader]
    rfl
  | ok groups =>
    have hheader : loadGroups c.values (headerOf c).groups Dict.empty = .ok groups := hgroups
    rw [hheader]
    rfl

/-- **A snapshot is read back.**  The client has the same groups, each in the state it was in. -/
theorem import_export (serde : Serde) (h : Synced c) (hfits : Fits serde c) :
    ∃ c', importState mls serde (exportState serde c) = .ok c' ∧ c'.values = c.values ∧
      c'.name = c.name ∧ c'.signer = c.signer ∧ ∀ id, c'.groups.get? id = c.groups.get? id := by
  have hids (id : String) : id ∈ groupIds c ↔ c.groups.has id = true := by
    rw [groupIds, List.mem_mergeSort, Dict.has_iff_mem_keys]
  have hload (id : String) (hid : id ∈ groupIds c) :
      ∃ group, c.groups.get? id = some group ∧ mls.load c.values (asBytes id) = .ok (some group) := by
    rw [hids, Dict.has_eq_isSome, Option.isSome_iff_exists] at hid
    obtain ⟨group, hgroup⟩ := hid
    exact ⟨group, hgroup, (h.held id group hgroup).2⟩
  obtain ⟨groups, hgroups, hget⟩ := loadGroups_ok c.values c.groups.get? hload Dict.empty
  refine ⟨{ values := c.values, signer := c.signer, groups, name := c.name }, ?_, rfl, rfl, rfl,
    fun id => ?_⟩
  · rw [importState_exportState serde hfits, hgroups]
    rfl
  · change groups.get? id = _
    rw [hget id]
    split
    · rfl
    · rename_i hnot
      rw [hids, Bool.not_eq_true, ← Dict.get?_eq_none_iff] at hnot
      rw [hnot]
      rfl

/-- **The snapshot matches the live client.**  After any operations of a new client, failed ones
included, that are steady, the storage holds exactly the groups of the map, in the state they are in
there.  So a client that is read back from the snapshot has the same groups at the same epochs, and
no group besides. -/
theorem snapshot_matches (hw : Writes mls) (serde : Serde) (c : ChatClient mls)
    (hgroups : c.groups = Dict.empty) (hvalues : ∀ gid, mls.load c.values gid = .ok none)
    (ops : List Operation) (h : Along Operation.perform Steady c ops) :
    let c' := ops.foldl Operation.perform c
    Synced c' ∧ (Fits serde c' → ∃ c'', importState mls serde (exportState serde c') = .ok c'' ∧
      Synced c'' ∧
      ∀ id, c''.groups.get? id = c'.groups.get? id ∧ epoch c'' id = epoch c' id) := by
  intro c'
  have hstart : Synced c := by
    refine ⟨fun id group hget => ?_, fun gid _ => hvalues gid⟩
    rw [hgroups] at hget
    cases hget
  have hrun : Synced c' := Along.preserves (fun _ _ hc hok => hc.perform hw hok) h hstart
  refine ⟨hrun, fun hfits => ?_⟩
  obtain ⟨c'', hok, hsame, -, -, hget⟩ := import_export serde hrun hfits
  refine ⟨c'', hok, ⟨fun id group hid => ?_, fun gid hall => ?_⟩, fun id => ⟨hget id, ?_⟩⟩
  · rw [hsame]
    exact hrun.held id group (hget id ▸ hid)
  · rw [hsame]
    refine hrun.stored gid fun id hhas => hall id ?_
    rwa [Dict.has_eq_isSome, hget id, ← Dict.has_eq_isSome]
  · rw [epoch, epoch, hget id]

/-- Groups that are nothing but an id and an epoch, stored as that many zeros under the id.  A
Welcome or a GroupInfo is the id of the group to join. -/
def epochsOnly : OpenMls where
  Group := Bytes × ℕ
  Staged := Unit
  Proposal := Unit
  groupId := Prod.fst
  epoch := Prod.snd
  members := fun _ => []
  load := fun values gid => .ok ((values.get? gid).map fun zeros => (gid, zeros.length))
  newWithGroupId := fun _ gid values => (.ok (gid, 0), values.set gid [])
  intoGroup := fun gid values => (.ok (gid, 1), values.set gid [0])
  externalCommit := fun _ gid values => (.ok ((gid, 1), .ok []), values.set gid [0])
  validate := fun _ => .error "no key package"
  addMembers := fun _ group values => (.error "nobody to add", group, values)
  removeMembers := fun _ group values => (.error "nobody to remove", group, values)
  mergePendingCommit := fun group values =>
    (.ok (), (group.1, group.2 + 1), values.set group.1 (List.replicate (group.2 + 1) 0))
  clearPendingCommit := fun group values => (.ok (), group, values)
  protocolGroup := fun _ => .error "no message"
  processMessage := fun _ group values => (.error "no message", group, values)
  mergeStagedCommit := fun _ group values => (.ok (), group, values)
  storePendingProposal := fun _ group values => (.ok (), group, values)
  lossy := fun _ => ""

theorem epochsOnly_writes : Writes epochsOnly := by
  have hsaved (values : Values) (gid zeros : Bytes) :
      Saved epochsOnly values (values.set gid zeros) (gid, zeros.length) := by
    refine ⟨congrArg (fun o => Except.ok (Option.map _ o)) (Dict.get?_set_self values gid zeros),
      fun gid' hne => ?_⟩
    exact congrArg (fun o => Except.ok (Option.map _ o)) (Dict.get?_set_of_ne values zeros (Ne.symm hne))
  refine ⟨fun h => ?_, fun h => ?_, fun h => ?_, fun h => ?_, fun h => ?_, fun h => ?_,
    fun _ _ _ => .refl _, fun _ _ _ => .refl _, fun group values => ?_, fun _ _ => .refl _,
    fun _ _ _ => .refl _, fun _ _ _ => .refl _, fun _ _ _ => .refl _⟩
  · cases h
    exact ⟨rfl, hsaved _ _ []⟩
  · cases h
  · cases h
    exact hsaved _ _ [0]
  · cases h
  · cases h
    exact hsaved _ _ [0]
  · cases h
  · have h := hsaved values group.1 (List.replicate (group.2 + 1) 0)
    rw [List.length_replicate] at h
    exact ⟨rfl, fun _ => h.self, h.other⟩

/-- Headers can be written as bytes, and those of a list as short ones. -/
theorem exists_serde (short : List StateHeader) :
    ∃ serde : Serde, ∀ h ∈ short, (serde.toVec h).length < short.length := by
  have hbyte : Countable UInt8 := UInt8.toBitVec_injective.countable
  have hstring : Countable String := asBytes_injective.countable
  have hcount : Countable StateHeader := by
    refine Function.Injective.countable (f := fun h : StateHeader =>
      (h.v, h.name, h.signer.secret, h.signer.pubkey, h.groups)) fun h h' heq => ?_
    obtain ⟨v, name, ⟨secret, pubkey⟩, groups⟩ := h
    obtain ⟨v', name', ⟨secret', pubkey'⟩, groups'⟩ := h'
    simpa [and_assoc] using heq
  obtain ⟨number, hnumber⟩ := exists_injective_nat StateHeader
  -- the headers of the list come first
  let place (h : StateHeader) : ℕ :=
    if h ∈ short then short.idxOf h else short.length + number h
  have hplace : Function.Injective place := by
    intro h h' heq
    by_cases hh : h ∈ short <;> by_cases hh' : h' ∈ short <;>
      simp only [place, hh, hh', if_true, if_false] at heq
    · exact (List.idxOf_inj hh).mp heq
    · have := List.idxOf_lt_length_of_mem hh
      omega
    · have := List.idxOf_lt_length_of_mem hh'
      omega
    · exact hnumber (by omega)
  refine ⟨{
    toVec := fun h => List.replicate (place h) 0
    fromSlice := fun bytes =>
      match Function.partialInv place bytes.length with
      | some h => .ok h
      | none => .error "no header"
    fromSlice_toVec := fun h => by
      rw [List.length_replicate, Function.partialInv_left hplace] }, fun h hh => ?_⟩
  rw [List.length_replicate]
  simp only [place, hh, if_true]
  exact List.idxOf_lt_length_of_mem hh

def newDevice : ChatClient epochsOnly :=
  { values := .empty, signer := ⟨[], []⟩, groups := .empty, name := "alice" }

/-- Two groups are made or joined, and one moves on. -/
def twoGroups : List Operation :=
  [.createGroup "team", .joinFromWelcome (asBytes "club"), .createGroup "team",
    .mergeStagedCommit "team", .processIncoming [1]]

theorem two_groups_match :
    let c := twoGroups.foldl Operation.perform newDevice
    Synced c ∧ epoch c "team" = some 1 ∧ epoch c "club" = some 1 ∧
      ∃ serde c', importState epochsOnly serde (exportState serde c) = .ok c' ∧
        epoch c' "team" = some 1 ∧ epoch c' "club" = some 1 := by
  intro c
  obtain ⟨serde, hserde⟩ := exists_serde [headerOf c]
  have hfits : Fits serde c :=
    ⟨(hserde _ (List.mem_singleton_self _)).trans (by decide), by decide +kernel, by decide +kernel⟩
  obtain ⟨hsynced, hread⟩ := snapshot_matches epochsOnly_writes serde newDevice rfl (fun _ => rfl)
    twoGroups (by decide +kernel)
  obtain ⟨c', himport, -, hsame⟩ := hread hfits
  have hepochs : epoch c "team" = some 1 ∧ epoch c "club" = some 1 := by decide +kernel
  exact ⟨hsynced, hepochs.1, hepochs.2, serde, c', himport, (hsame _).2.trans hepochs.1,
    (hsame _).2.trans hepochs.2⟩

/-- A group that was forgotten is still in the storage.  A Welcome that is refused has replaced the
group in the storage, which moves on to epoch 1 with the next start. -/
theorem forgotten_group_stays :
    let made := Operation.perform newDevice (.createGroup "team")
    let forgotten := Operation.perform made (.forgetGroup "team")
    let refused := joinFromWelcome (asBytes "team") made
    forgotten.groups.has "team" = false ∧
      epochsOnly.load forgotten.values (asBytes "team") = .ok (some (asBytes "team", 0)) ∧
      refused.1 = .error (.alreadyInGroup "team") ∧ epoch refused.2 "team" = some 0 ∧
      epochsOnly.load refused.2.values (asBytes "team") = .ok (some (asBytes "team", 1)) := by
  refine ⟨by decide +kernel, ?_, ?_, by decide +kernel, ?_⟩
  · rfl
  · rfl
  · rfl

end Quorum.Mls
