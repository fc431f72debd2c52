import Quorum.Mls

/-!
# Removing members

A member is removed by name.  The client core looks for a leaf with the name, stages a commit that
removes it, and the controller publishes the commit and merges it once the relay has accepted it.
Names are those of the leaves' credentials, and nothing keeps two leaves from having the same one: a
KeyPackage or an external commit is only asked to be consistent with itself.  Then one leaf is
removed and the other stays (`removal_by_name`).
-/

namespace Quorum.Mls

open Js (Dict)
open Store (Bytes)

variable {mls : OpenMls}

/-! ### Rosters -/

/-- What OpenMLS does to the roster of a group.  A staged commit is kept beside the group as the
roster it leads to; while there is one no other is staged. -/
structure Rosters (mls : OpenMls) (pending : mls.Group → Option (List Member)) : Prop where
  nodup : ∀ group, ((mls.members group).map (·.index)).Nodup
  stage : ∀ {index group values commit s}, mls.removeMembers index group values = (.ok commit, s) →
    pending s.1 = some ((mls.members group).filter (·.index ≠ index)) ∧
      mls.epoch s.1 = mls.epoch group
  refuse : ∀ index group values, (pending group).isSome = true →
    (∃ e, (mls.removeMembers index group values).1 = .error e) ∧
      pending (mls.removeMembers index group values).2.1 = pending group
  merge : ∀ {group values s roster}, pending group = some roster →
    mls.mergePendingCommit group values = (.ok (), s) →
      mls.members s.1 = roster ∧ mls.epoch s.1 = mls.epoch group + 1

def Member.named (name : String) (m : Member) : Bool := m.identity = some name

variable {pending : mls.Group → Option (List Member)} {c c' : ChatClient mls} {id name : String}

/-- A name is removed with one leaf exactly if it is the name of one leaf. -/
theorem filter_found {l : List Member} (hl : (l.map (·.index)).Nodup) {target : Member}
    (htarget : l.find? (Member.named name) = some target) :
    (∀ m ∈ l.filter (·.index ≠ target.index), m.named name = false) ↔
      l.countP (Member.named name) = 1 := by
  have hmem : target ∈ l := List.mem_of_find?_eq_some htarget
  have hname : target.named name = true := List.find?_some htarget
  obtain ⟨before, after, rfl⟩ := List.append_of_mem hmem
  rw [List.map_append, List.map_cons, List.nodup_append, List.nodup_cons] at hl
  obtain ⟨-, ⟨hafter, -⟩, hdisjoint⟩ := hl
  have hothers : (before ++ target :: after).filter (·.index ≠ target.index) = before ++ after := by
    rw [List.filter_append, List.filter_cons_of_neg (by simp)]
    congr 1
    · refine List.filter_eq_self.mpr fun m hm => ?_
      simpa using hdisjoint m.index (List.mem_map_of_mem hm) target.index (.head _)
    · refine List.filter_eq_self.mpr fun m hm => ?_
      have hne : m.index ≠ target.index := fun heq => hafter (heq ▸ List.mem_map_of_mem hm)
      simpa using hne
  have hcount : (before ++ target :: after).countP (Member.named name) =
      (before ++ after).countP (Member.named name) + 1 := by
    rw [List.countP_append, List.countP_cons_of_pos hname, List.countP_append]
    omega
  rw [hothers, hcount]
  constructor
  · intro h
    rw [List.countP_eq_zero.mpr fun m hm => by rw [h m hm]; simp]
  · intro h m hm
    have hzero : (before ++ after).countP (Member.named name) = 0 := by omega
    simpa using List.countP_eq_zero.mp hzero m hm

/-! ### The controller -/

/-- What happens while the controller waits for the relay. -/
abbrev Meanwhile (mls : OpenMls) := ChatClient mls → ChatClient mls

/-- `removeMember(serverId, user)` up to its merge, for a circle that this device has: the commit is
staged and published, and then merged if the relay has accepted it. -/
def removeFromCircle (me id user : String) (accepted : Bool) (meanwhile : Meanwhile mls) :
    Op mls (Option ℕ) := do
  if user = me then
    return none
  let _ ← removeMember id user
  modify meanwhile
  if accepted then
    return some (← mergeStagedCommit id)
  else
    discardStagedCommit id
    throw (.mls "epoch conflict")

/-- The commit that is staged for a group stays staged. -/
def KeepsStaged (pending : mls.Group → Option (List Member)) (id : String)
    (meanwhile : Meanwhile mls) : Prop :=
  ∀ c group, c.groups.get? id = some group →
    ∃ group', (meanwhile c).groups.get? id = some group' ∧ pending group' = pending group

/-- Code that succeeded did so in both of its parts. -/
theorem bind_ok {σ α β : Type} {x : ExceptT CoreError (StateM σ) α}
    {f : α → ExceptT CoreError (StateM σ) β} {b : β} {s s' : σ} (h : (x >>= f) s = (.ok b, s')) :
    ∃ a t, x s = (.ok a, t) ∧ f a t = (.ok b, s') := by
  change ExceptT.bindCont f (x s).1 (x s).2 = _ at h
  cases hx : (x s).1 with
  | error e =>
    rw [hx] at h
    cases h
  | ok a =>
    rw [hx] at h
    exact ⟨a, (x s).2, Prod.ext hx rfl, h⟩

theorem call_ok {α : Type} {f : mls.Group → Values → Except String α × mls.Group × Values} {a : α}
    {s s' : mls.Group × Values} (h : call f s = (.ok a, s')) : f s.1 s.2 = (.ok a, s') := by
  obtain ⟨hr, hs⟩ := Prod.mk.inj h
  cases hf : (f s.1 s.2).1 with
  | error e =>
    rw [hf] at hr
    cases hr
  | ok a' =>
    rw [hf] at hr
    cases hr
    exact Prod.ext hf hs

/-- What the group of a client is after calls that succeeded. -/
theorem onGroup_ok {α : Type} {x : Call mls α} {a : α} (h : onGroup id x c = (.ok a, c')) :
    ∃ group s, c.groups.get? id = some group ∧ x (group, c.values) = (.ok a, s) ∧
      c'.groups.get? id = some s.1 := by
  unfold onGroup at h
  cases hget : c.groups.get? id with
  | none =>
    rw [hget] at h
    cases h
  | some group =>
    rw [hget] at h
    obtain ⟨hr, hc⟩ := Prod.mk.inj h
    refine ⟨group, (x (group, c.values)).2, rfl, Prod.ext hr rfl, ?_⟩
    rw [← hc]
    exact Dict.get?_set_self _ _ _

/-- A removal stages the roster without the first leaf of the name. -/
theorem removeMember_ok (hr : Rosters mls pending) {commit : Bytes}
    (h : removeMember id name c = (.ok commit, c')) :
    ∃ group group' target, c.groups.get? id = some group ∧ c'.groups.get? id = some group' ∧
      findMember group name = some target ∧
      pending group' = some ((mls.members group).filter (·.index ≠ target.index)) := by
  obtain ⟨group, s, hget, hx, hget'⟩ := onGroup_ok h
  unfold removeFirst at hx
  cases htarget : findMember group name with
  | none =>
    rw [htarget] at hx
    cases hx
  | some target =>
    rw [htarget] at hx
    have hstage := (hr.stage (call_ok hx)).1
    exact ⟨group, s.1, target, hget, hget', htarget, hstage⟩

/-- A merge moves the group to the roster that is staged. -/
theorem mergeStagedCommit_ok (hr : Rosters mls pending) {e : ℕ}
    (h : mergeStagedCommit id c = (.ok e, c')) {group : mls.Group} {roster : List Member}
    (hget : c.groups.get? id = some group) (hpending : pending group = some roster) :
    ∃ group', c'.groups.get? id = some group' ∧ mls.members group' = roster := by
  obtain ⟨group', s, hget', hx, hs⟩ := onGroup_ok h
  rw [hget] at hget'
  cases hget'
  obtain ⟨u, t, hcall, hrest⟩ := bind_ok hx
  -- Reading the epoch changes nothing.
  have hsame : t = s := (Prod.mk.inj hrest).2
  exact ⟨s.1, hs, hsame ▸ (hr.merge hpending (call_ok hcall)).1⟩

/-- **Removing a name removes one leaf.**  After a removal that succeeded, with its commit accepted
by the relay and merged, nobody in the group has the name exactly if there was one leaf with it. -/
theorem removal_by_name (hr : Rosters mls pending) {me : String} {meanwhile : Meanwhile mls}
    (hmeanwhile : KeepsStaged pending id meanwhile) {group group' : mls.Group}
    (hget : c.groups.get? id = some group) {e : ℕ}
    (h : removeFromCircle me id name true meanwhile c = (.ok (some e), c'))
    (hget' : c'.groups.get? id = some group') :
    (∀ m ∈ mls.members group', m.named name = false) ↔
      (mls.members group).countP (Member.named name) = 1 := by
  unfold removeFromCircle at h
  by_cases hme : name = me
  · rw [if_pos hme] at h
    cases h
  · rw [if_neg hme] at h
    obtain ⟨commit, c₁, hstage, h⟩ := bind_ok h
    obtain ⟨u, c₂, hwait, h⟩ := bind_ok h
    cases hwait
    obtain ⟨e', c₃, hmerge, h⟩ := bind_ok h
    cases h
    obtain ⟨group₀, group₁, target, hget₀, hget₁, htarget, hpending⟩ := removeMember_ok hr hstage
    rw [hget] at hget₀
    cases hget₀
    obtain ⟨group₂, hget₂, hkept⟩ := hmeanwhile c₁ group₁ hget₁
    obtain ⟨group₃, hget₃, hmembers⟩ := mergeStagedCommit_ok hr hmerge hget₂ (hkept.trans hpending)
    rw [hget'] at hget₃
    cases hget₃
    rw [hmembers]
    exact filter_found (hr.nodup group) htarget

/-! ### Groups without secrets -/

/-- The leaves of a tree from an index on; a blank has none. -/
def membersFrom : ℕ → List (Option Credential) → List Member
  | _, [] => []
  | i, none :: tree => membersFrom (i + 1) tree
  | i, some leaf :: tree => ⟨i, some leaf.handle, leaf.signatureKey⟩ :: membersFrom (i + 1) tree

theorem index_le_of_mem_membersFrom {tree : List (Option Credential)} {i : ℕ} {m : Member}
    (h : m ∈ membersFrom i tree) : i ≤ m.index := by
  induction tree generalizing i with
  | nil => cases h
  | cons leaf tree ih =>
    cases leaf with
    | none => exact Nat.le_of_succ_le (ih h)
    | some leaf =>
      rcases List.mem_cons.mp h with rfl | h
      · exact Nat.le_refl i
      · exact Nat.le_of_succ_le (ih h)

theorem nodup_membersFrom (i : ℕ) (tree : List (Option Credential)) :
    ((membersFrom i tree).map (·.index)).Nodup := by
  induction tree generalizing i with
  | nil => exact List.nodup_nil
  | cons leaf tree ih =>
    cases leaf with
    | none => exact ih (i + 1)
    | some leaf =>
      refine List.nodup_cons.mpr ⟨fun hmem => ?_, ih (i + 1)⟩
      obtain ⟨m, hm, heq⟩ := List.mem_map.mp hmem
      have hle := index_le_of_mem_membersFrom hm
      dsimp only at heq
      omega

/-- A leaf is blanked. -/
theorem membersFrom_set (i n : ℕ) (tree : List (Option Credential)) :
    membersFrom i (tree.set n none) = (membersFrom i tree).filter (·.index ≠ i + n) := by
  induction tree generalizing i n with
  | nil => rfl
  | cons leaf tree ih =>
    have hkeep : (membersFrom (i + 1) tree).filter (·.index ≠ i) = membersFrom (i + 1) tree := by
      refine List.filter_eq_self.mpr fun m hm => ?_
      have hle := index_le_of_mem_membersFrom hm
      have hne : m.index ≠ i := by omega
      simpa using hne
    cases n with
    | zero =>
      cases leaf with
      | none => exact hkeep.symm
      | some leaf =>
        rw [membersFrom, List.filter_cons_of_neg (by simp)]
        exact hkeep.symm
    | succ n =>
      have hadd : i + (n + 1) = i + 1 + n := by omega
      cases leaf with
      | none =>
        rw [hadd]
        exact ih (i + 1) n
      | some leaf =>
        rw [membersFrom, List.filter_cons_of_pos (by simp), hadd]
        exact congrArg _ (ih (i + 1) n)

/-- A group as its tree and the tree that a staged commit leads to. -/
structure ClearGroup where
  gid : Bytes
  epoch : ℕ
  tree : List (Option Credential)
  staged : Option (List (Option Credential))
deriving DecidableEq

/-- A leaf in the clear: its key of one byte, and its handle. -/
def clearLeaf (bytes : Bytes) : Credential := ⟨(utf8 (bytes.drop 1)).getD "", bytes.take 1⟩

def ClearGroup.stage {α : Type} (a : α) (tree : List (Option Credential)) (group : ClearGroup)
    (values : Values) : Except String α × ClearGroup × Values :=
  match group.staged with
  | some _ => (.error "pending commit", group, values)
  | none => (.ok a, { group with staged := some tree }, values)

def ClearGroup.merge (group : ClearGroup) (values : Values) : Except String Unit × ClearGroup × Values :=
  match group.staged with
  | none => (.error "no pending commit", group, values)
  | some tree => (.ok (), ⟨group.gid, group.epoch + 1, tree, none⟩, values)

/-- Messages are leaves that join by external commit, all of them in one group. -/
def clear : OpenMls where
  Group := ClearGroup
  Staged := Bytes
  Proposal := Unit
  groupId := ClearGroup.gid
  epoch := ClearGroup.epoch
  members := fun group => membersFrom 0 group.tree
  load := fun _ _ => .ok none
  newWithGroupId := fun credential gid values => (.ok ⟨gid, 0, [some credential], none⟩, values)
  intoGroup := fun _ values => (.error "no welcome", values)
  externalCommit := fun _ _ values => (.error "no group info", values)
  validate := fun bytes => .ok ⟨0, some (clearLeaf bytes).handle, (clearLeaf bytes).signatureKey⟩
  addMembers := fun bytes group values =>
    group.stage (bytes, bytes) (group.tree ++ [some (clearLeaf bytes)]) values
  removeMembers := fun index group values =>
    group.stage [UInt8.ofNat index] (group.tree.set index none) values
  mergePendingCommit := ClearGroup.merge
  clearPendingCommit := fun group values => (.ok (), { group with staged := none }, values)
  protocolGroup := fun _ => .ok (asBytes "team")
  processMessage := fun bytes group values =>
    (.ok ((clearLeaf bytes).handle, .stagedCommitMessage bytes), group, values)
  mergeStagedCommit := fun bytes group values =>
    (.ok (), ⟨group.gid, group.epoch + 1, group.tree ++ [some (clearLeaf bytes)], none⟩, values)
  storePendingProposal := fun _ group values => (.ok (), group, values)
  lossy := fun _ => ""

/-- The roster that a staged commit leads to. -/
def clearPending (group : ClearGroup) : Option (List Member) := group.staged.map (membersFrom 0)

theorem clear_rosters : Rosters clear clearPending := by
  refine ⟨fun group => nodup_membersFrom 0 group.tree, ?_, ?_, ?_⟩
  · intro index group values commit s h
    change ClearGroup.stage _ _ group values = _ at h
    unfold ClearGroup.stage at h
    split at h
    · cases h
    · cases h
      refine ⟨?_, rfl⟩
      have hset := membersFrom_set 0 index group.tree
      rw [Nat.zero_add] at hset
      exact congrArg some hset
  · intro index group values h
    change (∃ e, (ClearGroup.stage _ _ group values).1 = .error e) ∧
      clearPending (ClearGroup.stage _ _ group values).2.1 = _
    unfold ClearGroup.stage
    split
    · exact ⟨⟨_, rfl⟩, rfl⟩
    · rename_i hnone
      simp [clearPending, hnone] at h
  · intro group values s roster hpending h
    obtain ⟨tree, htree, hroster⟩ := Option.map_eq_some_iff.mp hpending
    change ClearGroup.merge group values = _ at h
    unfold ClearGroup.merge at h
    rw [htree] at h
    cases h
    exact ⟨hroster, rfl⟩

def clearClient : ChatClient clear :=
  { values := .empty, signer := ⟨[], [0]⟩, groups := .empty, name := "alice" }

/-- The client after code, which may have failed. -/
def after {α : Type} (x : Op clear α) : ChatClient clear := (x clearClient).2

def teamOfTwo : Op clear Unit := do
  createGroup "team"
  let _ ← addMember "team" (1 :: asBytes "bob") "bob" [1]
  let _ ← mergeStagedCommit "team"

/-- The same group, and somebody joins it by external commit with a handle that is taken. -/
def twoBobs : Op clear Unit := do
  teamOfTwo
  let _ ← processIncoming (2 :: asBytes "bob")

def team (c : ChatClient clear) : Option (List Member) :=
  (c.groups.get? "team").map fun group => membersFrom 0 group.tree

/-- The controller removes a member, and nothing else happens. -/
def removed (c : ChatClient clear) (user : String) : Except CoreError (Option ℕ) × ChatClient clear :=
  removeFromCircle "alice" "team" user true (fun c => c) c

theorem one_bob_removed :
    team (after teamOfTwo) = some [⟨0, some "alice", [0]⟩, ⟨1, some "bob", [1]⟩] ∧
      ∃ group, (removed (after teamOfTwo) "bob").2.groups.get? "team" = some group ∧
        ∀ m ∈ clear.members group, m.named "bob" = false := by
  have hget : (after teamOfTwo).groups.get? "team" =
      some ⟨asBytes "team", 1, [some ⟨"alice", [0]⟩, some ⟨"bob", [1]⟩], none⟩ := by
    rfl
  have hok : (removed (after teamOfTwo) "bob").1 = .ok (some 2) := by
    rfl
  have hget' : (removed (after teamOfTwo) "bob").2.groups.get? "team" =
      some ⟨asBytes "team", 2, [some ⟨"alice", [0]⟩, none], none⟩ := by
    rfl
  have hkeeps : @KeepsStaged clear clearPending "team" fun c => c :=
    fun c group hc => ⟨group, hc, rfl⟩
  refine ⟨by decide +kernel, _, hget', ?_⟩
  exact (removal_by_name clear_rosters hkeeps hget (Prod.ext hok rfl) hget').mpr (by decide +kernel)

/-- The member who joined second is still there. -/
theorem second_bob_stays :
    team (after twoBobs) =
        some [⟨0, some "alice", [0]⟩, ⟨1, some "bob", [1]⟩, ⟨2, some "bob", [2]⟩] ∧
      (removed (after twoBobs) "bob").1 = .ok (some 3) ∧
      team (removed (after twoBobs) "bob").2 =
        some [⟨0, some "alice", [0]⟩, ⟨2, some "bob", [2]⟩] := by
  refine ⟨by decide +kernel, ?_, by decide +kernel⟩
  rfl

end Quorum.Mls
