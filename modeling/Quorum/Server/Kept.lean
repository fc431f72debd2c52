import Quorum.Server.Steps
import Quorum.Store.Memory

/-!
# The store behind the handlers

What the handlers work on has functions for maps, and leaves out what they do not read
(`Server.Store`, with the logs of `Quorum.Relay`).  It is the store in memory all the same: whatever
is asked of the relay, what the handlers have is what `MemoryStore` keeps after some calls of its
functions (`kept_run`).
-/

namespace Quorum.Server

open Js (Dict)
open Quorum.Store
open Quorum.Store.MemoryStore (after)

/-! ### What is shown of it -/

/-- The log of a group, and its epoch. -/
def logOf (data : GroupData) : Relay.GroupData Bytes where
  epoch := data.epoch
  log := data.log.map fun m => ⟨m.group, m.seq, m.epoch, m.sender, m.payload⟩

/-- A role as it is stored; the handlers write no other text. -/
def roleOf (text : String) : Role := (Role.ofString? text).getD .member

def membersOf (members : List (String × String)) : List (String × Role) :=
  members.map fun m => (m.1, roleOf m.2)

/-- Who is a member of a group that may not be there. -/
def listed : Option GroupData → List (String × Role)
  | none => []
  | some data => membersOf data.members

def inviteOf (record : Quorum.Store.InviteRecord) : InviteRecord Bytes :=
  ⟨record.group, record.payload, record.expiresAt, record.maxUses, record.uses⟩

/-- A Welcome without its tag. -/
def StoredWelcome.untagged (w : StoredWelcome Bytes) : Quorum.Store.StoredWelcome :=
  ⟨w.sender, w.group, w.after, w.payload⟩

/-- The handlers have what the store in memory keeps. -/
structure Kept (inner : MemoryInner) (store : Store Bytes) : Prop where
  logs : ∀ group, store.logs.groups group = (inner.groups.get? group).map logOf
  members : ∀ group, store.members group = listed (inner.groups.get? group)
  welcomes : ∀ user, (store.welcomes user).map (·.untagged) = (inner.welcomes.get? user).getD []
  invites : ∀ invite, store.invites invite = (inner.invites.get? invite).map inviteOf
  claims : ∀ p, p ∈ store.claims ↔ p ∈ inner.inviteClaims

/-- A function of what a map has is updated where the map is written. -/
theorem update_of_set {V β : Type} {f : String → β} {g : Option V → β} {d : Dict String V}
    (h : ∀ k, f k = g (d.get? k)) (k : String) {v : V} {b : β} (hb : b = g (some v)) (k' : String) :
    Function.update f k b k' = g ((d.set k v).get? k') := by
  by_cases hk : k' = k
  · simp [hk, hb]
  · simp [hk, h, Dict.get?_set_of_ne _ _ (Ne.symm hk)]

theorem update_of_delete {V β : Type} {f : String → β} {g : Option V → β} {d : Dict String V}
    (h : ∀ k, f k = g (d.get? k)) (k : String) {b : β} (hb : b = g none) (k' : String) :
    Function.update f k b k' = g ((d.delete k).get? k') := by
  by_cases hk : k' = k
  · simp [hk, hb, Dict.get?_delete]
  · simp [hk, h, Dict.get?_delete, Ne.symm hk]

variable {inner : MemoryInner} {store : Store Bytes} {group user invite : String}

theorem any_membersOf (members : List (String × String)) (user : String) :
    (membersOf members).any (·.1 = user) = members.any (·.1 == user) := by
  simp [membersOf, Function.comp_def, beq_eq_decide]

theorem withRole_membersOf {role : Role} {text : String} (hrole : roleOf text = role)
    (members : List (String × String)) :
    Store.withRole user role (membersOf members) =
      membersOf (MemoryStore.withRole user text members) := by
  induction members with
  | nil => rfl
  | cons m members ih =>
    by_cases hm : m.1 = user
    · simp [membersOf, Store.withRole, MemoryStore.withRole, hm, hrole]
    · simpa [membersOf, Store.withRole, MemoryStore.withRole, hm] using ih

theorem withRole_of_not_any {members : List (String × String)}
    (h : members.any (·.1 == user) = false) (text : String) :
    MemoryStore.withRole user text members = members := by
  induction members with
  | nil => rfl
  | cons m members ih =>
    rw [List.any_cons, Bool.or_eq_false_iff] at h
    simp [MemoryStore.withRole, h.1, ih h.2]

namespace Kept

theorem empty : Kept .empty .empty :=
  ⟨fun _ => rfl, fun _ => rfl, fun _ => rfl, fun _ => rfl, fun _ => Iff.rfl⟩

/-- One group is written, and nothing else. -/
theorem withGroup (h : Kept inner store) (group : String) (data : GroupData) :
    Kept { inner with groups := inner.groups.set group data }
      { store with
        logs := store.logs.insert group (logOf data)
        members := Function.update store.members group (membersOf data.members) } :=
  ⟨update_of_set h.logs group rfl, update_of_set h.members group rfl, h.welcomes, h.invites,
    h.claims⟩

/-- The members of a group are written. -/
theorem withMembers (h : Kept inner store) {data : GroupData}
    (hdata : inner.groups.get? group = some data) (members : List (String × String)) :
    Kept { inner with groups := inner.groups.set group { data with members } }
      { store with members := Function.update store.members group (membersOf members) } := by
  have hlog : store.logs.insert group (logOf { data with members }) = store.logs := by
    refine congrArg Relay.MemoryStore.mk (Function.update_eq_self_iff.mpr ?_)
    rw [h.logs, hdata]
    rfl
  have hwritten := h.withGroup group { data with members }
  rwa [hlog] at hwritten

/-- A group that is there. -/
theorem exists_data (h : Kept inner store) (hgroup : store.has group = true) :
    ∃ data, inner.groups.get? group = some data := by
  rw [Store.has, h.logs, Option.isSome_map] at hgroup
  exact Option.isSome_iff_exists.mp hgroup

/-! ### Calls -/

theorem createGroup (h : Kept inner store) (hfree : store.has group = false) :
    Kept (after inner (.createGroup group user)) (store.createGroup group user) := by
  have hnone : inner.groups.has group = false := by
    rwa [Store.has, h.logs, Option.isSome_map, ← Dict.has_eq_isSome] at hfree
  change Kept (MemoryStore.createGroup group user inner).2 _
  rw [MemoryStore.createGroup, hnone]
  exact h.withGroup group _

theorem allowMember (h : Kept inner store) (hgroup : store.has group = true) :
    Kept (after inner (.allowMember group user)) (store.allowMember group user) := by
  obtain ⟨data, hdata⟩ := h.exists_data hgroup
  change Kept (MemoryStore.allowMember group user inner).2 _
  simp only [MemoryStore.allowMember, Store.allowMember, h.members, hdata, listed,
    any_membersOf]
  split
  · exact h
  · have hadded := h.withMembers hdata (data.members ++ [(user, ROLE_MEMBER)])
    rwa [membersOf, List.map_append] at hadded

/-- A call that rewrites the members, if the group is there. -/
theorem mapMembers (h : Kept inner store) {f : List (String × Role) → List (String × Role)}
    {g : List (String × String) → List (String × String)} (hnil : f [] = [])
    (hf : ∀ l, f (membersOf l) = membersOf (g l)) (group : String) :
    Kept (match inner.groups.get? group with
      | none => inner
      | some data =>
        { inner with groups := inner.groups.set group { data with members := g data.members } })
      { store with members := Function.update store.members group (f (store.members group)) } := by
  have hmembers := h.members group
  cases hdata : inner.groups.get? group with
  | none =>
    rw [hdata, listed] at hmembers
    rw [hmembers, hnil, Function.update_eq_self_iff.mpr hmembers.symm]
    exact h
  | some data =>
    rw [hdata, listed] at hmembers
    rw [hmembers, hf]
    exact h.withMembers hdata _

theorem disallowMember (h : Kept inner store) :
    Kept (after inner (.disallowMember group user)) (store.disallowMember group user) := by
  have hfilter := h.mapMembers (f := List.filter (·.1 ≠ user)) (g := List.filter (·.1 != user)) rfl
    (fun l => by simp [membersOf, List.filter_map, Function.comp_def, bne, beq_eq_decide]) group
  change Kept (MemoryStore.disallowMember group user inner).2 _
  unfold MemoryStore.disallowMember
  cases hdata : inner.groups.get? group <;> rw [hdata] at hfilter <;> exact hfilter

theorem setMemberRole (h : Kept inner store) {role : Role} {text : String}
    (hrole : roleOf text = role) : Kept (after inner (.setMemberRole group user text))
      (store.setMemberRole group user role) := by
  have hmap := h.mapMembers (f := Store.withRole user role)
    (g := MemoryStore.withRole user text) rfl (withRole_membersOf hrole) group
  change Kept (MemoryStore.setMemberRole group user text inner).2 _
  unfold MemoryStore.setMemberRole
  cases hdata : inner.groups.get? group with
  | none =>
    rw [hdata] at hmap
    exact hmap
  | some data =>
    rw [hdata] at hmap
    dsimp only
    split
    next => exact hmap
    next hno =>
      -- there is no role to change
      have hsame := withRole_of_not_any (Bool.not_eq_true _ ▸ hno) text
      have hmembers : store.members group = membersOf data.members := by
        rw [h.members, hdata, listed]
      rw [Store.setMemberRole, hmembers, withRole_membersOf hrole, hsame,
        Function.update_eq_self_iff.mpr hmembers.symm]
      exact h

theorem deleteGroup (h : Kept inner store) :
    Kept (after inner (.deleteGroup group)) (store.deleteGroup group) := by
  refine ⟨update_of_delete h.logs group rfl, update_of_delete h.members group rfl, fun user' => ?_,
    fun invite => ?_, h.claims⟩
  · change List.map _ (List.filter _ _) = ((inner.welcomes.mapValues _).get? user').getD []
    have hfilter : ((inner.welcomes.get? user').map (List.filter (·.group != group))).getD [] =
        ((inner.welcomes.get? user').getD []).filter (·.group != group) := by
      cases inner.welcomes.get? user' <;> rfl
    rw [Dict.get?_mapValues, hfilter, ← h.welcomes, List.filter_map]
    exact congrArg _ (List.filter_congr fun w _ => by simp [StoredWelcome.untagged, bne, beq_eq_decide])
  · change Option.filter _ _ = ((inner.invites.filter _).get? invite).map inviteOf
    rw [Dict.get?_filter, h.invites]
    cases inner.invites.get? invite with
    | none => rfl
    | some record =>
      by_cases hr : record.group = group <;>
        simp [Option.filter_some, inviteOf, hr]

/-- A message is put at the end of the log of a group. -/
theorem push (h : Kept inner store) {data : GroupData} (hdata : inner.groups.get? group = some data)
    (epoch epoch' : ℕ) (user : String) (payload : Bytes) :
    Kept { inner with groups := inner.groups.set group { data with
        epoch := epoch'
        log := data.log ++ [⟨group, data.log.length + 1, epoch, user, payload⟩] } }
      { store with
        logs := store.logs.insert group
          ⟨epoch', (logOf data).log ++ [(logOf data).entry group epoch user payload]⟩ } := by
  have hmembers : Function.update store.members group (membersOf data.members) = store.members :=
    Function.update_eq_self_iff.mpr (by rw [h.members, hdata, listed])
  have hpushed := h.withGroup group { data with
    epoch := epoch'
    log := data.log ++ [⟨group, data.log.length + 1, epoch, user, payload⟩] }
  rw [hmembers] at hpushed
  simpa [logOf, Relay.GroupData.entry] using hpushed

theorem appendMessage (h : Kept inner store) {epoch : ℕ} {payload : Bytes} {commit : Bool} :
    Kept (after inner (.appendMessage group epoch user payload commit))
      (store.appendMessage group epoch user payload commit) := by
  change Kept (MemoryStore.appendMessage group epoch user payload commit inner).2 _
  unfold MemoryStore.appendMessage Store.appendMessage
  have hlog := h.logs group
  cases hdata : inner.groups.get? group with
  | none =>
    rw [hdata] at hlog
    have hnone : Relay.appendMessage group epoch user payload commit store.logs = .error _ _ :=
      bind_of_error (Relay.findGroup_of_none hlog)
    rw [finalState_of_error hnone]
    exact h
  | some data =>
    rw [hdata] at hlog
    cases commit with
    | false =>
      rw [finalState_of_ok (Relay.appendMessage_app hlog epoch user payload)]
      exact h.push hdata epoch data.epoch user payload
    | true =>
      by_cases hepoch : epoch = data.epoch + 1
      · subst hepoch
        have hcommit := Relay.appendMessage_commit hlog user payload
        rw [show (logOf data).epoch = data.epoch from rfl] at hcommit
        rw [finalState_of_ok hcommit]
        have hpushed := h.push hdata (data.epoch + 1) (data.epoch + 1) user payload
        simpa using hpushed
      · rw [finalState_of_error (Relay.appendMessage_conflict hlog hepoch user payload)]
        simpa [hepoch] using h

theorem storeWelcome (h : Kept inner store) (w : StoredWelcome Bytes) :
    Kept (after inner (.storeWelcome user w.untagged)) (store.storeWelcome user w) := by
  refine ⟨h.logs, h.members, fun user' => ?_, h.invites, h.claims⟩
  refine (Function.apply_update (fun _ => List.map _) ..).trans
    (update_of_set (g := fun o => o.getD []) h.welcomes user ?_ user')
  rw [List.map_append, h.welcomes]
  rfl

theorem takeWelcomes (h : Kept inner store) :
    Kept (after inner (.takeWelcomes user))
      { store with welcomes := Function.update store.welcomes user [] } :=
  ⟨h.logs, h.members, fun user' => (Function.apply_update (fun _ => List.map _) ..).trans
    (update_of_delete (g := fun o => o.getD []) h.welcomes user rfl user'), h.invites, h.claims⟩

theorem createInvite (h : Kept inner store) (record : Quorum.Store.InviteRecord)
    (hgroup : store.has record.group = true) :
    Kept (after inner (.createInvite invite record)) (store.createInvite invite (inviteOf record)) := by
  obtain ⟨data, hdata⟩ := h.exists_data hgroup
  change Kept (MemoryStore.createInvite invite record inner).2 _
  rw [MemoryStore.createInvite, Dict.has_eq_isSome, hdata, if_pos Option.isSome_some,
    Dict.setNew, Dict.has_eq_isSome, Store.createInvite]
  have hinvite := h.invites invite
  cases hold : inner.invites.get? invite with
  | none =>
    rw [hold] at hinvite
    rw [hinvite]
    exact ⟨h.logs, h.members, h.welcomes, update_of_set h.invites invite rfl, h.claims⟩
  | some old =>
    rw [hold] at hinvite
    rw [hinvite, Option.map_some, Option.getD_some, Function.update_eq_self_iff.mpr hinvite.symm]
    exact h

theorem updateInvite (h : Kept inner store) {old : InviteRecord Bytes} {payload : Bytes}
    (hold : store.invites invite = some old) :
    Kept (after inner (.updateInvite invite payload))
      (store.setInvite invite (some { old with payload })) := by
  rw [h.invites] at hold
  obtain ⟨record, hrecord, rfl⟩ := Option.map_eq_some_iff.mp hold
  change Kept (MemoryStore.updateInvite invite payload inner).2 _
  rw [MemoryStore.updateInvite, hrecord]
  exact ⟨h.logs, h.members, h.welcomes, update_of_set h.invites invite rfl, h.claims⟩

theorem revokeInvite (h : Kept inner store) :
    Kept (after inner (.revokeInvite invite)) (store.setInvite invite none) :=
  ⟨h.logs, h.members, h.welcomes, update_of_delete h.invites invite rfl, h.claims⟩

theorem redeemInvite (h : Kept inner store) {now : ℕ} {record : InviteRecord Bytes}
    (hredeemable : store.redeemable invite user now = .ok record) :
    Kept (after inner (.redeemInvite invite user now)) (store.redeem invite user record) := by
  rw [Store.redeemable, h.invites] at hredeemable
  rcases hold : inner.invites.get? invite with _ | old <;> rw [hold] at hredeemable
  · cases hredeemable
  -- The claim is noted once here, and the uses are what the handler has found them to be.
  have hwritten (uses : ℕ) : Kept { inner with
        invites := inner.invites.set invite { old with uses }
        inviteClaims := Js.insertNew inner.inviteClaims (invite, user) }
      (store.redeem invite user (inviteOf { old with uses })) := by
    refine ⟨h.logs, h.members, h.welcomes, update_of_set h.invites invite rfl, fun p => ?_⟩
    refine List.mem_cons.trans (Iff.trans ?_ (Js.mem_foldl_insertNew (l := [(invite, user)])).symm)
    rw [h.claims, List.mem_singleton, or_comm]
  have hclaims := h.claims (invite, user)
  change Kept (MemoryStore.redeemInvite invite user now inner).2 _
  dsimp only [Option.map_some, inviteOf] at hredeemable
  split_ifs at hredeemable with hlate hmem hfull <;> cases hredeemable
  · simpa [MemoryStore.redeemInvite, hold, hlate, hclaims.mp hmem, inviteOf] using
      hwritten old.uses
  · simpa [MemoryStore.redeemInvite, hold, hlate, mt hclaims.mpr hmem, hfull, inviteOf] using
      hwritten (old.uses + 1)

/-! ### Runs -/

variable {s : App Bytes} {c rid now : ℕ} {t : Task Bytes} {full : ℕ → Bool}

/-- **What a section writes is written by some call.** -/
theorem perform (h : Kept inner s.store) {sec : Section Bytes} (hstems : sec.Stems s c rid now t) :
    ∃ calls : List Call, Kept (calls.foldl after inner) (s.perform full sec).store := by
  cases sec with
  | createGroup group creator => exact ⟨[.createGroup group creator], h.createGroup hstems.2.2⟩
  | allowMember group user => exact ⟨[.allowMember group user], h.allowMember hstems.1⟩
  | setMemberRole group user role =>
    obtain ⟨text, htext⟩ : ∃ text, roleOf text = role := by
      cases role with
      | admin => exact ⟨ROLE_ADMIN, by decide⟩
      | member => exact ⟨ROLE_MEMBER, by decide⟩
    exact ⟨[.setMemberRole group user text], h.setMemberRole htext⟩
  | disallowMember group user => exact ⟨[.disallowMember group user], h.disallowMember⟩
  | deleteGroup group => exact ⟨[.deleteGroup group], h.deleteGroup⟩
  | appendMessage group epoch sender payload commit =>
    exact ⟨[.appendMessage group epoch sender payload commit], h.appendMessage⟩
  | createInvite invite record =>
    let stored : Quorum.Store.InviteRecord :=
      ⟨record.group, record.payload, record.expiresAt, record.maxUses, record.uses⟩
    exact ⟨[.createInvite invite stored], h.createInvite stored hstems.2⟩
  | setInvite invite record =>
    rcases hstems with ⟨-, rfl⟩ | ⟨old, payload, -, hold, rfl⟩
    · exact ⟨[.revokeInvite invite], h.revokeInvite⟩
    · exact ⟨[.updateInvite invite payload], h.updateInvite hold⟩
  | redeem invite user record =>
    exact ⟨[.redeemInvite invite user now], h.redeemInvite hstems.2.2⟩
  | deliver recipient sender group after_ payload =>
    dsimp only [App.perform, App.deliver]
    split
    · exact ⟨[], h⟩
    · exact ⟨[.storeWelcome recipient _], h.storeWelcome _⟩
  | _ => exact ⟨[], h⟩

theorem step (h : Kept inner s.store) (admins : List String) (a : Action Bytes) :
    ∃ calls : List Call, Kept (calls.foldl after inner) (s.step admins a).store := by
  have hcase := step_case admins s a
  generalize s.step admins a = s' at hcase ⊢
  cases hcase with
  | claim invite user now record hredeemable =>
    exact ⟨[.redeemInvite invite user now], h.redeemInvite hredeemable⟩
  | connect user => exact ⟨[.takeWelcomes user], h.takeWelcomes⟩
  | request c rid request ho ht => exact ⟨[], h⟩
  | advance c full now rid t sec next hgoes =>
    rw [store_settle]
    exact h.perform hgoes.stems
  | writer a s' hstore _ _ _ _ _ => exact ⟨[], hstore ▸ h⟩
  | close c ho ht => exact ⟨[], by rwa [store_close]⟩

end Kept

/-- **The handlers have what the store in memory keeps after some calls**, whatever is asked of the
relay. -/
theorem kept_run (admins : List String) (l : List (Action Bytes)) :
    ∃ calls : List Call, Kept (calls.foldl after .empty) (App.start.run admins l).store := by
  induction l using List.reverseRecOn with
  | nil => exact ⟨[], .empty⟩
  | append_singleton l a ih =>
    obtain ⟨calls, h⟩ := ih
    obtain ⟨more, hmore⟩ := h.step admins a
    refine ⟨calls ++ more, ?_⟩
    rwa [List.foldl_append, App.run, List.foldl_concat]

end Quorum.Server
