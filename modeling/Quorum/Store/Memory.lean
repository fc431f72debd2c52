import Quorum.Store

/-!
# The store in memory

`MemoryStore` in `store.rs`: maps behind one lock, so each call is a function of what they hold.  A
map is listed in the order its keys were first written; the source lists a `HashMap` in no order
that is known.
-/

namespace Quorum.Store

open Js (Dict)

/-! ### What is kept -/

/-- `HistoryLog`: the counter outlives the entries. -/
structure HistoryLog where
  lastSeq : ℕ
  entries : List HistoryEntry

instance : Inhabited HistoryLog := ⟨{ lastSeq := 0, entries := [] }⟩

/-- `log.entries.retain(keep)`. -/
def HistoryLog.retain (log : HistoryLog) (keep : HistoryEntry → Bool) : HistoryLog :=
  { log with entries := log.entries.filter keep }

/-- `GroupData`. -/
structure GroupData where
  createdBy : String
  /-- Who is a member, and their role. -/
  members : List (String × String)
  epoch : ℕ
  log : List StoredMessage
  history : Dict String HistoryLog

/-- `MemoryInner`. -/
structure MemoryInner where
  users : Dict String Bytes
  keyPackages : Dict String (List Bytes)
  groups : Dict String GroupData
  welcomes : Dict String (List StoredWelcome)
  invites : Dict String InviteRecord
  /-- The pairs of an invite and a user that have counted a use. -/
  inviteClaims : List (String × String)
  pushSubs : Dict String (Dict String String)
  vaults : Dict String VaultRecord
  passkeyWraps : Dict String PasskeyWrap
  /-- The blob of each user, and its version. -/
  backups : Dict String (Bytes × ℤ)

/-- `MemoryInner::default()`. -/
def MemoryInner.empty : MemoryInner where
  users := .empty
  keyPackages := .empty
  groups := .empty
  welcomes := .empty
  invites := .empty
  inviteClaims := []
  pushSubs := .empty
  vaults := .empty
  passkeyWraps := .empty
  backups := .empty

namespace MemoryStore

/-- A call: what it returns, and what is kept after it. -/
abbrev Op (α : Type) := MemoryInner → Except StoreError α × MemoryInner

/-! ### Accounts -/

/-- `register_user`. -/
def registerUser (user : String) (pubkey : Bytes) : Op RegisterOutcome := fun inner =>
  match inner.users.get? user with
  | some existing => (.ok (.existing existing), inner)
  | none => (.ok .registered, { inner with users := inner.users.set user pubkey })

/-- `get_user_pubkey`. -/
def getUserPubkey (user : String) : Op (Option Bytes) := fun inner =>
  (.ok (inner.users.get? user), inner)

/-- `user_count`. -/
def userCount : Op ℕ := fun inner => (.ok inner.users.size, inner)

/-- `list_users`. -/
def listUsers : Op (List String) := fun inner =>
  (.ok (inner.users.keys.mergeSort fun a b => a ≤ b), inner)

/-- `publish_key_packages`. -/
def publishKeyPackages (user : String) (payloads : List Bytes) : Op Unit := fun inner =>
  let queue := (inner.keyPackages.get? user).getD []
  (.ok (), { inner with keyPackages := inner.keyPackages.set user (queue ++ payloads) })

/-- `take_key_package`. -/
def takeKeyPackage (user : String) : Op (Option Bytes) := fun inner =>
  match inner.keyPackages.get? user with
  | some (payload :: queue) =>
    (.ok (some payload), { inner with keyPackages := inner.keyPackages.set user queue })
  | _ => (.ok none, inner)

/-! ### Groups and their members -/

/-- `create_group`. -/
def createGroup (group creator : String) : Op Unit := fun inner =>
  if inner.groups.has group then (.error .groupExists, inner)
  else
    let data : GroupData :=
      { createdBy := creator, members := [(creator, ROLE_ADMIN)], epoch := 0, log := [],
        history := .empty }
    (.ok (), { inner with groups := inner.groups.set group data })

/-- `allow_member`. -/
def allowMember (group user : String) : Op Unit := fun inner =>
  match inner.groups.get? group with
  | none => (.error .noSuchGroup, inner)
  | some data =>
    if data.members.any (·.1 == user) then (.ok (), inner)
    else
      let members := data.members ++ [(user, ROLE_MEMBER)]
      (.ok (), { inner with groups := inner.groups.set group { data with members } })

/-- `disallow_member`. -/
def disallowMember (group user : String) : Op Unit := fun inner =>
  match inner.groups.get? group with
  | none => (.ok (), inner)
  | some data =>
    let members := data.members.filter (·.1 != user)
    (.ok (), { inner with groups := inner.groups.set group { data with members } })

/-- `delete_group`. -/
def deleteGroup (group : String) : Op Unit := fun inner =>
  (.ok (),
    { inner with
      groups := inner.groups.delete group
      welcomes := inner.welcomes.mapValues fun _ queue => queue.filter (·.group != group)
      invites := inner.invites.filter fun _ record => record.group != group })

/-- `is_member`. -/
def isMember (group user : String) : Op Bool := fun inner =>
  (.ok ((inner.groups.get? group).any fun data => data.members.any (·.1 == user)), inner)

/-- `member_role`. -/
def memberRole (group user : String) : Op (Option String) := fun inner =>
  (.ok ((inner.groups.get? group).bind fun data =>
    (data.members.find? (·.1 == user)).map Prod.snd), inner)

/-- Give the first of a list that is the user another role. -/
def withRole (user role : String) : List (String × String) → List (String × String)
  | [] => []
  | m :: members =>
    if m.1 == user then (m.1, role) :: members else m :: withRole user role members

/-- What `set_member_role` says of somebody who is not a member. -/
def notMember (group user : String) : StoreError := .backend s!"{user} is not a member of {group}"

/-- `set_member_role`. -/
def setMemberRole (group user role : String) : Op Unit := fun inner =>
  match inner.groups.get? group with
  | none => (.error .noSuchGroup, inner)
  | some data =>
    if data.members.any (·.1 == user) then
      let members := withRole user role data.members
      (.ok (), { inner with groups := inner.groups.set group { data with members } })
    else (.error (notMember group user), inner)

/-- `group_members`. -/
def groupMembers (group : String) : Op (List (String × String)) := fun inner =>
  match inner.groups.get? group with
  | none => (.error .noSuchGroup, inner)
  | some data => (.ok data.members, inner)

/-- `list_groups`; no two groups have the same name, so their creators do not decide the order. -/
def listGroups : Op (List (String × String)) := fun inner =>
  let groups := inner.groups.entries.map fun p => (p.1, p.2.createdBy)
  (.ok (groups.mergeSort fun a b => a.1 ≤ b.1), inner)

/-! ### The log of a group, and Welcomes -/

/-- `append_message`. -/
def appendMessage (group : String) (epoch : ℕ) (sender : String) (payload : Bytes)
    (commit : Bool) : Op ℕ := fun inner =>
  match inner.groups.get? group with
  | none => (.error .noSuchGroup, inner)
  | some data =>
    if commit && epoch != data.epoch + 1 then (.error .epochConflict, inner)
    else
      let seq := data.log.length + 1
      let data := { data with
        epoch := if commit then epoch else data.epoch
        log := data.log ++ [{ group, seq, epoch, sender, payload }] }
      (.ok seq, { inner with groups := inner.groups.set group data })

/-- `messages_after`. -/
def messagesAfter (group : String) (after : ℕ) : Op (List StoredMessage) := fun inner =>
  match inner.groups.get? group with
  | none => (.error .noSuchGroup, inner)
  | some data => (.ok (data.log.filter fun m => after < m.seq), inner)

/-- `store_welcome`. -/
def storeWelcome (recipient : String) (welcome : StoredWelcome) : Op Unit := fun inner =>
  let queue := (inner.welcomes.get? recipient).getD []
  (.ok (), { inner with welcomes := inner.welcomes.set recipient (queue ++ [welcome]) })

/-- `take_welcomes`. -/
def takeWelcomes (recipient : String) : Op (List StoredWelcome) := fun inner =>
  (.ok ((inner.welcomes.get? recipient).getD []),
    { inner with welcomes := inner.welcomes.delete recipient })

/-! ### The history of channels -/

/-- `append_history`. -/
def appendHistory (group hid author : String) (ts : ℕ) (expiresAt : Option ℕ) (payload : Bytes) :
    Op ℕ := fun inner =>
  match inner.groups.get? group with
  | none => (.error .noSuchGroup, inner)
  | some data =>
    let log := (data.history.get? hid).getD default
    let seq := log.lastSeq + 1
    let log : HistoryLog :=
      { lastSeq := seq, entries := log.entries ++ [{ seq, ts, expiresAt, payload, author }] }
    let data := { data with history := data.history.set hid log }
    (.ok seq, { inner with groups := inner.groups.set group data })

/-- A log is kept in part. -/
def retainIn (group hid : String) (data : GroupData) (log : HistoryLog)
    (keep : HistoryEntry → Bool) (inner : MemoryInner) : MemoryInner :=
  { inner with
    groups := inner.groups.set group { data with history := data.history.set hid (log.retain keep) } }

/-- `sweep_expired_history`: how many entries went. -/
def sweepExpiredHistory (now : ℕ) : Op ℕ := fun inner =>
  let kept (log : HistoryLog) := log.retain fun e => !e.expired now
  let removed (log : HistoryLog) := log.entries.length - (kept log).entries.length
  (.ok (inner.groups.values.map fun data => (data.history.values.map removed).sum).sum,
    { inner with
      groups := inner.groups.mapValues fun _ data =>
        { data with history := data.history.mapValues fun _ log => kept log } })

/-- A page of the entries of a log: its entries, and whether it reaches the start. -/
def pageOf (entries : List HistoryEntry) : HistoryPage → List HistoryEntry × Bool
  | .after after limit =>
    let matching := entries.filter fun e => after < e.seq
    (matching.take limit, after = 0 && matching.length ≤ limit)
  | .before before limit =>
    let matching := entries.filter fun e => e.seq < before
    (matching.drop (matching.length - limit), matching.length ≤ limit)

/-- `history_page`. -/
def historyPage (group hid : String) (page : HistoryPage) (now : ℕ) :
    Op (List HistoryEntry × Bool) := fun inner =>
  match inner.groups.get? group with
  | none => (.error .noSuchGroup, inner)
  | some data =>
    match data.history.get? hid with
    | none => (.ok ([], true), inner)
    | some log =>
      let keep : HistoryEntry → Bool := fun e => !e.expired now
      (.ok (pageOf (log.retain keep).entries page), retainIn group hid data log keep inner)

/-- `history_count`. -/
def historyCount (group hid : String) (afterTs : ℕ) (exclude : String) (now : ℕ) : Op ℕ :=
  fun inner =>
    match inner.groups.get? group with
    | none => (.error .noSuchGroup, inner)
    | some data =>
      match data.history.get? hid with
      | none => (.ok 0, inner)
      | some log =>
        (.ok (log.entries.countP fun e => afterTs < e.ts && e.author != exclude && !e.expired now),
          inner)

/-- `redact_history`: an entry goes if the caller has written it or is an admin. -/
def redactHistory (group hid : String) (seq : ℕ) (caller : String) (admin : Bool) : Op Bool :=
  fun inner =>
    match inner.groups.get? group with
    | none => (.error .noSuchGroup, inner)
    | some data =>
      match data.history.get? hid with
      | none => (.ok false, inner)
      | some log =>
        let keep : HistoryEntry → Bool := fun e => !(e.seq == seq && (admin || e.author == caller))
        (.ok ((log.retain keep).entries.length < log.entries.length),
          retainIn group hid data log keep inner)

/-- `prune_history`. -/
def pruneHistory (group hid : String) (beforeTs : ℕ) : Op Unit := fun inner =>
  match inner.groups.get? group with
  | none => (.error .noSuchGroup, inner)
  | some data =>
    match data.history.get? hid with
    | none => (.ok (), inner)
    | some log => (.ok (), retainIn group hid data log (fun e => beforeTs ≤ e.ts) inner)

/-! ### Backups, vaults, devices and subscriptions -/

/-- `set_backup`: a write that does not name the version it replaces is refused. -/
def setBackup (user : String) (payload : Bytes) (expected : Option ℤ) : Op ℤ := fun inner =>
  let current := (inner.backups.get? user).map Prod.snd
  if current != expected then (.error .backupConflict, inner)
  else
    let next := current.getD 0 + 1
    (.ok next, { inner with backups := inner.backups.set user (payload, next) })

/-- `get_backup`. -/
def getBackup (user : String) : Op (Option (Bytes × ℤ)) := fun inner =>
  (.ok (inner.backups.get? user), inner)

/-- `set_vault`. -/
def setVault (user : String) (vault : VaultRecord) : Op Unit := fun inner =>
  (.ok (), { inner with vaults := inner.vaults.set user vault })

/-- `get_vault`. -/
def getVault (user : String) : Op (Option VaultRecord) := fun inner =>
  (.ok (inner.vaults.get? user), inner)

/-- `list_passkey_vaults`. -/
def listPasskeyVaults : Op (List (String × VaultRecord)) := fun inner =>
  (.ok (inner.vaults.entries.filter fun p => p.2.kind == "passkey"), inner)

/-- `add_passkey_wrap`: only the one who has enrolled a device may enrol it again. -/
def addPasskeyWrap (credId : String) (wrap : PasskeyWrap) : Op Unit := fun inner =>
  if (inner.passkeyWraps.get? credId).any (·.user != wrap.user) then
    (.error .credentialTaken, inner)
  else (.ok (), { inner with passkeyWraps := inner.passkeyWraps.set credId wrap })

/-- `get_passkey_wrap`. -/
def getPasskeyWrap (credId : String) : Op (Option PasskeyWrap) := fun inner =>
  (.ok (inner.passkeyWraps.get? credId), inner)

/-- Newest first, then by id. -/
def newestFirst (a b : PasskeyDevice) : Bool :=
  b.createdAt < a.createdAt || (a.createdAt == b.createdAt && a.credId ≤ b.credId)

def deviceOf (p : String × PasskeyWrap) : PasskeyDevice :=
  { credId := p.1, label := p.2.label, createdAt := p.2.createdAt }

/-- `list_passkey_wraps`. -/
def listPasskeyWraps (user : String) : Op (List PasskeyDevice) := fun inner =>
  let devices := (inner.passkeyWraps.entries.filter (·.2.user == user)).map deviceOf
  (.ok (devices.mergeSort newestFirst), inner)

/-- `delete_passkey_wrap`. -/
def deletePasskeyWrap (credId user : String) : Op Bool := fun inner =>
  if (inner.passkeyWraps.get? credId).all (·.user != user) then (.ok false, inner)
  else (.ok true, { inner with passkeyWraps := inner.passkeyWraps.delete credId })

/-- `put_push_subscription`. -/
def putPushSubscription (user endpoint subscriptionJson : String) : Op Unit := fun inner =>
  let subs := ((inner.pushSubs.get? user).getD .empty).set endpoint subscriptionJson
  (.ok (), { inner with pushSubs := inner.pushSubs.set user subs })

/-- `push_subscriptions_for`. -/
def pushSubscriptionsFor (user : String) : Op (List (String × String)) := fun inner =>
  (.ok (((inner.pushSubs.get? user).map Dict.entries).getD []), inner)

/-- `delete_push_subscription`. -/
def deletePushSubscription (user endpoint : String) : Op Unit := fun inner =>
  match inner.pushSubs.get? user with
  | none => (.ok (), inner)
  | some subs => (.ok (), { inner with pushSubs := inner.pushSubs.set user (subs.delete endpoint) })

/-! ### Invites -/

/-- `create_invite`: the first writer wins. -/
def createInvite (invite : String) (record : InviteRecord) : Op Unit := fun inner =>
  if inner.groups.has record.group then
    (.ok (), { inner with invites := inner.invites.setNew (invite, record) })
  else (.error .noSuchGroup, inner)

/-- `invite_group`. -/
def inviteGroup (invite : String) : Op (Option String) := fun inner =>
  (.ok ((inner.invites.get? invite).map (·.group)), inner)

/-- `update_invite`. -/
def updateInvite (invite : String) (payload : Bytes) : Op Unit := fun inner =>
  match inner.invites.get? invite with
  | none => (.error .inviteInvalid, inner)
  | some record =>
    (.ok (), { inner with invites := inner.invites.set invite { record with payload } })

/-- `revoke_invite`. -/
def revokeInvite (invite : String) : Op Unit := fun inner =>
  (.ok (), { inner with invites := inner.invites.delete invite })

/-- `redeem_invite`: a use is counted the first time a user claims the invite. -/
def redeemInvite (invite user : String) (now : ℕ) : Op (String × Bytes) := fun inner =>
  let already := inner.inviteClaims.contains (invite, user)
  match inner.invites.get? invite with
  | none => (.error .inviteInvalid, inner)
  | some record =>
    if record.expiresAt.any (· < now) then (.error .inviteInvalid, inner)
    else if !already && record.maxUses.any (· ≤ record.uses) then (.error .inviteInvalid, inner)
    else
      let uses := if already then record.uses else record.uses + 1
      (.ok (record.group, record.payload),
        { inner with
          invites := inner.invites.set invite { record with uses }
          inviteClaims := Js.insertNew inner.inviteClaims (invite, user) })

/-- `claim_invite_for_registration`. -/
def claimInviteForRegistration (invite user : String) (now : ℕ) : Op Bool := fun inner =>
  match redeemInvite invite user now inner with
  | (.ok _, inner) => (.ok true, inner)
  | (.error .inviteInvalid, inner) => (.ok false, inner)
  | (.error e, inner) => (.error e, inner)

/-! ### The interface -/

/-- An answer made of what a call returns. -/
def answering {α : Type} (answer : α → Answer) (op : Op α) : Op Answer := fun inner =>
  ((op inner).1.map answer, (op inner).2)

def call : Call → Op Answer
  | .registerUser user pubkey => answering .outcome (registerUser user pubkey)
  | .getUserPubkey user => answering .bytes (getUserPubkey user)
  | .userCount => answering .number userCount
  | .publishKeyPackages user payloads =>
    answering (fun _ => .done) (publishKeyPackages user payloads)
  | .takeKeyPackage user => answering .bytes (takeKeyPackage user)
  | .createGroup group creator => answering (fun _ => .done) (createGroup group creator)
  | .allowMember group user => answering (fun _ => .done) (allowMember group user)
  | .disallowMember group user => answering (fun _ => .done) (disallowMember group user)
  | .deleteGroup group => answering (fun _ => .done) (deleteGroup group)
  | .isMember group user => answering .flag (isMember group user)
  | .memberRole group user => answering .text (memberRole group user)
  | .setMemberRole group user role => answering (fun _ => .done) (setMemberRole group user role)
  | .groupMembers group => answering .members (groupMembers group)
  | .listUsers => answering .users listUsers
  | .listGroups => answering .groups listGroups
  | .appendMessage group epoch sender payload commit =>
    answering .number (appendMessage group epoch sender payload commit)
  | .messagesAfter group after => answering .messages (messagesAfter group after)
  | .storeWelcome recipient welcome => answering (fun _ => .done) (storeWelcome recipient welcome)
  | .takeWelcomes recipient => answering .welcomes (takeWelcomes recipient)
  | .appendHistory group hid author ts expiresAt payload =>
    answering .number (appendHistory group hid author ts expiresAt payload)
  | .sweepExpiredHistory now => answering .number (sweepExpiredHistory now)
  | .historyPage group hid page now =>
    answering (fun p => .page p.1 p.2) (historyPage group hid page now)
  | .historyCount group hid afterTs exclude now =>
    answering .number (historyCount group hid afterTs exclude now)
  | .redactHistory group hid seq caller admin =>
    answering .flag (redactHistory group hid seq caller admin)
  | .pruneHistory group hid beforeTs => answering (fun _ => .done) (pruneHistory group hid beforeTs)
  | .setBackup user payload expected => answering .version (setBackup user payload expected)
  | .getBackup user => answering .backup (getBackup user)
  | .setVault user vault => answering (fun _ => .done) (setVault user vault)
  | .getVault user => answering .vault (getVault user)
  | .listPasskeyVaults => answering .vaults listPasskeyVaults
  | .addPasskeyWrap credId wrap => answering (fun _ => .done) (addPasskeyWrap credId wrap)
  | .getPasskeyWrap credId => answering .wrap (getPasskeyWrap credId)
  | .listPasskeyWraps user => answering .devices (listPasskeyWraps user)
  | .deletePasskeyWrap credId user => answering .flag (deletePasskeyWrap credId user)
  | .putPushSubscription user endpoint json =>
    answering (fun _ => .done) (putPushSubscription user endpoint json)
  | .pushSubscriptionsFor user => answering .subscriptions (pushSubscriptionsFor user)
  | .deletePushSubscription user endpoint =>
    answering (fun _ => .done) (deletePushSubscription user endpoint)
  | .createInvite invite record => answering (fun _ => .done) (createInvite invite record)
  | .inviteGroup invite => answering .text (inviteGroup invite)
  | .updateInvite invite payload => answering (fun _ => .done) (updateInvite invite payload)
  | .revokeInvite invite => answering (fun _ => .done) (revokeInvite invite)
  | .redeemInvite invite user now =>
    answering (fun p => .redeemed p.1 p.2) (redeemInvite invite user now)
  | .claimInviteForRegistration invite user now =>
    answering .flag (claimInviteForRegistration invite user now)

def after (inner : MemoryInner) (c : Call) : MemoryInner := (call c inner).2

end MemoryStore

end Quorum.Store
