import Quorum.Bytes

/-!
# The client core

One `ChatClient` holds an identity and any number of groups (`client.rs` of the crypto core).  The
groups are those of OpenMLS, which the client calls; OpenMLS keeps what it needs of them in the
provider's storage.  A change of the membership is staged, and merged or discarded once the relay
has decided.

OpenMLS is a parameter.  Its calls get a group and the storage and return both, also when they fail.
The texts of its errors are its own.
-/

namespace Quorum.Mls

open Js (Dict)
open Store (Bytes)

/-! ### OpenMLS -/

abbrev Values := Dict Bytes Bytes

/-- A leaf of the ratchet tree: its index, the identity of its credential if that is a basic one,
and its signature key. -/
structure Member where
  index : ℕ
  identity : Option String
  signatureKey : Bytes
deriving DecidableEq, Repr

/-- `ProcessedMessageContent`. -/
inductive Content (Staged Proposal : Type)
  | applicationMessage (bytes : Bytes)
  | stagedCommitMessage (staged : Staged)
  | proposalMessage (proposal : Proposal)
  | externalJoinProposalMessage (proposal : Proposal)
  | ownPendingCommit
  | ownPrivateMessage

/-- `CredentialWithKey`: a handle and its signature key. -/
structure Credential where
  handle : String
  signatureKey : Bytes
deriving DecidableEq, Repr

/-- What the client uses of OpenMLS. -/
structure OpenMls where
  /-- `MlsGroup`. -/
  Group : Type
  Staged : Type
  Proposal : Type
  groupId : Group → Bytes
  epoch : Group → ℕ
  /-- `members()`, in the order of the tree. -/
  members : Group → List Member
  /-- `MlsGroup::load`. -/
  load : Values → Bytes → Except String (Option Group)
  newWithGroupId : Credential → Bytes → Values → Except String Group × Values
  /-- `StagedWelcome::new_from_welcome` and `into_group`. -/
  intoGroup : Bytes → Values → Except String Group × Values
  /-- `ExternalCommitBuilder` up to `finalize`, with the commit if it can be serialized. -/
  externalCommit : Credential → Bytes → Values →
    Except String (Group × Except String Bytes) × Values
  /-- The leaf of a KeyPackage that is valid. -/
  validate : Bytes → Except String Member
  addMembers : Bytes → Group → Values → Except String (Bytes × Bytes) × Group × Values
  removeMembers : ℕ → Group → Values → Except String Bytes × Group × Values
  mergePendingCommit : Group → Values → Except String Unit × Group × Values
  clearPendingCommit : Group → Values → Except String Unit × Group × Values
  /-- The group id of a message for a group. -/
  protocolGroup : Bytes → Except String Bytes
  /-- The identity of the sender, and what a message holds. -/
  processMessage : Bytes → Group → Values →
    Except String (Option String × Content Staged Proposal) × Group × Values
  mergeStagedCommit : Staged → Group → Values → Except String Unit × Group × Values
  storePendingProposal : Proposal → Group → Values → Except String Unit × Group × Values
  /-- What bytes that are not UTF-8 are read as. -/
  lossy : Bytes → String

/-- Bytes that are UTF-8. -/
def utf8 (bytes : Bytes) : Option String := String.fromUTF8? ⟨bytes.toArray⟩

/-- `String::from_utf8_lossy`. -/
def OpenMls.fromUtf8Lossy (mls : OpenMls) (bytes : Bytes) : String :=
  (utf8 bytes).getD (mls.lossy bytes)

theorem asBytes_of_utf8 {bytes : Bytes} {text : String} (h : utf8 bytes = some text) :
    asBytes text = bytes := by
  unfold utf8 String.fromUTF8? at h
  split at h
  · cases h
    simp [asBytes, String.fromUTF8]
  · cases h

/-! ### The client -/

/-- `CoreError`. -/
inductive CoreError
  | unknownGroup (id : String)
  | alreadyInGroup (id : String)
  | badState (text : String)
  | identityMismatch (expected got : String)
  | keyMismatch (handle : String)
  | mls (text : String)
deriving DecidableEq, Repr

/-- What the error reads. -/
def CoreError.message : CoreError → String
  | .unknownGroup id => "unknown group " ++ id
  | .alreadyInGroup id => "already in group " ++ id
  | .badState text => "bad state bundle: " ++ text
  | .identityMismatch expected got =>
    "key package identity mismatch: asked for " ++ expected ++ ", got " ++ got
  | .keyMismatch handle => "key package for " ++ handle ++ " carries an unexpected signature key"
  | .mls text => text

/-- What `process_incoming` yields. -/
inductive Event
  | message (group sender text : String) (epoch : ℕ)
  | membershipChange (group : String) (epoch : ℕ) (sender : String) (members : List String)
  | proposalStored (group : String) (epoch : ℕ)
deriving DecidableEq, Repr

/-- `SignatureKeyPair`. -/
structure Signer where
  secret : Bytes
  pubkey : Bytes
deriving DecidableEq, Repr

/-- `ChatClient`. -/
structure ChatClient (mls : OpenMls) where
  values : Values
  signer : Signer
  groups : Dict String mls.Group
  name : String

variable {mls : OpenMls}

/-- `credential_with_key`. -/
def ChatClient.credential (c : ChatClient mls) : Credential := ⟨c.name, c.signer.pubkey⟩

/-- A function of the client, which may fail and keeps what it has changed by then. -/
abbrev Op (mls : OpenMls) (α : Type) := ExceptT CoreError (StateM (ChatClient mls)) α

/-- Calls of OpenMLS on one group. -/
abbrev Call (mls : OpenMls) (α : Type) := ExceptT CoreError (StateM (mls.Group × Values)) α

/-- `.map_err(CoreError::mls)` of a call on a group. -/
def call {α : Type} (f : mls.Group → Values → Except String α × mls.Group × Values) : Call mls α :=
  fun s => ((f s.1 s.2).1.mapError .mls, (f s.1 s.2).2)

/-- `.map_err(CoreError::mls)` of something that changes nothing. -/
def lift {σ α : Type} (r : Except String α) : ExceptT CoreError (StateM σ) α :=
  fun s => (r.mapError .mls, s)

/-- The group that calls are made on. -/
def theGroup : Call mls mls.Group := fun s => (.ok s.1, s)

/-- `self.groups.get_mut(id).ok_or_else(UnknownGroup)`, and calls on the group. -/
def onGroup {α : Type} (id : String) (x : Call mls α) : Op mls α := fun c =>
  match c.groups.get? id with
  | none => (.error (.unknownGroup id), c)
  | some group =>
    let r := x (group, c.values)
    (r.1, { c with groups := c.groups.set id r.2.1, values := r.2.2 })

/-- `members_of`. -/
def membersOf (group : mls.Group) : List String := (mls.members group).filterMap (·.identity)

/-- The first leaf with a name. -/
def findMember (group : mls.Group) (name : String) : Option Member :=
  (mls.members group).find? fun m => m.identity = some name

def noMember (name : String) : CoreError := .mls ("no member named " ++ name)

/-- `create_group`. -/
def createGroup (id : String) : Op mls Unit := fun c =>
  if c.groups.has id then (.error (.alreadyInGroup id), c)
  else
    match mls.newWithGroupId c.credential (asBytes id) c.values with
    | (.error e, values) => (.error (.mls e), { c with values })
    | (.ok group, values) => (.ok (), { c with values, groups := c.groups.set id group })

/-- `add_member`. -/
def addMember (id : String) (keyPackage : Bytes) (expectedIdentity : String) (expectedKey : Bytes) :
    Op mls (Bytes × Bytes) := do
  let leaf ← lift (mls.validate keyPackage)
  if leaf.identity ≠ some expectedIdentity then
    throw (.identityMismatch expectedIdentity (leaf.identity.getD "<non-basic credential>"))
  if leaf.signatureKey ≠ expectedKey then
    throw (.keyMismatch expectedIdentity)
  onGroup id (call (mls.addMembers keyPackage))

/-- The removal of the first leaf with a name. -/
def removeFirst (name : String) : Call mls Bytes := fun s =>
  match findMember s.1 name with
  | none => (.error (noMember name), s)
  | some target => call (mls.removeMembers target.index) s

/-- `remove_member`. -/
def removeMember (id name : String) : Op mls Bytes := onGroup id (removeFirst name)

/-- `merge_staged_commit`. -/
def mergeStagedCommit (id : String) : Op mls ℕ :=
  onGroup id do
    call mls.mergePendingCommit
    return mls.epoch (← theGroup)

/-- `discard_staged_commit`. -/
def discardStagedCommit (id : String) : Op mls Unit := onGroup id (call mls.clearPendingCommit)

/-- `join_from_welcome`.  OpenMLS has written the group by the time its id is looked up. -/
def joinFromWelcome (welcome : Bytes) : Op mls String := fun c =>
  match mls.intoGroup welcome c.values with
  | (.error e, values) => (.error (.mls e), { c with values })
  | (.ok group, values) =>
    let id := mls.fromUtf8Lossy (mls.groupId group)
    if c.groups.has id then (.error (.alreadyInGroup id), { c with values })
    else (.ok id, { c with values, groups := c.groups.set id group })

/-- `join_by_external_commit`. -/
def joinByExternalCommit (groupInfo : Bytes) : Op mls (String × Bytes) := fun c =>
  match mls.externalCommit c.credential groupInfo c.values with
  | (.error e, values) => (.error (.mls e), { c with values })
  | (.ok (group, commit), values) =>
    let id := mls.fromUtf8Lossy (mls.groupId group)
    if c.groups.has id then (.error (.alreadyInGroup id), { c with values })
    else
      match commit with
      | .error e => (.error (.mls e), { c with values })
      | .ok bytes => (.ok (id, bytes), { c with values, groups := c.groups.set id group })

/-- `forget_group`. -/
def forgetGroup (id : String) : Op mls Unit := fun c =>
  (.ok (), { c with groups := c.groups.delete id })

/-- The rest of `process_incoming` once a message is opened. -/
def processContent (id sender : String) : Content mls.Staged mls.Proposal → Call mls Event
  | .applicationMessage bytes => do
    return .message id sender (mls.fromUtf8Lossy bytes) (mls.epoch (← theGroup))
  | .stagedCommitMessage staged => do
    call (mls.mergeStagedCommit staged)
    let group ← theGroup
    return .membershipChange id (mls.epoch group) sender (membersOf group)
  | .proposalMessage proposal => do
    call (mls.storePendingProposal proposal)
    return .proposalStored id (mls.epoch (← theGroup))
  | .externalJoinProposalMessage proposal => do
    call (mls.storePendingProposal proposal)
    return .proposalStored id (mls.epoch (← theGroup))
  | .ownPendingCommit => throw (.mls "own pending commit echoed back")
  | .ownPrivateMessage => throw (.mls "cannot decrypt own message")

/-- `process_incoming`. -/
def processIncoming (bytes : Bytes) : Op mls Event := do
  let gid ← lift (mls.protocolGroup bytes)
  let id := mls.fromUtf8Lossy gid
  onGroup id do
    let (sender, content) ← call (mls.processMessage bytes)
    processContent id (sender.getD "") content

/-- `epoch`. -/
def epoch (c : ChatClient mls) (id : String) : Option ℕ := (c.groups.get? id).map mls.epoch

/-- `member_keys`. -/
def memberKeys (c : ChatClient mls) (id : String) : Except CoreError (List (String × Bytes)) :=
  match c.groups.get? id with
  | none => .error (.unknownGroup id)
  | some group =>
    .ok ((mls.members group).filterMap fun m => m.identity.map fun name => (name, m.signatureKey))

end Quorum.Mls
