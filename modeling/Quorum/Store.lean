import Quorum.Js.Dict

/-!
# What the relay stores

Everything the relay keeps is behind one interface (`trait Store` in `store.rs`): accounts and
their key packages, groups with their members and logs, Welcomes for those who are away, the
history of channels, backups, vaults and devices, push subscriptions, and invites.  It has two
implementations.  One keeps maps in memory (`Quorum.Store.Memory`), the other tables in Postgres
(`Quorum.Store.Postgres`).

A `Call` is a call of one of its functions, and an `Answer` is what a call returns when it does not
fail.  Machine integers are unbounded numbers; where the second implementation casts one to a
column of 64 bits with a sign, its model does so too.
-/

namespace Quorum.Store

/-- `Vec<u8>`. -/
abbrev Bytes := List UInt8

/-- `StoreError`. -/
inductive StoreError
  | groupExists
  | noSuchGroup
  | inviteInvalid
  | epochConflict
  | credentialTaken
  | backupConflict
  | backend (text : String)
deriving DecidableEq, Repr

/-- What the error reads. -/
def StoreError.message : StoreError → String
  | .groupExists => "group already exists"
  | .noSuchGroup => "no such group"
  | .inviteInvalid => "invite not valid (missing, expired, or used up)"
  | .epochConflict => "epoch conflict: the group has already moved past this epoch"
  | .credentialTaken => "credential already enrolled by another account"
  | .backupConflict => "backup conflict: another device wrote a newer backup"
  | .backend text => s!"storage error: {text}"

/-- `ROLE_ADMIN`. -/
def ROLE_ADMIN : String := "admin"

/-- `ROLE_MEMBER`. -/
def ROLE_MEMBER : String := "member"

/-! ### Records -/

/-- `InviteRecord`: an encrypted blob, and the controls the relay enforces. -/
structure InviteRecord where
  group : String
  payload : Bytes
  /-- Unix seconds. -/
  expiresAt : Option ℕ
  maxUses : Option ℕ
  uses : ℕ
deriving DecidableEq, Repr

/-- `VaultRecord`: the identity of an account, encrypted by its client. -/
structure VaultRecord where
  kind : String
  salt : Bytes
  verifier : Bytes
  wrapped : Bytes
  credential : Option String
deriving DecidableEq, Repr

/-- `PasskeyWrap`: a device that can unlock an account. -/
structure PasskeyWrap where
  user : String
  credential : String
  salt : Bytes
  wrapped : Bytes
  label : String
  createdAt : ℤ
deriving DecidableEq, Repr

/-- `PasskeyDevice`: what is shown of a device. -/
structure PasskeyDevice where
  credId : String
  label : String
  createdAt : ℤ
deriving DecidableEq, Repr

/-- `RegisterOutcome`. -/
inductive RegisterOutcome
  | registered
  | existing (pubkey : Bytes)
deriving DecidableEq, Repr

/-- `StoredMessage`. -/
structure StoredMessage where
  group : String
  seq : ℕ
  epoch : ℕ
  sender : String
  payload : Bytes
deriving DecidableEq, Repr

/-- `StoredWelcome`; who sent it is its field `from`. -/
structure StoredWelcome where
  sender : String
  group : String
  after : ℕ
  payload : Bytes
deriving DecidableEq, Repr

/-- `HistoryEntry`. -/
structure HistoryEntry where
  seq : ℕ
  ts : ℕ
  expiresAt : Option ℕ
  payload : Bytes
  author : String
deriving DecidableEq, Repr

def HistoryEntry.expired (entry : HistoryEntry) (now : ℕ) : Bool := entry.expiresAt.any (· < now)

/-- `HistoryPage`: the oldest entries above a number, or the newest ones below it. -/
inductive HistoryPage
  | after (after limit : ℕ)
  | before (before limit : ℕ)
deriving DecidableEq, Repr

/-! ### The interface -/

inductive Call
  | registerUser (user : String) (pubkey : Bytes)
  | getUserPubkey (user : String)
  | userCount
  | publishKeyPackages (user : String) (payloads : List Bytes)
  | takeKeyPackage (user : String)
  | createGroup (group creator : String)
  | allowMember (group user : String)
  | disallowMember (group user : String)
  | deleteGroup (group : String)
  | isMember (group user : String)
  | memberRole (group user : String)
  | setMemberRole (group user role : String)
  | groupMembers (group : String)
  | listUsers
  | listGroups
  | appendMessage (group : String) (epoch : ℕ) (sender : String) (payload : Bytes) (commit : Bool)
  | messagesAfter (group : String) (after : ℕ)
  | storeWelcome (recipient : String) (welcome : StoredWelcome)
  | takeWelcomes (recipient : String)
  | appendHistory (group hid author : String) (ts : ℕ) (expiresAt : Option ℕ) (payload : Bytes)
  | sweepExpiredHistory (now : ℕ)
  | historyPage (group hid : String) (page : HistoryPage) (now : ℕ)
  | historyCount (group hid : String) (afterTs : ℕ) (exclude : String) (now : ℕ)
  | redactHistory (group hid : String) (seq : ℕ) (caller : String) (admin : Bool)
  | pruneHistory (group hid : String) (beforeTs : ℕ)
  | setBackup (user : String) (payload : Bytes) (expected : Option ℤ)
  | getBackup (user : String)
  | setVault (user : String) (vault : VaultRecord)
  | getVault (user : String)
  | listPasskeyVaults
  | addPasskeyWrap (credId : String) (wrap : PasskeyWrap)
  | getPasskeyWrap (credId : String)
  | listPasskeyWraps (user : String)
  | deletePasskeyWrap (credId user : String)
  | putPushSubscription (user endpoint subscriptionJson : String)
  | pushSubscriptionsFor (user : String)
  | deletePushSubscription (user endpoint : String)
  | createInvite (invite : String) (record : InviteRecord)
  | inviteGroup (invite : String)
  | updateInvite (invite : String) (payload : Bytes)
  | revokeInvite (invite : String)
  | redeemInvite (invite user : String) (now : ℕ)
  | claimInviteForRegistration (invite user : String) (now : ℕ)

inductive Answer
  | done
  | outcome (outcome : RegisterOutcome)
  | bytes (bytes : Option Bytes)
  | number (n : ℕ)
  | flag (b : Bool)
  | text (text : Option String)
  | members (members : List (String × String))
  | users (users : List String)
  | groups (groups : List (String × String))
  | messages (messages : List StoredMessage)
  | welcomes (welcomes : List StoredWelcome)
  | page (entries : List HistoryEntry) (complete : Bool)
  | version (version : ℤ)
  | backup (backup : Option (Bytes × ℤ))
  | vault (vault : Option VaultRecord)
  | vaults (vaults : List (String × VaultRecord))
  | wrap (wrap : Option PasskeyWrap)
  | devices (devices : List PasskeyDevice)
  | subscriptions (subscriptions : List (String × String))
  | redeemed (group : String) (payload : Bytes)
deriving DecidableEq, Repr

end Quorum.Store
