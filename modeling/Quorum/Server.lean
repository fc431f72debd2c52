import Quorum.Order.Along
import Quorum.Relay
import Quorum.Request

/-!
# The handlers of the relay

The relay answers the requests of many connections at once (`handle_request` in `server.rs`).  What
it keeps is in two places: the store holds groups, members, invites and stored Welcomes, the hub
holds who is online and who is subscribed.  A handler goes through a few sections, each a call to
the store or a hold of the hub's lock, and the handlers of other connections may go through theirs
in between.  A connection handles one request at a time.

A section is what happens at once.  `Task.next` says which section a handler comes to next and
where it goes on from there, and `Server.perform` what the section does.  The log of a group and
its epochs are those of `Quorum.Relay`.

Frames for a connection go into its queue, from which its writer takes them (`Outbound`).  Whether
the counter beside a queue reads `MAX_QUEUE` when a frame is offered is part of what happens next;
how the counter comes about is not followed here.  Neither are push notifications, and what the
store has besides groups, invites and Welcomes.
-/

namespace Quorum

namespace Server

open Relay (StoredMessage MemoryStore)

variable {π : Type}

/-! ### The store -/

inductive Role
  | admin
  | member
deriving DecidableEq, Repr

/-- `ROLE_ADMIN` and `ROLE_MEMBER`; no other text is a role. -/
def Role.ofString? (text : String) : Option Role :=
  if text = "admin" then some .admin else if text = "member" then some .member else none

inductive Refusal
  | store (e : Relay.StoreError)
  | inviteInvalid
  | notMember (group : String)
  | adminRequired (group : String)
  | noSuchMember (user group : String)
  | badRole
  | demotesLastAdmin
  | removesLastAdmin
  | badBase64
deriving DecidableEq, Repr

/-- A Welcome for somebody who is not there.  The tag tells Welcomes apart that say the same. -/
structure StoredWelcome (π : Type) where
  sender : String
  group : String
  after : ℕ
  payload : π
  tag : ℕ
deriving DecidableEq

/-- `InviteRecord`. -/
structure InviteRecord (π : Type) where
  group : String
  payload : π
  expiresAt : Option ℕ
  maxUses : Option ℕ
  uses : ℕ
deriving DecidableEq

/-- What the relay stores.  A group is there when it has a log. -/
structure Store (π : Type) where
  logs : MemoryStore π
  members : String → List (String × Role)
  welcomes : String → List (StoredWelcome π)
  invites : String → Option (InviteRecord π)
  /-- `invite_claims`: who has claimed which invite. -/
  claims : List (String × String)

namespace Store

def empty : Store π where
  logs := .empty
  members := fun _ => []
  welcomes := fun _ => []
  invites := fun _ => none
  claims := []

def has (store : Store π) (group : String) : Bool := (store.logs.groups group).isSome

/-- `is_member(group, user)`. -/
def isMember (store : Store π) (group user : String) : Bool :=
  store.has group && (store.members group).any (·.1 = user)

/-- `member_role(group, user)`. -/
def memberRole (store : Store π) (group user : String) : Option Role :=
  if store.has group then ((store.members group).find? (·.1 = user)).map (·.2) else none

/-- `group_members(group)`. -/
def groupMembers (store : Store π) (group : String) : Except Refusal (List (String × Role)) :=
  if store.has group then .ok (store.members group) else .error (.store .noSuchGroup)

/-- `create_group(group, creator)` for a name that is free. -/
def createGroup (store : Store π) (group creator : String) : Store π :=
  { store with
    logs := store.logs.insert group { epoch := 0, log := [] }
    members := Function.update store.members group [(creator, .admin)] }

/-- `allow_member(group, user)` for a group that is there. -/
def allowMember (store : Store π) (group user : String) : Store π :=
  if (store.members group).any (·.1 = user) then store
  else
    { store with
      members := Function.update store.members group (store.members group ++ [(user, .member)]) }

/-- `disallow_member(group, user)`. -/
def disallowMember (store : Store π) (group user : String) : Store π :=
  { store with
    members := Function.update store.members group ((store.members group).filter (·.1 ≠ user)) }

/-- Give the first of a list that is the user another role. -/
def withRole (user : String) (role : Role) : List (String × Role) → List (String × Role)
  | [] => []
  | m :: l => if m.1 = user then (m.1, role) :: l else m :: withRole user role l

/-- `set_member_role(group, user, role)` for somebody who is a member. -/
def setMemberRole (store : Store π) (group user : String) (role : Role) : Store π :=
  { store with
    members := Function.update store.members group (withRole user role (store.members group)) }

/-- `delete_group(group)`. -/
def deleteGroup (store : Store π) (group : String) : Store π where
  logs := { groups := Function.update store.logs.groups group none }
  members := Function.update store.members group []
  welcomes := fun user => (store.welcomes user).filter (·.group ≠ group)
  invites := fun invite => (store.invites invite).filter (·.group ≠ group)
  claims := store.claims

/-- `append_message(group, epoch, sender, payload, commit)`. -/
def appendMessage (store : Store π) (group : String) (epoch : ℕ) (sender : String) (payload : π)
    (commit : Bool) : Store π :=
  { store with
    logs := finalState (Relay.appendMessage group epoch sender payload commit) store.logs }

/-- `store_welcome(to, welcome)`. -/
def storeWelcome (store : Store π) (user : String) (w : StoredWelcome π) : Store π :=
  { store with welcomes := Function.update store.welcomes user (store.welcomes user ++ [w]) }

/-- `create_invite(invite, record)`: the first writer wins. -/
def createInvite (store : Store π) (invite : String) (record : InviteRecord π) : Store π :=
  { store with
    invites := Function.update store.invites invite
      (some ((store.invites invite).getD record)) }

def setInvite (store : Store π) (invite : String) (record : Option (InviteRecord π)) : Store π :=
  { store with invites := Function.update store.invites invite record }

/-- The record of an invite that may be redeemed at a time, with this use counted, or not for
somebody who has claimed it before. -/
def redeemable (store : Store π) (invite user : String) (now : ℕ) :
    Except Refusal (InviteRecord π) :=
  match store.invites invite with
  | none => .error .inviteInvalid
  | some record =>
    if record.expiresAt.any (· < now) then .error .inviteInvalid
    else if (invite, user) ∈ store.claims then .ok record
    else if record.maxUses.any (· ≤ record.uses) then .error .inviteInvalid
    else .ok { record with uses := record.uses + 1 }

/-- What `redeem_invite` writes. -/
def redeem (store : Store π) (invite user : String) (record : InviteRecord π) : Store π :=
  { store.setInvite invite (some record) with claims := (invite, user) :: store.claims }

end Store

/-! ### Connections and the hub -/

inductive Request (π : Type)
  | createGroup (group : String)
  | allow (group target : String)
  | setRole (group target role : String)
  | disallow (group target : String)
  | deleteGroup (group : String)
  | subscribe (group : String) (after : ℕ)
  /-- A payload is nothing if the text sent is not base64. -/
  | send (group : String) (epoch : ℕ) (payload : Option π) (commit : Bool)
  | ephemeral (group : String) (payload : Option π)
  | welcome (recipient group : String) (after : ℕ) (payload : Option π)
  | createInvite (invite group : String) (payload : Option π) (expiresAt maxUses : Option ℕ)
  | updateInvite (invite : String) (payload : Option π)
  | revokeInvite (invite : String)
  | redeemInvite (invite : String)
deriving DecidableEq

/-- Where the handler of a request stands. -/
inductive Task (π : Type)
  | start (request : Request π)
  /-- `CreateGroup` has made the group and subscribes to it. -/
  | registering (group : String)
  | allowing (group target : String)
  /-- `SetRole` reads the members, and writes. -/
  | demoting (group target : String)
  | settingRole (group target : String) (role : Role)
  /-- `Disallow` reads the members, writes, and takes the subscription away. -/
  | removing (group target : String)
  | disallowing (group target : String)
  | unsubscribing (group target : String)
  /-- `DeleteGroup` writes, and takes the subscriptions away. -/
  | deleting (group : String)
  | dropping (group : String)
  | subscribing (group : String) (after : ℕ)
  /-- `Send` waits for the group's lock, appends, and fans out. -/
  | locking (group : String) (epoch : ℕ) (payload : π) (commit : Bool)
  | appending (group : String) (epoch : ℕ) (payload : π) (commit : Bool)
  | fanning (group : String) (epoch seq : ℕ) (payload : π)
  | sent (group : String) (seq : ℕ)
  | signaling (group : String) (payload : π)
  /-- `Welcome` checks the recipient, and delivers. -/
  | checking (recipient group : String) (after : ℕ) (payload : Option π)
  | delivering (recipient group : String) (after : ℕ) (payload : π)
  | creatingInvite (invite : String) (record : InviteRecord π)
  /-- `UpdateInvite` and `RevokeInvite` know the group, and write. -/
  | authorizing (invite group : String) (payload : Option π)
  | updating (invite : String) (payload : π)
  | revoking (invite group : String)
  | withdrawing (invite : String)
  /-- `RedeemInvite` has claimed the invite. -/
  | joining (invite group : String) (payload : π)
deriving DecidableEq

inductive Reply (π : Type)
  | ok (seq : Option ℕ)
  | error (refusal : Refusal)
  | invite (group : String) (payload : π)
deriving DecidableEq

/-- What the relay sends to a connection. -/
inductive Frame (π : Type)
  | reply (rid : ℕ) (r : Reply π)
  | msg (m : StoredMessage π)
  | eph (group sender : String) (payload : π)
  | welcome (w : StoredWelcome π)
deriving DecidableEq

structure Conn (π : Type) where
  user : String
  /-- It is authenticated and was not torn down. -/
  isOpen : Bool
  /-- The request it handles. -/
  task : Option (ℕ × Task π)
  /-- Everything that was put into its queue. -/
  history : List (Frame π)
  queue : List (Frame π)
  /-- What the writer has taken out and not written yet. -/
  writing : Option (Frame π)
  written : List (Frame π)
  /-- The writer runs, and the queue has a reader. -/
  running : Bool

namespace Conn

/-- A connection that was never made. -/
def unused : Conn π where
  user := ""
  isOpen := false
  task := none
  history := []
  queue := []
  writing := none
  written := []
  running := false

/-- `Outbound::send` of some frames, which go nowhere when the reader is gone. -/
def put (conn : Conn π) (frames : List (Frame π)) : Conn π :=
  if conn.running then
    { conn with history := conn.history ++ frames, queue := conn.queue ++ frames }
  else conn

def stop (conn : Conn π) : Conn π := { conn with running := false }

end Conn

/-- `Hub`: the connection of each subscriber of a group, the one of each user who is online, and the
connection that holds the send lock of a group. -/
structure Hub where
  subscribers : String → String → Option ℕ
  online : String → Option ℕ
  locks : String → Option ℕ

structure App (π : Type) where
  store : Store π
  hub : Hub
  conns : ℕ → Conn π
  /-- How many connections there were. -/
  next : ℕ
  /-- How many Welcomes there were. -/
  tags : ℕ

/-- What one call to the store or one hold of the hub's lock does. -/
inductive Section (π : Type)
  | read
  | createGroup (group creator : String)
  | allowMember (group user : String)
  | setMemberRole (group user : String) (role : Role)
  | disallowMember (group user : String)
  | deleteGroup (group : String)
  | appendMessage (group : String) (epoch : ℕ) (sender : String) (payload : π) (commit : Bool)
  | createInvite (invite : String) (record : InviteRecord π)
  | setInvite (invite : String) (record : Option (InviteRecord π))
  | redeem (invite user : String) (record : InviteRecord π)
  /-- A connection is put down as the subscriber of its user, and gets some frames. -/
  | subscribe (group : String) (c : ℕ) (frames : List (Frame π))
  | unsubscribe (group user : String)
  | dropGroup (group : String)
  | lock (group : String) (c : ℕ)
  | unlock (group : String)
  | fanOut (group sender : String) (frame : Frame π)
  | deliver (recipient sender group : String) (after : ℕ) (payload : π)

/-- Where a handler goes from a section. -/
inductive Next (π : Type)
  | goOn (task : Task π)
  | reply (r : Reply π)
  /-- It has said what it has to say. -/
  | done
  /-- It waits for a lock. -/
  | wait

namespace App

def start : App π where
  store := .empty
  hub := { subscribers := fun _ _ => none, online := fun _ => none, locks := fun _ => none }
  conns := fun _ => .unused
  next := 0
  tags := 0

/-- `require_member(app, group, user)`. -/
def requireMember (s : App π) (group user : String) : Except Refusal Unit :=
  if s.store.isMember group user then .ok () else .error (.notMember group)

/-- `require_admin(app, group, user)`; `admins` are those of the whole relay. -/
def requireAdmin (admins : List String) (s : App π) (group user : String) : Except Refusal Unit :=
  if user ∈ admins then .ok ()
  else
    match s.store.memberRole group user with
    | some .admin => .ok ()
    | some .member => .error (.adminRequired group)
    | none => .error (.notMember group)

/-- The user is the only admin among the members. -/
def isLastAdmin (members : List (String × Role)) (user : String) : Bool :=
  members.any (fun m => m.1 = user ∧ m.2 = .admin) && members.countP (·.2 = .admin) ≤ 1

/-- The guard of `Disallow`. -/
def guardRemoval (s : App π) (group target : String) : Except Refusal Unit := do
  let members ← s.store.groupMembers group
  if isLastAdmin members target then throw .removesLastAdmin

/-- The guard of `SetRole` for a demotion. -/
def guardDemotion (s : App π) (group target : String) : Except Refusal Unit := do
  let members ← s.store.groupMembers group
  if isLastAdmin members target then throw .demotesLastAdmin

def refuse (e : Refusal) : Section π × Next π := (.read, .reply (.error e))

/-- A handler goes on if a check passes. -/
def check (result : Except Refusal Unit) (next : Task π) : Section π × Next π :=
  match result with
  | .ok () => (.read, .goOn next)
  | .error e => refuse e

/-- The same, with a payload to decode before it goes on. -/
def checkPayload (result : Except Refusal Unit) (payload : Option π) (next : π → Task π) :
    Section π × Next π :=
  match result, payload with
  | .ok (), some payload => (.read, .goOn (next payload))
  | .ok (), none => refuse .badBase64
  | .error e, _ => refuse e

/-- A call to the store for a group that has to be there. -/
def ifGroup (s : App π) (group : String) (step : Section π × Next π) :
    Section π × Next π :=
  if s.store.has group then step else refuse (.store .noSuchGroup)

end App

/-! ### What a handler does next -/

/-- The first section of a request. -/
def Request.begin (admins : List String) (s : App π) (user : String) (now : ℕ) :
    Request π → Section π × Next π
  | .createGroup group =>
    if s.store.has group then App.refuse (.store .groupExists)
    else (.createGroup group user, .goOn (.registering group))
  | .allow group target =>
    App.check (s.requireAdmin admins group user) (.allowing group target)
  | .setRole group target role =>
    match Role.ofString? role with
    | none => App.refuse .badRole
    | some .admin =>
      App.check (s.requireAdmin admins group user) (.settingRole group target .admin)
    | some .member => App.check (s.requireAdmin admins group user) (.demoting group target)
  | .disallow group target =>
    -- anyone may leave, and then the members are read at once
    if target = user then App.check (s.guardRemoval group target) (.disallowing group target)
    else App.check (s.requireAdmin admins group user) (.removing group target)
  | .deleteGroup group => App.check (s.requireAdmin admins group user) (.deleting group)
  | .subscribe group after => App.check (s.requireMember group user) (.subscribing group after)
  | .send group epoch payload commit =>
    App.checkPayload (s.requireMember group user) payload fun payload =>
      .locking group epoch payload commit
  | .ephemeral group payload =>
    App.checkPayload (s.requireMember group user) payload (.signaling group)
  | .welcome recipient group after payload =>
    App.check (s.requireMember group user) (.checking recipient group after payload)
  | .createInvite invite group payload expiresAt maxUses =>
    App.checkPayload (s.requireAdmin admins group user) payload fun payload =>
      .creatingInvite invite { group, payload, expiresAt, maxUses, uses := 0 }
  | .updateInvite invite payload =>
    match s.store.invites invite with
    | none => App.refuse .inviteInvalid
    | some record => (.read, .goOn (.authorizing invite record.group payload))
  | .revokeInvite invite =>
    match s.store.invites invite with
    | none => (.read, .reply (.ok none))
    | some record => (.read, .goOn (.revoking invite record.group))
  | .redeemInvite invite =>
    match s.store.redeemable invite user now with
    | .error e => App.refuse e
    | .ok record =>
      (.redeem invite user record, .goOn (.joining invite record.group record.payload))

/-- The next section of a handler of connection `c`. -/
def Task.next (admins : List String) (s : App π) (c rid now : ℕ) : Task π → Section π × Next π
  | .start request => request.begin admins s (s.conns c).user now
  | .registering group => (.subscribe group c [], .reply (.ok none))
  | .allowing group target =>
    s.ifGroup group (.allowMember group target, .reply (.ok none))
  | .demoting group target =>
    App.check (s.guardDemotion group target) (.settingRole group target .member)
  | .settingRole group target role =>
    s.ifGroup group <|
      if (s.store.members group).any (·.1 = target) then
        (.setMemberRole group target role, .reply (.ok none))
      else App.refuse (.noSuchMember target group)
  | .removing group target =>
    App.check (s.guardRemoval group target) (.disallowing group target)
  | .disallowing group target =>
    (.disallowMember group target, .goOn (.unsubscribing group target))
  | .unsubscribing group target => (.unsubscribe group target, .reply (.ok none))
  | .deleting group => (.deleteGroup group, .goOn (.dropping group))
  | .dropping group => (.dropGroup group, .reply (.ok none))
  | .subscribing group after =>
    match s.store.logs.groups group with
    | none => App.refuse (.store .noSuchGroup)
    | some data =>
      let backlog := Relay.messagesAfter data.log after
      let ok := Reply.ok (backlog.getLast?.map (·.seq))
      (.subscribe group c (.reply rid ok :: backlog.map .msg), .done)
  | .locking group epoch payload commit =>
    match s.hub.locks group with
    | some _ => (.read, .wait)
    | none => (.lock group c, .goOn (.appending group epoch payload commit))
  | .appending group epoch payload commit =>
    let user := (s.conns c).user
    match Relay.appendMessage group epoch user payload commit s.store.logs with
    | .ok seq _ =>
      (.appendMessage group epoch user payload commit, .goOn (.fanning group epoch seq payload))
    | .error e _ => (.unlock group, .reply (.error (.store e)))
  | .fanning group epoch seq payload =>
    let sender := (s.conns c).user
    (.fanOut group sender (.msg { group, seq, epoch, sender, payload }), .goOn (.sent group seq))
  | .sent group seq => (.unlock group, .reply (.ok (some seq)))
  | .signaling group payload =>
    let sender := (s.conns c).user
    (.fanOut group sender (.eph group sender payload), .reply (.ok none))
  | .checking recipient group after payload =>
    App.checkPayload (s.requireMember group recipient) payload
      (.delivering recipient group after)
  | .delivering recipient group after payload =>
    (.deliver recipient (s.conns c).user group after payload, .reply (.ok none))
  | .creatingInvite invite record =>
    s.ifGroup record.group (.createInvite invite record, .reply (.ok none))
  | .authorizing invite group payload =>
    App.checkPayload (s.requireAdmin admins group (s.conns c).user) payload (.updating invite)
  | .updating invite payload =>
    match s.store.invites invite with
    | none => App.refuse .inviteInvalid
    | some record => (.setInvite invite (some { record with payload }), .reply (.ok none))
  | .revoking invite group =>
    App.check (s.requireAdmin admins group (s.conns c).user) (.withdrawing invite)
  | .withdrawing invite => (.setInvite invite none, .reply (.ok none))
  | .joining _ group payload =>
    s.ifGroup group
      (.allowMember group (s.conns c).user, .reply (.invite group payload))

/-! ### What happens next -/

namespace App

def setConn (s : App π) (c : ℕ) (conn : Conn π) : App π :=
  { s with conns := Function.update s.conns c conn }

def setStore (s : App π) (store : Store π) : App π := { s with store }

def setSubscribers (s : App π) (subscribers : String → String → Option ℕ) : App π :=
  { s with hub := { s.hub with subscribers } }

/-- `Outbound::offer` queues a frame: the counter of the connection is not found at `MAX_QUEUE`, and
its reader is there. -/
def accepts (s : App π) (full : ℕ → Bool) (c : ℕ) : Bool := !full c && (s.conns c).running

/-- A connection is the one of a subscriber that a frame is fanned out to. -/
def listens (s : App π) (group sender : String) (c : ℕ) : Bool :=
  s.hub.subscribers group (s.conns c).user = some c && (s.conns c).user ≠ sender

/-- `subs.retain(..)`: all subscribers but the sender are offered a frame, and those that refuse are
dropped. -/
def fanOut (s : App π) (full : ℕ → Bool) (group sender : String) (frame : Frame π) : App π :=
  { s with
    conns := fun c =>
      if s.listens group sender c && s.accepts full c then (s.conns c).put [frame] else s.conns c
    hub := { s.hub with
      subscribers := Function.update s.hub.subscribers group fun peer =>
        if peer = sender then s.hub.subscribers group peer
        else (s.hub.subscribers group peer).filter (s.accepts full) } }

/-- A Welcome goes to the connection of a recipient who is online, and to the store otherwise. -/
def deliver (s : App π) (full : ℕ → Bool) (recipient : String) (w : StoredWelcome π) : App π :=
  match (s.hub.online recipient).filter (s.accepts full) with
  | some c => s.setConn c ((s.conns c).put [.welcome w])
  | none => s.setStore (s.store.storeWelcome recipient w)

def perform (s : App π) (full : ℕ → Bool) : Section π → App π
  | .read => s
  | .createGroup group creator => s.setStore (s.store.createGroup group creator)
  | .allowMember group user => s.setStore (s.store.allowMember group user)
  | .setMemberRole group user role => s.setStore (s.store.setMemberRole group user role)
  | .disallowMember group user => s.setStore (s.store.disallowMember group user)
  | .deleteGroup group => s.setStore (s.store.deleteGroup group)
  | .appendMessage group epoch sender payload commit =>
    s.setStore (s.store.appendMessage group epoch sender payload commit)
  | .createInvite invite record => s.setStore (s.store.createInvite invite record)
  | .setInvite invite record => s.setStore (s.store.setInvite invite record)
  | .redeem invite user record => s.setStore (s.store.redeem invite user record)
  | .subscribe group c frames =>
    (s.setSubscribers (Function.update s.hub.subscribers group
      (Function.update (s.hub.subscribers group) (s.conns c).user (some c)))).setConn c
        ((s.conns c).put frames)
  | .unsubscribe group user =>
    s.setSubscribers (Function.update s.hub.subscribers group
      (Function.update (s.hub.subscribers group) user none))
  | .dropGroup group => s.setSubscribers (Function.update s.hub.subscribers group fun _ => none)
  | .lock group c =>
    { s with hub := { s.hub with locks := Function.update s.hub.locks group (some c) } }
  | .unlock group =>
    { s with hub := { s.hub with locks := Function.update s.hub.locks group none } }
  | .fanOut group sender frame => s.fanOut full group sender frame
  | .deliver recipient sender group after payload =>
    { s.deliver full recipient { sender, group, after, payload, tag := s.tags } with
      tags := s.tags + 1 }

/-- A handler leaves a section. -/
def settle (s : App π) (c rid : ℕ) : Next π → App π
  | .goOn task => s.setConn c { s.conns c with task := some (rid, task) }
  | .reply r => s.setConn c ({ s.conns c with task := none }.put [.reply rid r])
  | .done => s.setConn c { s.conns c with task := none }
  | .wait => s

end App

inductive Action (π : Type)
  /-- `claim_invite_for_registration` for a handle that registers. -/
  | claim (invite user : String) (now : ℕ)
  /-- A connection is authenticated: it is online, and gets the Welcomes that were stored. -/
  | connect (user : String)
  | request (c rid : ℕ) (request : Request π)
  /-- The handler of a connection goes through its next section; `full` says which connections have a
  counter that reads `MAX_QUEUE`. -/
  | advance (c : ℕ) (full : ℕ → Bool) (now : ℕ)
  /-- The writer takes a frame, and writes it or fails to. -/
  | recv (c : ℕ)
  | write (c : ℕ) (ok : Bool)
  /-- A ping fails, and the writer ends. -/
  | stop (c : ℕ)
  /-- The connection is torn down. -/
  | close (c : ℕ)

namespace App

/-- `handle_socket`, up to where it reads requests. -/
def connect (s : App π) (user : String) : App π where
  store := { s.store with welcomes := Function.update s.store.welcomes user [] }
  hub := { s.hub with online := Function.update s.hub.online user (some s.next) }
  conns :=
    let frames := (s.store.welcomes user).map .welcome
    Function.update s.conns s.next
      { Conn.unused with user, isOpen := true, history := frames, queue := frames, running := true }
  next := s.next + 1
  tags := s.tags

/-- The handler of a connection goes through its next section. -/
def advance (admins : List String) (s : App π) (c : ℕ) (full : ℕ → Bool) (now : ℕ) : App π :=
  match (s.conns c).task with
  | none => s
  | some (rid, task) =>
    let (sec, next) := task.next admins s c rid now
    (s.perform full sec).settle c rid next

def recv (s : App π) (c : ℕ) : App π :=
  let conn := s.conns c
  match conn.queue, conn.writing with
  | frame :: queue, none =>
    if conn.running then s.setConn c { conn with queue, writing := some frame } else s
  | _, _ => s

/-- The writer writes to the socket; when that fails it ends. -/
def write (s : App π) (c : ℕ) (ok : Bool) : App π :=
  let conn := s.conns c
  match conn.writing with
  | none => s
  | some frame =>
    if ok then s.setConn c { conn with writing := none, written := conn.written ++ [frame] }
    else s.setConn c ({ conn with writing := none }.stop)

/-- `handle_socket`, after it has read its last request. -/
def close (s : App π) (c : ℕ) : App π :=
  let conn := s.conns c
  if conn.isOpen ∧ conn.task.isNone then
    { s with
      hub := { s.hub with
        subscribers := fun group user =>
          (s.hub.subscribers group user).filter fun c' => ¬(user = conn.user ∧ c' = c)
        online := fun user => (s.hub.online user).filter fun c' => ¬(user = conn.user ∧ c' = c) }
      conns := Function.update s.conns c { conn.stop with isOpen := false, writing := none } }
  else s

def step (admins : List String) (s : App π) : Action π → App π
  | .claim invite user now =>
    match s.store.redeemable invite user now with
    | .ok record => s.setStore (s.store.redeem invite user record)
    | .error _ => s
  | .connect user => s.connect user
  | .request c rid request =>
    if (s.conns c).isOpen ∧ (s.conns c).task.isNone then
      s.setConn c { s.conns c with task := some (rid, .start request) }
    else s
  | .advance c full now => s.advance admins c full now
  | .recv c => s.recv c
  | .write c ok => s.write c ok
  | .stop c =>
    if (s.conns c).writing.isNone then s.setConn c (s.conns c).stop else s
  | .close c => s.close c

def run (admins : List String) (s : App π) (l : List (Action π)) : App π := l.foldl (step admins) s

end App

end Server

end Quorum
