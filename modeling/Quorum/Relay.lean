import Mathlib

/-!
# The relay and its clients

The relay keeps one ordered log per group (`store.rs`).  A commit moves a group of members to its
next epoch, and the relay accepts it only for the epoch right after the stored one.  A client stages
a commit, sends it, and merges it once the relay has accepted it or discards it on a refusal
(`publishCommit`, `merge_staged_commit`, `discard_staged_commit`).  What others commit it merges as
it reads the log.

Clients act in any order.  The relay appends under a lock per group, so every execution is a
sequence of the steps below (`Sim` of the relay's own simulation).  Between the relay's decision
and the moment the client acts on it others may go on; the client itself reads nothing until then.
That is so here and not in the source, whose reader does not wait for `publishCommit`: runs are left
out in which a client reads on, past its own commit or up to another's, before it has the answer.

A client's cursor is what it has read.  The resume point that a client stores for a later connection
also moves past what it sends itself; reconnecting is not a step here.

Payloads are opaque to the relay.  The epochs and sequence numbers of the source are 64-bit; here
they are natural numbers, since neither ever exceeds the length of the log.
-/

namespace Quorum

namespace Relay

/-! ### The store -/

inductive StoreError
  | noSuchGroup
  | groupExists
  | epochConflict
deriving DecidableEq, Repr

structure StoredMessage (π : Type) where
  group : String
  seq : ℕ
  epoch : ℕ
  sender : String
  payload : π
deriving DecidableEq

/-- What the store keeps of a group, as far as its log goes. -/
structure GroupData (π : Type) where
  /-- The epoch that the log has reached. -/
  epoch : ℕ
  log : List (StoredMessage π)

/-- The groups of the store. -/
structure MemoryStore (π : Type) where
  groups : String → Option (GroupData π)

namespace MemoryStore

variable {π : Type}

def empty : MemoryStore π := { groups := fun _ => none }

def insert (store : MemoryStore π) (group : String) (data : GroupData π) : MemoryStore π where
  groups := Function.update store.groups group (some data)

end MemoryStore

section

variable {π : Type}

/-- A request to the store.  A refusal undoes nothing that was written before it. -/
abbrev Request (π α : Type) : Type := EStateM StoreError (MemoryStore π) α

/-- `inner.groups.get_mut(group).ok_or(NoSuchGroup)`. -/
def findGroup (group : String) : Request π (GroupData π) := do
  match (← get).groups group with
  | none => throw .noSuchGroup
  | some data => return data

/-- `create_group(group, creator)`. -/
def createGroup (group : String) : Request π Unit := do
  match (← get).groups group with
  | some _ => throw .groupExists
  | none => modify (·.insert group { epoch := 0, log := [] })

/-- The compare-and-swap of a commit. -/
def swapEpoch (group : String) (epoch : ℕ) : Request π Unit := do
  let data ← findGroup group
  if epoch ≠ data.epoch + 1 then
    throw .epochConflict
  else
    modify (·.insert group { data with epoch })

def pushMessage (group : String) (epoch : ℕ) (sender : String) (payload : π) : Request π ℕ := do
  let data ← findGroup group
  let seq := data.log.length + 1
  modify (·.insert group { data with log := data.log ++ [{ group, seq, epoch, sender, payload }] })
  return seq

/-- `append_message(group, epoch, sender, payload, commit)`. -/
def appendMessage (group : String) (epoch : ℕ) (sender : String) (payload : π) (commit : Bool) :
    Request π ℕ := do
  let _ ← findGroup group
  if commit then
    swapEpoch group epoch
  pushMessage group epoch sender payload

/-- `messages_after(group, after)` on the log of a group. -/
def messagesAfter (log : List (StoredMessage π)) (after : ℕ) : List (StoredMessage π) :=
  log.filter fun m => after < m.seq

end

/-! ### Clients -/

section

variable {ι β : Type}

/-- A commit: who made it, the epoch it was made in, and what it changes. -/
structure Commit (ι β : Type) where
  author : ι
  base : ℕ
  change : β
deriving DecidableEq

inductive Payload (ι β : Type)
  | commit (c : Commit ι β)
  | app (text : β)
deriving DecidableEq

def Payload.commit? : Payload ι β → Option (Commit ι β)
  | .commit c => some c
  | .app _ => none

/-- What a client keeps of a group. -/
structure Client (ι β : Type) where
  /-- The epoch it has merged. -/
  view : ℕ
  /-- The last entry of the log it has read. -/
  cursor : ℕ
  /-- A commit for the next epoch that is not merged. -/
  staged : Option (Commit ι β)
  /-- The relay's answer to the staged commit, while it is not acted on. -/
  answer : Option (Except StoreError ℕ)
  /-- The commits it has merged. -/
  applied : List (Commit ι β)

namespace Client

def new : Client ι β where
  view := 0
  cursor := 0
  staged := none
  answer := none
  applied := []

def merge (client : Client ι β) (c : Commit ι β) : Client ι β :=
  { client with
    view := client.view + 1
    applied := client.applied ++ [c]
    staged := none }

/-- Build a commit and hold it, unless one is held already. -/
def stage (client : Client ι β) (me : ι) (change : β) : Client ι β :=
  match client.staged with
  | some _ => client
  | none => { client with staged := some { author := me, base := client.view, change } }

/-- `merge_staged_commit`. -/
def mergeStagedCommit (client : Client ι β) : Client ι β :=
  match client.staged with
  | some c => client.merge c
  | none => client

/-- `discard_staged_commit`. -/
def discardStagedCommit (client : Client ι β) : Client ι β := { client with staged := none }

/-- What `publishCommit` and its caller do once the relay has answered. -/
def settle (client : Client ι β) : Client ι β :=
  match client.answer with
  | none => client
  | some (.ok _) => { client.mergeStagedCommit with answer := none }
  | some (.error _) => { client.discardStagedCommit with answer := none }

/-- Read an entry of the log.  A commit of somebody else is merged if it was made in the epoch the
client is in; one of the client's own, and any other, is passed over. -/
def receive [DecidableEq ι] (me : ι) (client : Client ι β) (m : StoredMessage (Payload ι β)) :
    Client ι β :=
  let client := { client with cursor := max client.cursor m.seq }
  match m.payload with
  | .app _ => client
  | .commit c => if c.base = client.view ∧ c.author ≠ me then client.merge c else client

/-- Read some of what is new in the log, unless the client waits for an answer.  In the source it may
read meanwhile; such runs are left out. -/
def catchUp [DecidableEq ι] (client : Client ι β) (me : ι)
    (log : List (StoredMessage (Payload ι β))) (count : ℕ) : Client ι β :=
  match client.answer with
  | some _ => client
  | none => ((messagesAfter log client.cursor).take count).foldl (receive me) client

end Client

/-! ### The system -/

/-- The relay's store and the clients of one group. -/
structure Sim (ι β : Type) where
  store : MemoryStore (Payload ι β)
  clients : ι → Client ι β

inductive Action (ι β : Type)
  | stage (i : ι) (change : β)
  | sendCommit (i : ι)
  | settle (i : ι)
  | sendApp (i : ι) (text : β)
  | catchUp (i : ι) (count : ℕ)
deriving DecidableEq

namespace Sim

variable [DecidableEq ι]

def setClient (s : Sim ι β) (i : ι) (client : Client ι β) : Sim ι β :=
  { s with clients := Function.update s.clients i client }

/-- The relay decides on the commit that a client has staged, for the epoch after the one it was
made in. -/
def sendCommit (group : String) (user : ι → String) (s : Sim ι β) (i : ι) : Sim ι β :=
  let client := s.clients i
  match client.staged, client.answer with
  | some c, none =>
    match appendMessage group (c.base + 1) (user i) (.commit c) true s.store with
    | .ok seq store => { s with store }.setClient i { client with answer := some (.ok seq) }
    | .error e store => { s with store }.setClient i { client with answer := some (.error e) }
  | _, _ => s

/-- A client sends an ordinary message, stamped with the epoch it is in. -/
def sendApp (group : String) (user : ι → String) (s : Sim ι β) (i : ι) (text : β) : Sim ι β :=
  match appendMessage group (s.clients i).view (user i) (.app text) false s.store with
  | .ok _ store => { s with store }
  | .error _ store => { s with store }

/-- A client reads the log. -/
def catchUp (group : String) (s : Sim ι β) (i : ι) (count : ℕ) : Sim ι β :=
  match s.store.groups group with
  | none => s
  | some data => s.setClient i ((s.clients i).catchUp i data.log count)

def step (group : String) (user : ι → String) (s : Sim ι β) : Action ι β → Sim ι β
  | .stage i change => s.setClient i ((s.clients i).stage i change)
  | .sendCommit i => s.sendCommit group user i
  | .settle i => s.setClient i (s.clients i).settle
  | .sendApp i text => s.sendApp group user i text
  | .catchUp i count => s.catchUp group i count

def run (group : String) (user : ι → String) (s : Sim ι β) (actions : List (Action ι β)) :
    Sim ι β :=
  actions.foldl (step group user) s

/-- A store that holds the group, and clients that have seen nothing of it. -/
def start (store : MemoryStore (Payload ι β)) : Sim ι β where
  store
  clients := fun _ => .new

end Sim

end

end Relay

end Quorum
