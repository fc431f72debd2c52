import Quorum.Order.Along

/-!
# What a device keeps across a reload

A device keeps the snapshot of the MLS client on disk that the worker returns with every command
that turns a ratchet (`persistState`).  It is written by handlers that run side by side: a handler
runs until it awaits something, and then any other one may go on.

The worker answers its commands in the order they were posted.  A handler that waits for the worker
stands in `queue`, and one that waits for the relay or for the disk in `waiting`.  A write reaches
the disk in the order it was issued, so it counts from the moment it is issued.

What is followed of the MLS client is the order of its snapshots.  Whether it can open a message or
merge a commit, and whether the relay takes in what is sent, may turn out either way; the record
that `persistDevice` writes is not followed, only the wait for it.  One snapshot covers all circles,
so the handlers of another circle are here too, as far as they write snapshots.
-/

namespace Quorum.Storage

/-! ### Handlers -/

/-- A snapshot: how many the worker had taken with it. -/
structure Snapshot where
  version : ℕ
deriving DecidableEq

/-- A change of the membership by this device. -/
inductive Op
  | add
  | remove
deriving DecidableEq

/-- What follows a `sendContent`. -/
inductive After
  /-- A user action of its own. -/
  | nothing
  /-- The end of `addMember` or `removeMember`. -/
  | change
  /-- The rest of the `onGroupMessage` that rebroadcasts the circle, with the snapshot it holds. -/
  | handler (ratchet : Snapshot)
deriving DecidableEq

/-- A handler that waits for the worker, by the command it has posted. -/
inductive Command
  | receive
  /-- `onEphemeral`, `sendEphemeral` and `onWelcome`, which write the snapshot they are given. -/
  | prompt
  /-- `onGroupMessage` of another circle. -/
  | elsewhere
  | send (after : After)
  /-- `addMember` and `removeMember` stage a commit. -/
  | stage (op : Op)
  | discardStagedCommit
  | mergeStagedCommit (op : Op)
  /-- `forgetGroup`, in the `onGroupMessage` of the commit that removes this device. -/
  | forgetGroup (ratchet : Snapshot)
deriving DecidableEq

/-- A handler that waits for the relay or for the disk. -/
inductive Wait
  /-- `onGroupMessage` applies what it has opened. -/
  | apply (ratchet : Snapshot)
  /-- `onGroupMessage` after its rebroadcast. -/
  | rest (ratchet : Snapshot)
  /-- `onGroupMessage` between its two writes. -/
  | noted (ratchet : Option Snapshot)
  /-- `onGroupMessage` of another circle, up to where it writes its snapshot. -/
  | elsewhere (ratchet : Snapshot)
  /-- `sendContent` waits for the sequence number of its message. -/
  | publish (after : After)
  /-- `publishCommit` waits for the sequence number of its commit. -/
  | publishCommit (op : Op)
  /-- The requests that follow a commit of this device. -/
  | followUp (op : Op)
  /-- `addMember` and `removeMember` before they write the cursor. -/
  | finish
deriving DecidableEq

inductive Outcome
  | ok
  | failed
  /-- A member joined over a link and this device has invites: it rebroadcasts the circle. -/
  | rebroadcast
  /-- The commit removes this device. -/
  | removed
  /-- No key was rotated and no invite revoked. -/
  | unchanged
deriving DecidableEq

/-! ### The device -/

structure Device where
  /-- How many snapshots the worker has taken. -/
  taken : ℕ
  queue : List Command
  waiting : List Wait
  /-- The snapshots that were written, the oldest first. -/
  writes : List Snapshot

namespace Device

/-- A device that has just joined and has written nothing since. -/
def join : Device where
  taken := 0
  queue := []
  waiting := []
  writes := []

def stored (d : Device) : Snapshot := d.writes.getLastD { version := 0 }

/-- `persistState(state)`. -/
def persistState (d : Device) (state : Snapshot) : Device := { d with writes := d.writes ++ [state] }

def snapshot (d : Device) : Device := { d with taken := d.taken + 1 }

def latest (d : Device) : Snapshot := { version := d.taken }

/-- A handler takes the snapshot of its command and writes it at once. -/
def turn (d : Device) : Device := d.snapshot.persistState d.snapshot.latest

/-- A handler posts a command and waits for it. -/
def post (d : Device) (c : Command) : Device := { d with queue := d.queue ++ [c] }

def await (d : Device) (w : Wait) : Device := { d with waiting := d.waiting ++ [w] }

/-- What a handler does when its `sendContent` has thrown. -/
def afterThrow (d : Device) : After → Device
  | .handler ratchet => d.await (.rest ratchet)
  | _ => d

/-- What a handler does after its `sendContent`. -/
def afterSend (d : Device) : After → Device
  | .nothing => d
  | .change => d.await .finish
  | .handler ratchet => d.await (.rest ratchet)

/-- The worker has carried out the command of a handler, or thrown, and the handler goes on. -/
def answered (d : Device) (c : Command) (ok : Bool) : Device :=
  match c with
  | .receive => if ok then d.snapshot.await (.apply d.snapshot.latest) else d.await (.noted none)
  | .prompt => if ok then d.turn else d
  | .elsewhere => if ok then d.snapshot.await (.elsewhere d.snapshot.latest) else d
  | .send after => if ok then d.turn.await (.publish after) else d.afterThrow after
  | .stage op => if ok then d.turn.await (.publishCommit op) else d
  | .discardStagedCommit => if ok then d.turn else d
  -- the caller takes the members out of the answer and leaves the snapshot
  | .mergeStagedCommit op => if ok then d.snapshot.await (.followUp op) else d
  | .forgetGroup ratchet => (if ok then d.turn else d).await (.noted (some ratchet))

/-- A handler that waited for something else goes on. -/
def resumed (d : Device) (w : Wait) (o : Outcome) : Device :=
  match w with
  | .apply ratchet =>
    match o with
    | .rebroadcast => d.post (.send (.handler ratchet))
    | .removed => d.post (.forgetGroup ratchet)
    | _ => d.await (.noted (some ratchet))
  | .rest ratchet => d.await (.noted (some ratchet))
  | .noted (some ratchet) => d.persistState ratchet
  | .noted none => d
  | .elsewhere ratchet => d.persistState ratchet
  | .publish after => if o = .ok then d.afterSend after else d.afterThrow after
  | .publishCommit op =>
    if o = .ok then d.post (.mergeStagedCommit op) else d.post .discardStagedCommit
  | .followUp .add => if o = .ok then d.post (.send .change) else d
  | .followUp .remove => if o = .unchanged then d else d.post (.send .change)
  | .finish => d

/-- The tab is closed, and the handlers are gone. -/
def crash (d : Device) : Device := { d with queue := [], waiting := [] }

end Device

inductive Action
  /-- The relay hands over an entry of the circle's log. -/
  | push
  /-- An ephemeral frame or a welcome arrives, or the device sends an ephemeral frame. -/
  | prompt
  /-- A message of another circle arrives. -/
  | elsewhere
  /-- The user sends something. -/
  | send
  /-- The user adds or removes a member. -/
  | change (op : Op)
  /-- The worker answers the oldest command. -/
  | answer (ok : Bool)
  /-- A wait ends. -/
  | resume (i : ℕ) (o : Outcome)
  | crash

namespace Device

def step (d : Device) : Action → Device
  | .push => d.post .receive
  | .prompt => d.post .prompt
  | .elsewhere => d.post .elsewhere
  | .send => d.post (.send .nothing)
  | .change op => d.post (.stage op)
  | .answer ok =>
    match d.queue with
    | [] => d
    | c :: queue => { d with queue }.answered c ok
  | .resume i o =>
    match d.waiting[i]? with
    | none => d
    | some w => { d with waiting := d.waiting.eraseIdx i }.resumed w o
  | .crash => d.crash

def run (d : Device) (l : List Action) : Device := l.foldl step d

end Device

end Quorum.Storage
