import Quorum.Bytes
import Quorum.Store.Steps

/-!
# The handshake of a connection

A connection says hello as a user, is challenged with a random nonce, and answers with a signature
(`authenticate` in `server.rs`).  The relay checks the signature with the key it has stored for the
user, or with the key the hello came with if it has none; in that case it decides whether the user
may register (`registration_allowed`) and stores the key.  After that the connection is a session
of the user.

Handshakes of many connections are under way at once.  Each goes on from one `await` to the next,
and what happens elsewhere happens in between: `Conn.advance` is what a connection does with what it
waited for, and `Relay.step` lets one connection go on, or another part of the relay call the store.

Signatures are those of a parameter, `Ed25519`.  Texts are given as they are parsed and decoded.
-/

namespace Quorum.Handshake

open Store (Bytes Call MemoryInner StoreError RegisterOutcome)
open Store.MemoryStore (Op)

/-! ### The signed bytes -/

abbrev Nonce := Vector UInt8 32

/-- `AUTH_CONTEXT`. -/
def AUTH_CONTEXT : Bytes := asBytes "relay-auth-v2"

/-- What the client signs (`connect` in `relay.js`), given a nonce of any length. -/
def answered (nonce : Bytes) (name : String) : Bytes :=
  AUTH_CONTEXT ++ nonce ++ beBytes 4 (asBytes name).length ++ asBytes name

/-- What the relay checks the signature of. -/
def signed (nonce : Nonce) (user : String) : Bytes := answered nonce.toList user

/-- Nonces of one length and names are told apart. -/
theorem answered_inj {nonce nonce' : Bytes} {name name' : String}
    (hlen : nonce.length = nonce'.length) (h : answered nonce name = answered nonce' name') :
    nonce = nonce' ∧ name = name' := by
  simp only [answered, List.append_assoc] at h
  obtain ⟨hnonce, hrest⟩ := List.append_inj (List.append_cancel_left h) hlen
  -- The length before the name takes four bytes, whatever it is.
  obtain ⟨-, hname⟩ := List.append_inj hrest (by simp)
  exact ⟨hnonce, asBytes_injective hname⟩

/-- **The signed bytes are injective** in nonce and handle. -/
theorem signed_inj {nonce nonce' : Nonce} {user user' : String}
    (h : signed nonce user = signed nonce' user') : nonce = nonce' ∧ user = user' := by
  obtain ⟨hnonce, huser⟩ := answered_inj (by simp) h
  exact ⟨Vector.toList_inj.mp hnonce, huser⟩

/-- The relay draws nonces of 32 bytes.  A longer one, which the client signs as well, could hold
the beginning of another name. -/
example : answered (List.replicate 32 0 ++ beBytes 4 8 ++ asBytes "x") "bob" =
    answered (List.replicate 32 0) "x\x00\x00\x00\x03bob" := by
  decide +kernel

/-! ### Signatures -/

/-- `ed25519_dalek`: which keys are points, and what `verify_strict` accepts. -/
structure Ed25519 where
  validKey : Bytes → Bool
  verifyStrict : Bytes → Bytes → Bytes → Bool

/-- `verify_sig`. -/
def verifySig (ed : Ed25519) (pubkey message sig : Bytes) : Bool :=
  pubkey.length == 32 && ed.validKey pubkey && sig.length == 64 &&
    ed.verifyStrict pubkey message sig

/-- Signatures are not forged: what is accepted under a key was made by its holder, for the one
message it is accepted for. -/
structure Unforgeable (ed : Ed25519) (made : Bytes → Bytes → Bytes → Prop) : Prop where
  genuine : ∀ {key message sig}, ed.verifyStrict key message sig = true → made key message sig
  single : ∀ {key message message' sig},
    made key message sig → made key message' sig → message = message'

/-! ### One connection -/

/-- What the relay is started with. -/
structure App where
  ed : Ed25519
  openRegistration : Bool
  admins : List String

/-- `ClientMsg::Hello`, with its key decoded if it is base64. -/
structure Hello where
  user : String
  pubkey : Option Bytes
  invite : Option String
deriving DecidableEq, Repr

/-- A text of the client, as far as the handshake tells texts apart. -/
inductive Text
  | hello (msg : Hello)
  /-- `ClientMsg::Auth`, with its signature decoded if it is base64. -/
  | auth (sig : Option Bytes)
  | other
deriving DecidableEq, Repr

/-- What a connection said hello with, and the nonce it was challenged with. -/
structure Attempt where
  user : String
  claimedKey : Bytes
  invite : Option String
  nonce : Nonce
deriving DecidableEq, Repr

/-- Where a handshake stands after the hello: what it waits for, or how it ended. -/
inductive Stage
  /-- The answer to the challenge. -/
  | challenge
  /-- `get_user_pubkey`. -/
  | lookup (sig : Bytes)
  /-- `user_count`. -/
  | count (sig : Bytes)
  /-- `claim_invite_for_registration`. -/
  | claim (sig : Bytes) (id : String)
  /-- `register_user`; the user was let through with a claim, or without. -/
  | register (sig : Bytes) (claim : Option String)
  /-- The `ready` being sent. -/
  | ready (sig : Bytes)
  | session (sig : Bytes) (globalAdmin : Bool)
  /-- The client may have been told why. -/
  | closed (message : Option String)
deriving DecidableEq, Repr

inductive Conn
  | hello
  | refused (message : Option String)
  | challenged (a : Attempt) (stage : Stage)
deriving DecidableEq, Repr

def Conn.nonce : Conn → Option Nonce
  | .challenged a _ => some a.nonce
  | _ => none

inductive Event
  /-- The first text, or the end of the socket; the nonce drawn if it is a hello; whether the
  challenge could be sent. -/
  | hello (text : Option Text) (nonce : Nonce) (sent : Bool)
  /-- The second text, or the end of the socket. -/
  | auth (text : Option Text)
  /-- A call of the store.  It may fail, before or after it did its work. -/
  | called (fault : Option (StoreError × Bool)) (now : ℕ)
  /-- Whether the `ready` could be sent. -/
  | sent (ok : Bool)
deriving DecidableEq, Repr

/-- A call of the store that may fail. -/
def called {α : Type} (fault : Option (StoreError × Bool)) (op : Op α) : Op α := fun inner =>
  match fault with
  | none => op inner
  | some (e, done) => (.error e, if done then (op inner).2 else inner)

def Conn.greet (nonce : Nonce) (sent : Bool) : Option Text → Conn
  | none => .refused none
  | some (.hello msg) =>
    match msg.pubkey with
    | none => .refused (some "invalid base64")
    | some claimedKey =>
      .challenged { user := msg.user, claimedKey, invite := msg.invite, nonce }
        (if sent then .challenge else .closed none)
  | some _ => .refused (some "expected hello")

def Stage.answer : Option Text → Stage
  | none => .closed none
  | some (.auth (some sig)) => .lookup sig
  | some (.auth none) => .closed none
  | some _ => .closed (some "expected auth")

/-- The text of a refusal at the invite gate. -/
def INVITE_ONLY : String := "registration is invite-only: open an invite link to join"

namespace Attempt

variable (app : App) (a : Attempt) (sig : Bytes)

/-- The signature is checked with the key that is stored, or else with the one claimed.  Who has no
key is let through to register if registration is open. -/
def looked : Except StoreError (Option Bytes) → Stage
  | .error e => .closed (some e.message)
  | .ok pinned =>
    if verifySig app.ed (pinned.getD a.claimedKey) (signed a.nonce a.user) sig then
      if pinned.isSome then .ready sig
      else if app.openRegistration then .register sig none
      else .count sig
    else .closed (some "auth failed")

/-- The first user of an empty relay is let through, others need an invite. -/
def counted : Except StoreError ℕ → Stage
  | .ok 0 => .register sig none
  | _ =>
    match a.invite with
    | some id => .claim sig id
    | none => .closed (some INVITE_ONLY)

/-- Whoever could claim the invite is let through. -/
def claimed (id : String) : Except StoreError Bool → Stage
  | .ok true => .register sig (some id)
  | _ => .closed (some INVITE_ONLY)

/-- Somebody else may have registered the user in between. -/
def registered : Except StoreError RegisterOutcome → Stage
  | .ok .registered => .ready sig
  | .ok (.existing key) =>
    if key = a.claimedKey then .ready sig else .closed (some "auth failed")
  | .error _ => .closed (some "auth failed")

/-- A handshake goes on, if what happened is what it waits for. -/
def advance (stage : Stage) (e : Event) (inner : MemoryInner) : Stage × MemoryInner :=
  match stage, e with
  | .challenge, .auth text => (.answer text, inner)
  | .lookup sig, .called fault _ =>
    let r := called fault (Store.MemoryStore.getUserPubkey a.user) inner
    (a.looked app sig r.1, r.2)
  | .count sig, .called fault _ =>
    let r := called fault Store.MemoryStore.userCount inner
    (a.counted sig r.1, r.2)
  | .claim sig id, .called fault now =>
    let r := called fault (Store.MemoryStore.claimInviteForRegistration id a.user now) inner
    (claimed sig id r.1, r.2)
  | .register sig _, .called fault _ =>
    let r := called fault (Store.MemoryStore.registerUser a.user a.claimedKey) inner
    (a.registered sig r.1, r.2)
  | .ready sig, .sent ok =>
    (if ok then .session sig (decide (a.user ∈ app.admins)) else .closed none, inner)
  | stage, _ => (stage, inner)

end Attempt

def Conn.advance (app : App) (e : Event) (inner : MemoryInner) : Conn → Conn × MemoryInner
  | .hello =>
    match e with
    | .hello text nonce sent => (.greet nonce sent text, inner)
    | _ => (.hello, inner)
  | .refused message => (.refused message, inner)
  | .challenged a stage =>
    let r := a.advance app stage e inner
    (.challenged a r.1, r.2)

/-! ### All connections -/

/-- The store of the relay, and its connections in the order they came. -/
structure Relay where
  inner : MemoryInner
  conns : List Conn

inductive Act
  /-- A connection comes. -/
  | accept
  /-- A connection goes on. -/
  | advance (i : ℕ) (e : Event)
  /-- Another part of the relay calls the store.  None of them registers a user. -/
  | other (c : Call) (h : .users ∉ c.touches)

def Relay.step (app : App) (s : Relay) : Act → Relay
  | .accept => { s with conns := s.conns ++ [.hello] }
  | .advance i e =>
    match s.conns[i]? with
    | none => s
    | some conn =>
      let r := conn.advance app e s.inner
      { inner := r.2, conns := s.conns.set i r.1 }
  | .other c _ => { s with inner := Store.MemoryStore.after s.inner c }

theorem Relay.step_of_none {app : App} {s : Relay} {i : ℕ} (h : s.conns[i]? = none) (e : Event) :
    s.step app (.advance i e) = s := by
  simp only [step, h]

theorem Relay.step_of_some {app : App} {s : Relay} {i : ℕ} {conn : Conn}
    (h : s.conns[i]? = some conn) (e : Event) :
    s.step app (.advance i e) =
      { inner := (conn.advance app e s.inner).2,
        conns := s.conns.set i (conn.advance app e s.inner).1 } := by
  simp only [step, h]

def Relay.nonce (s : Relay) (i : ℕ) : Option Nonce := s.conns[i]?.bind Conn.nonce

/-- The nonce that is drawn in a step. -/
def Act.drawn : Act → Option Nonce
  | .advance _ (.hello _ nonce _) => some nonce
  | _ => none

/-- A nonce that is drawn is no other connection's. -/
def Fresh (s : Relay) (act : Act) : Prop :=
  ∀ nonce ∈ act.drawn, ∀ conn ∈ s.conns, conn.nonce ≠ some nonce

instance decidableFresh (s : Relay) (act : Act) : Decidable (Fresh s act) :=
  inferInstanceAs (Decidable (∀ nonce ∈ act.drawn, _))

end Quorum.Handshake
