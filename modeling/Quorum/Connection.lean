import Quorum.Handshake
import Quorum.Order.Along
import Quorum.Order.Pending

/-!
# The connection of a client

`Relay` of `relay.js` keeps a client connected: it opens a socket, answers the challenge of the
relay, sends requests and hands their answers to the callers, watches the socket with pings, and
opens another after a pause when the socket has closed.

The browser calls it back: a socket opens, gets a message or closes, a timer fires, a promise that a
handler waits for resolves.  `Relay.step` is one such call, or a call of `request` or `close` by the
client.  Calls come in any order that the sockets and the timers allow.  Time is left out, so a
timer that has been set may fire at any moment.  A socket that is closing gets no messages and drops
what it is given to send.
-/

namespace Quorum.Connection

open Store (Bytes)
open Handshake (answered)

/-- `readyState` of a `WebSocket`. -/
inductive Phase
  | connecting
  | opened
  | closing
  | closed
deriving DecidableEq

/-- A message of the relay, by its `t`. -/
inductive Message (β : Type)
  | error (rid : Option ℕ) (message : String)
  | challenge (nonce : Bytes)
  | ready (body : β)
  | other (rid : Option ℕ) (body : β)
deriving DecidableEq

def Message.rid {β : Type} : Message β → Option ℕ
  | .error rid _ => rid
  | .other rid _ => rid
  | _ => none

/-- What the client sends; `auth` by what it signs. -/
inductive Frame
  | hello
  | auth (signed : Bytes)
  | request (rid : ℕ) (t : String)
deriving DecidableEq

inductive Status
  | connecting
  | online
  | offline
deriving DecidableEq

/-- A request, and the socket it was given to. -/
structure Asked where
  t : String
  ws : Option ℕ

/-- How the promise of a request is settled: by a message that came over a socket, or with an error
of the client's own. -/
inductive Outcome (β : Type)
  | resolve (socket : ℕ) (msg : Message β)
  | reject (socket : ℕ) (msg : Message β)
  | fail (text : String)

/-- The client's record of its connection.  Sockets are numbered; `tasks` are the frames whose
handlers wait for a key or a signature, `reconnects` the delays of the timers set to `connect`,
`deadlines` the pings whose deadline is set.  `sent` and `received` have gone over the sockets. -/
structure Relay (β : Type) where
  phase : ℕ → Phase := fun _ => .closed
  sockets : ℕ := 0
  ws : Option ℕ := none
  ready : Bool := false
  requests : Pending Asked (Asked × Outcome β) := {}
  backoff : ℕ := 500
  closed : Bool := false
  hb : Bool := false
  deadlines : List ℕ := []
  reconnects : List ℕ := []
  tasks : List (ℕ × Frame) := []
  status : Option Status := none
  events : List (Message β) := []
  authErrors : List String := []
  sent : List (ℕ × Frame) := []
  received : List (ℕ × Message β) := []

namespace Relay

variable {β : Type}

/-- `send` of a socket. -/
def send (s : Relay β) (k : ℕ) (frame : Frame) : Relay β :=
  if s.phase k = .opened then { s with sent := s.sent ++ [(k, frame)] } else s

/-- `close` of a socket. -/
def shut (s : Relay β) : Option ℕ → Relay β
  | some k =>
    if s.phase k = .closed then s else { s with phase := Function.update s.phase k .closing }
  | none => s

def connect (s : Relay β) : Relay β :=
  if s.closed then s
  else
    { s with
      status := some .connecting
      phase := Function.update s.phase s.sockets .connecting
      ws := some s.sockets
      sockets := s.sockets + 1 }

/-- A request is settled, and the deadline of a ping cleared. -/
def settle (s : Relay β) (rid : ℕ) (f : Asked → Outcome β) : Relay β :=
  { s with
    requests := s.requests.settle rid fun a => (a, f a)
    deadlines := s.deadlines.filter (· ≠ rid) }

/-- The end of `onmessage`: an answer goes to the caller, another message to `onEvent`. -/
def answer (s : Relay β) (rid : Option ℕ) (msg : Message β) (outcome : Outcome β) : Relay β :=
  match rid with
  | some rid =>
    if s.requests.waits rid then s.settle rid fun _ => outcome
    else { s with events := s.events ++ [msg] }
  | none => { s with events := s.events ++ [msg] }

def onmessage (name : String) (s : Relay β) (k : ℕ) (msg : Message β) : Relay β :=
  match msg with
  | .error rid message =>
    if s.ready then s.answer rid msg (.reject k msg)
    else { s with closed := true, authErrors := s.authErrors ++ [message] }
  | .challenge nonce => { s with tasks := s.tasks ++ [(k, .auth (answered nonce name))] }
  | .ready _ =>
    { s with
      ready := true, backoff := 500, hb := true, status := some .online
      events := s.events ++ [msg] }
  | .other rid _ => s.answer rid msg (.resolve k msg)

def onclose (s : Relay β) : Relay β :=
  let s : Relay β :=
    { s with
      ready := false
      hb := false
      requests := s.requests.settleAll fun a =>
        (a, .fail "the connection dropped — reconnecting")
      deadlines := s.deadlines.filter fun rid => ¬ s.requests.waits rid
      status := some .offline }
  if s.closed then s
  else
    { s with reconnects := s.reconnects ++ [s.backoff], backoff := min (s.backoff * 2) 15000 }

/-- Without `ready` the promise is rejected at once, and nothing is kept. -/
def request (s : Relay β) (t : String) : Relay β :=
  if s.ready then
    let s' : Relay β := { s with requests := s.requests.issue ⟨t, s.ws⟩ }
    match s.ws with
    | some k => s'.send k (.request s.requests.next t)
    | none => s'
  else s

/-- The interval of `startHeartbeat`. -/
def beat (s : Relay β) : Relay β :=
  if s.hb ∧ s.ready then
    { s.request "ping" with deadlines := s.deadlines ++ [s.requests.next] }
  else s

def close (s : Relay β) : Relay β := ({ s with closed := true, hb := false } : Relay β).shut s.ws

end Relay

inductive Event (β : Type)
  | opened (k : ℕ)
  | message (k : ℕ) (msg : Message β)
  | closed (k : ℕ)
  | resume (i : ℕ)
  | reconnect (i : ℕ)
  | request (t : String)
  | timeout (rid : ℕ)
  | beat
  | deadline (rid : ℕ)
  | close

namespace Relay

variable {β : Type}

/-- A call that the sockets and the timers do not allow changes nothing. -/
def step (name : String) (s : Relay β) : Event β → Relay β
  | .opened k =>
    if s.phase k = .connecting then
      { s with phase := Function.update s.phase k .opened, tasks := s.tasks ++ [(k, .hello)] }
    else s
  | .message k msg =>
    if s.phase k = .opened then
      ({ s with received := s.received ++ [(k, msg)] } : Relay β).onmessage name k msg
    else s
  | .closed k =>
    if s.phase k = .closed then s
    else ({ s with phase := Function.update s.phase k .closed } : Relay β).onclose
  | .resume i =>
    match s.tasks[i]? with
    | some (k, frame) => ({ s with tasks := s.tasks.eraseIdx i } : Relay β).send k frame
    | none => s
  | .reconnect i =>
    if i < s.reconnects.length then
      ({ s with reconnects := s.reconnects.eraseIdx i } : Relay β).connect
    else s
  | .request t => s.request t
  | .timeout rid =>
    s.settle rid fun a => .fail s!"the relay did not answer \"{a.t}\" in time"
  | .beat => s.beat
  | .deadline rid =>
    if rid ∈ s.deadlines then
      ({ s with deadlines := s.deadlines.filter (· ≠ rid) } : Relay β).shut s.ws
    else s
  | .close => s.close

/-- A client that has called `connect`, after a number of calls. -/
def run (name : String) (events : List (Event β)) : Relay β :=
  events.foldl (step name) ({} : Relay β).connect

end Relay

end Quorum.Connection
