import Quorum.Js.Value

/-!
# Small shapes off the wire

The normalizers shared by the channel log and the envelope reducer: a quoted reply, a reference to
a game, a claimed timestamp.  Each reads a payload written by another member, keeps whitelisted
fields of bounded size, and answers nothing when the payload does not hold up.  A conversion that
the language throws on makes the normalizer throw.
-/

namespace Quorum

open Js

/-- The longest quoted text a reply keeps. -/
def REPLY_TEXT_MAX : ℕ := 140

/-- A snapshot of the line a message answers. -/
structure Reply where
  sender : Str
  ts : Number
  text : Str
deriving DecidableEq

/-- `normalizeReply(r)`. -/
def normalizeReply (r : Value) : Except Error (Option Reply) := do
  if !r.truthy || !r.isObject then
    return none
  let sender := trim (slice (← (r.get (lit "sender")).text) 64)
  let ts ← (r.get (lit "ts")).toNum
  if sender = [] ∨ !ts.isFinite ∨ ts.le 0 then
    return none
  let text := slice (← (r.get (lit "text")).text) REPLY_TEXT_MAX
  return some { sender, ts, text }

/-- `messageTs(claimed, now)`: a sane claimed timestamp, else this device's clock. -/
def messageTs (claimed : Value) (now : Number) : Except Error Number := do
  let t ← claimed.toNum
  return if t.isFinite ∧ Number.lt 0 t then t else now

/-- The longest name a game may carry. -/
def GAME_NAME_MAX : ℕ := 60

/-- The two kinds of game: embedded in the app, or an address card. -/
inductive GameKind
  | activity
  | server
deriving DecidableEq

/-- `KINDS.has(kind) ? kind : 'activity'`. -/
def GameKind.ofValue : Value → GameKind
  | .str s => if s = lit "server" then .server else .activity
  | _ => .activity

/-- A game as a chat line refers to it: no address, the shelf resolves it. -/
structure GameRef where
  id : Str
  name : Str
  kind : GameKind
deriving DecidableEq

/-- `normalizeGameRef(g)`. -/
def normalizeGameRef (g : Value) : Except Error (Option GameRef) := do
  if !g.truthy || !g.isObject then
    return none
  let id := slice (← (g.get (lit "id")).text) 40
  let name := trim (slice (← (g.get (lit "name")).text) GAME_NAME_MAX)
  let kind := GameKind.ofValue (g.get (lit "kind"))
  if id = [] ∨ name = [] then
    return none
  return some { id, name, kind }

end Quorum
