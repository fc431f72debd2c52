import Quorum.Wire

/-!
# The channel log

A channel's server-side log, folded into the messages a reader shows (`log.js`).  A message, an
edit of it, a deletion and a reaction are four entries; `addEntries` files content under its
author and timestamp and mutations under theirs, and `renderLog` replays the mutations over the
content in relay order.

An entry is any JSON value: whoever holds the room key can write one, so nothing is assumed of
its fields.  A conversion may therefore throw.  `addEntries` then stops where it is, with what it
had folded so far still in the log, and `renderLog` returns nothing.
-/

namespace Quorum

open Js

/-! ### Entries and messages -/

/-- What an entry's signature is worth, as `verifyEntries` reports it. -/
inductive Verdict
  | signed
  | unsigned
  | unknown
  | forged
deriving DecidableEq, Repr

/-- One entry handed to the fold.  `seq` is absent on an entry the relay has not numbered. -/
structure Item where
  seq : Option ℕ
  entry : Value
  auth : Verdict
  isLocal : Bool := false

/-- Where a log lives: the fields every message of it is stamped with. -/
structure Place where
  server : Str
  channel : Str
deriving DecidableEq

/-- What a line says. -/
inductive Body
  | file (file : Value)
  | game (game : GameRef)
  | text (text : Str)

/-- A message, as written or as rendered.  A tombstone has no body. -/
structure Message where
  place : Place
  sender : Str
  ts : Number
  body : Option Body
  reply : Option Reply := none
  auth : Option Verdict
  seq : Option ℕ := none
  isLocal : Bool := false
  system : Bool := false
  edited : Bool := false
  deleted : Bool := false
  /-- Emoji to the handles that cast it. -/
  reacts : Dict Str (List Value) := Dict.empty

/-- How many distinct emoji one line can carry. -/
def REACT_MAX : ℕ := 8

/-- `messageId(sender, ts)`: a message's identity within a channel. -/
def messageId (sender : Str) (ts : Number) : Str := sender ++ unit ':' :: ts.toStr

/-- `mutationId(entry)`: the identity of an edit, deletion or reaction. -/
def mutationId (entry : Value) : Except Error Str := do
  let sender ← (entry.get (lit "sender")).toStr
  let k ← (entry.get (lit "k")).toStr
  let ts ← (entry.get (lit "ts")).toStr
  return sender ++ unit ':' :: (k ++ unit ':' :: ts)

/-- A mutation in the log, under an identity that could be read. -/
structure Mutation where
  seq : ℕ
  entry : Value
  id : Str
  readable : mutationId entry = .ok id

/-- A channel's working copy. -/
structure ChannelLog where
  /-- Messages exactly as written, by identity. -/
  base : Dict Str Message
  mutations : Dict Str Mutation
  /-- Lowest relay seq folded in. -/
  oldest : Option ℕ
  /-- Whether the start of the log has been reached. -/
  complete : Bool
  /-- Highest relay seq folded in. -/
  newest : ℕ
  /-- The next order number for a mutation without a relay seq. -/
  localSeq : ℕ

/-- `createChannelLog()`. -/
def createChannelLog : ChannelLog where
  base := Dict.empty
  mutations := Dict.empty
  oldest := none
  complete := false
  newest := 0
  localSeq := (2 ^ 53 - 1) / 2

/-! ### Folding entries in -/

/-- `CONTENT_KINDS.has(kind)`. -/
def isContentKind : Value → Bool
  | .str s => s = lit "chat" || s = lit "file" || s = lit "game"
  | _ => false

/-- `MUTATION_KINDS.has(kind)`. -/
def isMutationKind : Value → Bool
  | .str s => s = lit "edit" || s = lit "del" || s = lit "react"
  | _ => false

/-- `entry.k ?? 'chat'`. -/
def kindOf (entry : Value) : Value := (entry.get (lit "k")).orElse (.str (lit "chat"))

/-- The body of an entry: a file before a game before a text. -/
def entryBody (entry : Value) : Except Error Body := do
  let game ← if (entry.get (lit "game")).truthy then normalizeGameRef (entry.get (lit "game"))
    else .ok none
  if (entry.get (lit "file")).truthy then
    return .file (entry.get (lit "file"))
  match game with
  | some game => return .game game
  | none => return .text (← (entry.get (lit "text")).text)

/-- `entryToMessage(entry, { server, channel, auth, seq })`. -/
def entryToMessage (entry : Value) (place : Place) (auth : Verdict) (seq : Option ℕ) :
    Except Error (Option Message) := do
  let sender ← (entry.get (lit "sender")).text
  let ts ← (entry.get (lit "ts")).toNum
  if sender = [] ∨ !ts.truthy then
    return none
  let reply ← normalizeReply (entry.get (lit "reply"))
  let body ← entryBody entry
  return some { place, sender, ts, body := some body, reply, auth := some auth, seq }

/-- The cursors after an entry with this relay seq. -/
def ChannelLog.noteSeq (log : ChannelLog) : Option ℕ → ChannelLog
  | none => log
  | some s =>
    { log with
      newest := max log.newest s
      oldest := some (match log.oldest with
        | none => s
        | some o => min o s) }

/-- Store a message under its identity unless one is there that it may not replace: only the
relay's copy of a local echo replaces anything. -/
def ChannelLog.store (log : ChannelLog) (m : Message) : ChannelLog × Bool :=
  let id := messageId m.sender m.ts
  match log.base.get? id with
  | some prior =>
    if prior.isLocal && !m.isLocal then ({ log with base := log.base.set id m }, true)
    else (log, false)
  | none => ({ log with base := log.base.set id m }, true)

/-- File a mutation under its identity unless it is there already. -/
def ChannelLog.file (log : ChannelLog) (entry : Value) (id : Str)
    (readable : mutationId entry = .ok id) : Option ℕ → ChannelLog × Bool
  | some seq =>
    if log.mutations.has id then (log, false)
    else ({ log with mutations := log.mutations.set id { seq, entry, id, readable } }, true)
  | none =>
    if log.mutations.has id then (log, false)
    else
      ({ log with
          mutations := log.mutations.set id { seq := log.localSeq, entry, id, readable }
          localSeq := log.localSeq + 1 }, true)

/-- One turn of the loop in `addEntries`: the log afterwards, and whether the entry was new. -/
def addEntry (place : Place) (log : ChannelLog) (item : Item) : ChannelLog × Except Error Bool :=
  if !item.entry.truthy || item.auth = .forged then (log, .ok false)
  else
    let kind := kindOf item.entry
    let log := log.noteSeq item.seq
    if isContentKind kind then
      match entryToMessage item.entry place item.auth item.seq with
      | .error e => (log, .error e)
      | .ok none => (log, .ok false)
      | .ok (some message) =>
        let (log, added) := log.store { message with isLocal := item.isLocal }
        (log, .ok added)
    else if isMutationKind kind then
      -- Only a verified author may rewrite or annotate a line.
      if item.auth ≠ .signed then (log, .ok false)
      else
        match h : mutationId item.entry with
        | .error e => (log, .error e)
        | .ok id =>
          let (log, added) := log.file item.entry id h item.seq
          (log, .ok added)
    else (log, .ok false)

/-- `addEntries(log, items, { server, channel })`: how many entries were new, or the exception
that ended the loop. -/
def addEntries (place : Place) (log : ChannelLog) : List Item → ChannelLog × Except Error ℕ
  | [] => (log, .ok 0)
  | item :: items =>
    match addEntry place log item with
    | (log, .error e) => (log, .error e)
    | (log, .ok added) =>
      let (log, total) := addEntries place log items
      (log, total.map (· + added.toNat))

/-- `addLocalEntry(log, entry, { server, channel })`. -/
def addLocalEntry (place : Place) (log : ChannelLog) (entry : Value) :
    ChannelLog × Except Error ℕ :=
  addEntries place log [{ seq := none, entry, auth := .signed, isLocal := true }]

/-- The identity of a device-local notice. -/
def systemId (ts : Number) (size : ℕ) : Str :=
  lit "sys" ++ unit ':' :: (ts.toStr ++ unit ':' :: Value.indexName size)

def systemMessage (place : Place) (text : Str) (ts : Number) : Message :=
  { place, sender := [], ts, body := some (.text text), auth := none, system := true }

/-- `addSystemMessage(log, { server, channel, text, ts })`. -/
def addSystemMessage (place : Place) (log : ChannelLog) (text : Str) (ts : Number) : ChannelLog :=
  { log with base := log.base.set (systemId ts log.base.size) (systemMessage place text ts) }

/-! ### Replaying mutations -/

/-- Where an edit or a deletion points: a line by the same author. -/
def ownTarget (entry : Value) : Except Error Str := do
  let ts ← ((entry.get (lit "to")).get (lit "ts")).toNum
  let sender ← (entry.get (lit "sender")).toStr
  return messageId sender ts

/-- Where a reaction points. -/
def reactTarget (entry : Value) : Except Error Str := do
  let line := entry.get (lit "to")
  let sender ← (line.get (lit "sender")).text
  let ts ← (line.get (lit "ts")).toNum
  return messageId sender ts

/-- A line that says something in text: not a file, a game or a tombstone. -/
def Message.hasText (m : Message) : Bool :=
  match m.body with
  | some (.text _) => true
  | _ => false

/-- What an edit does to its target. -/
def editMessage (target : Message) (entry : Value) : Except Error Message := do
  if target.deleted || !target.hasText then
    return target
  let text ← (entry.get (lit "text")).text
  if text = [] then
    return target
  return { target with body := some (.text text), edited := true }

/-- What a deletion leaves of its target. -/
def tombstone (target : Message) : Message :=
  { place := target.place, sender := target.sender, ts := target.ts, body := none
    auth := target.auth, seq := target.seq, deleted := true }

/-- `String(entry.emo ?? '').slice(0, 8).trim()`. -/
def emojiOf (entry : Value) : Except Error Str := do
  return trim (slice (← (entry.get (lit "emo")).text) 8)

/-- The handles under an emoji, `new Set(reacts[emo] ?? [])`: a name that the table inherits is
not iterable. -/
def castUnder (reacts : Dict Str (List Value)) (emo : Str) : Except Error (List Value) :=
  match reacts.get? emo with
  | some l => .ok (unique l)
  | none => if emo ∈ Value.objectProto then .error .typeError else .ok []

/-- `entry.op !== 'del'`. -/
def addsReaction (entry : Value) : Bool := !(entry.get (lit "op")).strictEq (.str (lit "del"))

/-- An emoji that the line does not carry yet and has no room for. -/
def noRoomFor (reacts : Dict Str (List Value)) (emo : Str) : Bool :=
  !reacts.has emo && emo ∉ Value.objectProto && REACT_MAX ≤ reacts.size

/-- The handles under an emoji once this reaction counts. -/
def recast (entry : Value) (set : List Value) : List Value :=
  let sender := entry.get (lit "sender")
  if addsReaction entry then insertNew set sender else set.filter fun w => !(w == sender)

/-- The table with a new set of handles under an emoji; an empty set goes. -/
def writeCast (reacts : Dict Str (List Value)) (emo : Str) (set : List Value) :
    Dict Str (List Value) :=
  if set.isEmpty then reacts.delete emo else reacts.set emo set

/-- What a reaction does to its target. -/
def reactMessage (target : Message) (entry : Value) : Except Error Message := do
  if target.deleted then
    return target
  let emo ← emojiOf entry
  if emo = [] then
    return target
  -- Bound how many distinct emoji one line can carry.
  if addsReaction entry && noRoomFor target.reacts emo then
    return target
  let set ← castUnder target.reacts emo
  return { target with reacts := writeCast target.reacts emo (recast entry set) }

/-- Rewrite the message under an identity, if there is one. -/
def rewrite (messages : Dict Str Message) (id : Str) (f : Message → Except Error Message) :
    Except Error (Dict Str Message) :=
  match messages.get? id with
  | none => .ok messages
  | some target => (f target).map (messages.set id)

/-- `applyEdit(messages, entry)`. -/
def applyEdit (messages : Dict Str Message) (entry : Value) : Except Error (Dict Str Message) := do
  rewrite messages (← ownTarget entry) fun target => editMessage target entry

/-- `applyDelete(messages, entry)`. -/
def applyDelete (messages : Dict Str Message) (entry : Value) :
    Except Error (Dict Str Message) := do
  rewrite messages (← ownTarget entry) fun target => .ok (tombstone target)

/-- `applyReaction(messages, entry)`. -/
def applyReaction (messages : Dict Str Message) (entry : Value) :
    Except Error (Dict Str Message) := do
  rewrite messages (← reactTarget entry) fun target => reactMessage target entry

def applyMutation (messages : Dict Str Message) (entry : Value) :
    Except Error (Dict Str Message) :=
  let k := entry.get (lit "k")
  if k.strictEq (.str (lit "edit")) then applyEdit messages entry
  else if k.strictEq (.str (lit "del")) then applyDelete messages entry
  else if k.strictEq (.str (lit "react")) then applyReaction messages entry
  else .ok messages

/-- The mutations in the order they are replayed: by relay seq. -/
def ChannelLog.ordered (log : ChannelLog) : List Mutation :=
  log.mutations.values.insertionSort fun a b => a.seq ≤ b.seq

/-- The messages by identity, with every mutation replayed. -/
def replay (log : ChannelLog) : Except Error (Dict Str Message) :=
  log.ordered.foldlM (fun messages m => applyMutation messages m.entry) log.base

/-- `renderLog(log)`. -/
def renderLog (log : ChannelLog) : Except Error (List Message) := do
  return (← replay log).values.insertionSort fun a b => a.ts.cmpSub b.ts ≠ .gt

/-! ### Auto-delete -/

/-- `pruneLog(log, beforeTs)`: the log afterwards, and how many messages went.  A mutation in the
log has a readable timestamp, so the conversion cannot throw here. -/
def pruneLog (log : ChannelLog) (beforeTs : Number) : ChannelLog × ℕ :=
  let base := log.base.filter fun _ m => !m.ts.lt beforeTs
  let mutations := log.mutations.filter fun _ m =>
    match (m.entry.get (lit "ts")).toNum with
    | .ok ts => !ts.lt beforeTs
    | .error _ => true
  ({ log with base, mutations }, log.base.size - base.size)

/-! ### Runs -/

/-- An entry of a relay page. -/
structure PageEntry where
  seq : Option ℕ
  entry : Value
  auth : Verdict

/-- A page entry as the fold takes it. -/
def PageEntry.toItem (e : PageEntry) : Item := { seq := e.seq, entry := e.entry, auth := e.auth }

/-- A local echo as the fold takes it. -/
def echoItem (entry : Value) : Item := { seq := none, entry, auth := .signed, isLocal := true }

/-- Something the fold is handed: a page of the relay's log, or an entry this device wrote or
received live. -/
inductive Arrival
  | addEntries (page : List PageEntry)
  | addLocalEntry (entry : Value)

/-- The items of an arrival. -/
def Arrival.items : Arrival → List Item
  | .addEntries page => page.map PageEntry.toItem
  | .addLocalEntry entry => [echoItem entry]

/-- The log after an arrival, whether the call returned or threw. -/
def Arrival.apply (place : Place) (log : ChannelLog) : Arrival → ChannelLog
  | .addEntries page => (Quorum.addEntries place log (page.map PageEntry.toItem)).1
  | .addLocalEntry entry => (Quorum.addLocalEntry place log entry).1

/-- A call that changes a channel's working copy. -/
inductive Call
  | arrive (a : Arrival)
  | addSystemMessage (text : Str) (ts : Number)
  | pruneLog (beforeTs : Number)

/-- The log after a call, whether it returned or threw. -/
def Call.apply (place : Place) (log : ChannelLog) : Call → ChannelLog
  | .arrive a => a.apply place log
  | .addSystemMessage text ts => Quorum.addSystemMessage place log text ts
  | .pruneLog beforeTs => (Quorum.pruneLog log beforeTs).1

/-- The log after a sequence of arrivals. -/
def runArrivals (place : Place) (arrivals : List Arrival) : ChannelLog :=
  arrivals.foldl (Arrival.apply place) createChannelLog

/-- The log after a sequence of calls. -/
def runCalls (place : Place) (calls : List Call) : ChannelLog :=
  calls.foldl (Call.apply place) createChannelLog

end Quorum
