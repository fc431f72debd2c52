import Quorum.ChanKeys
import Quorum.Log
import Quorum.Order.Along

/-!
# A channel and the logs behind it

The relay keeps the messages of a channel in a log, and numbers its entries from one on; each log
has a counter of its own (`append_history` in `store.rs`).  A device reads the log a page at a time
into a working copy (`fetchPage` in `controller.js`), which remembers the highest and the lowest
number it has folded in, and with each line the number of its entry.  These numbers go back to the
relay as the bound of the next page, and as the name of the entry to erase (`deleteMessage`).

Which log a channel has is part of its settings, and may change with an envelope that arrives
(`mergeChanKeys`): the lowest log id wins.  Logs that lost are read once, whole, beside the other
one (`drainAlternateLogs`).

Requests are answered later than they are made, and anything may happen in between.  A log id that
is not a string is refused by the relay when it decodes the request.
-/

namespace Quorum.History

open Js

/-! ### The relay -/

/-- An entry of a log at the relay. -/
structure Stored where
  hid : Str
  seq : ℕ
  author : Str
  entry : Value

/-- The logs of a circle: what they hold, and everything that was ever appended to them. -/
structure Store where
  entries : List Stored
  issued : List Stored

/-- Where a page of a log begins or ends. -/
inductive Bound
  | after (n : ℕ)
  | before (n : ℕ)
deriving DecidableEq

namespace Store

/-- `log.last_seq`. -/
def lastSeq (store : Store) (hid : Str) : ℕ := store.issued.countP (·.hid = hid)

/-- `append_history`. -/
def append (store : Store) (hid author : Str) (entry : Value) : Store :=
  let stored : Stored := { hid, seq := store.lastSeq hid + 1, author, entry }
  { entries := store.entries ++ [stored], issued := store.issued ++ [stored] }

/-- `history_page`: the entries of a page, and whether nothing older is left. -/
def page (store : Store) (hid : Str) (limit : ℕ) : Bound → List Stored × Bool
  | .after n =>
    let matching := store.entries.filter fun s => s.hid = hid ∧ n < s.seq
    (matching.take limit, n = 0 ∧ matching.length ≤ limit)
  | .before n =>
    let matching := store.entries.filter fun s => s.hid = hid ∧ s.seq < n
    (matching.drop (matching.length - limit), matching.length ≤ limit)

/-- `redact_history`: an entry goes if the caller has written it or is an admin. -/
def redact (store : Store) (hid : Str) (seq : ℕ) (caller : Str) (admin : Bool) : Store :=
  { store with
    entries := store.entries.filter fun s =>
      ¬(s.hid = hid ∧ s.seq = seq ∧ (admin = true ∨ s.author = caller)) }

/-- An entry expires or is pruned. -/
def drop (store : Store) (hid : Str) (seq : ℕ) : Store :=
  { store with entries := store.entries.filter fun s => ¬(s.hid = hid ∧ s.seq = seq) }

end Store

/-! ### The settings of the channel -/

/-- The log that is asked for the pages of a channel, if its id is set and the relay accepts it. -/
def logId (entry : Value) : Option Str :=
  match entry.get (lit "hid") with
  | .str hid => if hid = [] then none else some hid
  | _ => none

/-- `ensureChannelKeys(record, channel)` on the channel's entry, with what it would mint. -/
def ensureChannelKeys (entry : Value) (hid hkey : Str) : Value :=
  if (entry.get (lit "hid")).truthy && (entry.get (lit "hkey")).truthy then entry
  else
    Value.ofDict (entry.spread.setAll
      [(lit "hid", (entry.get (lit "hid")).orElse (.str hid)),
        (lit "hkey", (entry.get (lit "hkey")).orElse (.str hkey))])

/-- An entry after a merge, which changes nothing when it throws. -/
def mergedEntry (entry theirs : Value) (mineWins : Bool) : Value :=
  match mergeChanKeys entry theirs mineWins with
  | .ok merged => merged
  | .error _ => entry

/-! ### Requests under way -/

def HISTORY_PAGE : ℕ := 50

/-- `Number.MAX_SAFE_INTEGER`. -/
def MAX_SAFE_INTEGER : ℕ := 2 ^ 53 - 1

/-- A `fetchPage` that waits for its page, or has it and opens its entries. -/
structure Fetch where
  hid : Str
  bound : Bound
  /-- The other logs of the channel are read after it. -/
  first : Bool
  reply : Option (List Stored × Bool)

/-- A `drainAlternateLogs` under way: the log it reads and how far, and those still to come. -/
structure Drain where
  hid : Str
  after : ℕ
  /-- How many pages of the log it has read. -/
  pages : ℕ
  alts : List Value
  reply : Option (List Stored)

/-- A request that names a number. -/
inductive Request
  /-- `history_fetch` with a bound from the working copy. -/
  | page (hid : Str) (bound : Bound)
  /-- `history_fetch` of another log. -/
  | drain (hid : Str) (after : ℕ)
  /-- `history_redact` for a line. -/
  | redact (hid : Str) (seq : ℕ) (line : Message)

/-- Reading the next of the other logs, if there is one whose id the relay accepts. -/
def Drain.next : List Value → Option Drain
  | [] => none
  | alt :: alts =>
    match logId alt with
    | some hid => some { hid, after := 0, pages := 0, alts, reply := none }
    | none => next alts

/-! ### The room -/

/-- A channel on a device, the relay, and what is under way between them. -/
structure Room where
  store : Store
  /-- `record.chanMeta[channel]`. -/
  entry : Value
  log : ChannelLog
  loaded : Bool
  fetching : List Fetch
  draining : List Drain
  /-- Entries on their way to a log. -/
  appending : List (Str × Value)
  /-- Lines that were rendered, which the user may point at. -/
  shown : List Message
  /-- Lines to erase once their deletion is in the log. -/
  deleting : List Message
  redacting : List (Str × ℕ)
  /-- Every request that named a number. -/
  requests : List Request
  /-- The entries whose numbers were folded into the working copy. -/
  folded : List Stored

inductive Action
  /-- Somebody appends to a log. -/
  | append (hid author : Str) (entry : Value)
  | expire (hid : Str) (seq : ℕ)
  /-- A `chanset` envelope, a `meta` envelope, and one that replaces the settings. -/
  | chanset (theirs : Value)
  | rebroadcast (theirs : Value)
  | adopt (entry : Value)
  /-- `loadMessages`, `loadOlderMessages` and `catchUpLogs`. -/
  | load
  | older
  | catchUp
  /-- The relay answers, the page is folded in, or the request fails. -/
  | serve (i : ℕ)
  | fold (i : ℕ) (opened : Stored → Option Verdict)
  | fail (i : ℕ)
  | serveDrain (i : ℕ)
  | foldDrain (i : ℕ) (opened : Stored → Option Verdict)
  | failDrain (i : ℕ)
  /-- A line of this device, and one that arrives live. -/
  | send (entry : Value) (hid hkey : Str)
  | echo (entry : Value)
  | notice (text : Str) (ts : Number)
  | prune (beforeTs : Number)
  /-- The relay takes in an entry of this device. -/
  | accept (i : ℕ)
  | render
  /-- `deleteMessage`, up to its request and to the relay. -/
  | delete (i : ℕ) (at_ : Number) (hid hkey : Str)
  | redact (i : ℕ)
  | erase (i : ℕ) (admin : Bool)

namespace Room

/-- A channel that was never opened on this device. -/
def start (entry : Value) : Room where
  store := { entries := [], issued := [] }
  entry
  log := createChannelLog
  loaded := false
  fetching := []
  draining := []
  appending := []
  shown := []
  deleting := []
  redacting := []
  requests := []
  folded := []

variable (place : Place) (me : Str)

/-- A drain asks for the next page of the log it reads. -/
def ask (r : Room) (d : Drain) : Room :=
  { r with
    draining := r.draining ++ [{ d with reply := none }]
    requests := r.requests ++ [.drain d.hid d.after] }

/-- A drain goes on to the next log, or ends. -/
def nextLog (r : Room) (alts : List Value) : Room :=
  match Drain.next alts with
  | some d => r.ask d
  | none => r

/-- `drainAlternateLogs(record, channel)`. -/
def drainAlternateLogs (r : Room) : Room :=
  match (r.entry.get (lit "alts")).elements with
  | .ok alts => r.nextLog alts
  | .error _ => r

/-- `fetchPage(record, channel, bound)` up to its request; a first page that is not asked for is
followed by the other logs at once. -/
def fetchPage (r : Room) (bound : Bound) (first : Bool) : Room :=
  match logId r.entry with
  | some hid =>
    if (r.entry.get (lit "hkey")).truthy then
      { r with
        fetching := r.fetching ++ [{ hid, bound, first, reply := none }]
        requests := r.requests ++ [.page hid bound] }
    else if first then r.drainAlternateLogs else r
  | none => if first then r.drainAlternateLogs else r

/-- `loadMessages(serverId, channel)` on a room that is opened for the first time. -/
def loadMessages (r : Room) : Room :=
  if r.loaded then r
  else { r with loaded := true }.fetchPage (.before MAX_SAFE_INTEGER) true

/-- `loadOlderMessages(serverId, channel)`. -/
def loadOlderMessages (r : Room) : Room :=
  if r.log.complete then r
  else r.fetchPage (.before (r.log.oldest.getD MAX_SAFE_INTEGER)) false

/-- The turn of the channel in `catchUpLogs(record)`. -/
def catchUp (r : Room) : Room :=
  if r.loaded then r.fetchPage (.after r.log.newest) false else r

/-- The entries of a page that could be opened, with the number or without. -/
def openPage (page : List Stored) (opened : Stored → Option Verdict) (numbered : Bool) : List Item :=
  page.filterMap fun s =>
    (opened s).map fun auth =>
      { seq := if numbered then some s.seq else none, entry := s.entry, auth }

/-- A page is folded in. -/
def foldPage (r : Room) (f : Fetch) (page : List Stored × Bool) (opened : Stored → Option Verdict) :
    Room :=
  let added := addEntries place r.log (openPage page.1 opened true)
  let r := { r with log := added.1, folded := r.folded ++ page.1 }
  match added.2, f.bound with
  | .error _, _ => r
  | .ok _, .after _ => r
  | .ok _, .before _ =>
    let r := if page.2 then { r with log := { r.log with complete := true } } else r
    if f.first then r.drainAlternateLogs else r

/-- A page of another log is folded in, and the next one asked for. -/
def foldDrained (r : Room) (d : Drain) (page : List Stored) (opened : Stored → Option Verdict) :
    Room :=
  match page.getLast? with
  | none => r.nextLog d.alts
  | some last =>
    let added := addEntries place r.log (openPage page opened false)
    let r := { r with log := added.1 }
    match added.2 with
    | .error _ => r
    | .ok _ =>
      if d.pages + 1 < 20 then r.ask { d with after := last.seq, pages := d.pages + 1 }
      else r.nextLog d.alts

/-- `appendLog(serverId, channel, entry)`: the line is shown at once and on its way to the log.
That a key minted here is announced first makes no difference to what is followed. -/
def appendLog (r : Room) (entry : Value) (hid hkey : Str) : Room :=
  let settings := ensureChannelKeys r.entry hid hkey
  { r with
    entry := settings
    log := (addLocalEntry place r.log entry).1
    appending :=
      match settings.get (lit "hid") with
      | .str hid => r.appending ++ [(hid, entry)]
      | _ => r.appending }

/-- `{ sender, k: 'del', ts, to: { ts } }`. -/
def deletion (line : Message) (at_ : Number) : Value :=
  .obj 0 [(lit "sender", .str me), (lit "k", .str (lit "del")), (lit "ts", .num at_),
    (lit "to", .obj 0 [(lit "ts", .num line.ts)])]

/-- `deleteMessage(serverId, channel, message)` up to where the deletion is in the log. -/
def deleteMessage (r : Room) (line : Message) (at_ : Number) (hid hkey : Str) : Room :=
  if line.sender ≠ me then r
  else
    let r := r.appendLog place (deletion me line at_) hid hkey
    { r with deleting := r.deleting ++ [line] }

/-- `deleteMessage` asks the relay to erase the entry of the line. -/
def redactLine (r : Room) (line : Message) : Room :=
  match logId r.entry, line.seq with
  | some hid, some seq =>
    { r with
      redacting := r.redacting ++ [(hid, seq)]
      requests := r.requests ++ [.redact hid seq line] }
  | _, _ => r

def step (r : Room) : Action → Room
  | .append hid author entry => { r with store := r.store.append hid author entry }
  | .expire hid seq => { r with store := r.store.drop hid seq }
  | .chanset theirs => { r with entry := mergedEntry r.entry theirs false }
  | .rebroadcast theirs => { r with entry := mergedEntry r.entry theirs true }
  | .adopt entry => { r with entry }
  | .load => r.loadMessages
  | .older => r.loadOlderMessages
  | .catchUp => r.catchUp
  | .serve i =>
    match r.fetching[i]? with
    | some f =>
      let reply := some (r.store.page f.hid HISTORY_PAGE f.bound)
      { r with fetching := r.fetching.set i { f with reply } }
    | none => r
  | .fold i opened =>
    match r.fetching[i]? with
    | some f =>
      match f.reply with
      | some page => { r with fetching := r.fetching.eraseIdx i }.foldPage place f page opened
      | none => r
    | none => r
  | .fail i =>
    match r.fetching[i]? with
    | some f =>
      let r := { r with fetching := r.fetching.eraseIdx i }
      if f.first then r.drainAlternateLogs else r
    | none => r
  | .serveDrain i =>
    match r.draining[i]? with
    | some d =>
      let reply := some (r.store.page d.hid HISTORY_PAGE (.after d.after)).1
      { r with draining := r.draining.set i { d with reply } }
    | none => r
  | .foldDrain i opened =>
    match r.draining[i]? with
    | some d =>
      match d.reply with
      | some page => { r with draining := r.draining.eraseIdx i }.foldDrained place d page opened
      | none => r
    | none => r
  | .failDrain i =>
    match r.draining[i]? with
    | some d => { r with draining := r.draining.eraseIdx i }.nextLog d.alts
    | none => r
  | .send entry hid hkey => r.appendLog place entry hid hkey
  | .echo entry => { r with log := (addLocalEntry place r.log entry).1 }
  | .notice text ts => { r with log := addSystemMessage place r.log text ts }
  | .prune beforeTs => { r with log := (pruneLog r.log beforeTs).1 }
  | .accept i =>
    match r.appending[i]? with
    | some (hid, entry) =>
      { r with store := r.store.append hid me entry, appending := r.appending.eraseIdx i }
    | none => r
  | .render =>
    match renderLog r.log with
    | .ok lines => { r with shown := r.shown ++ lines }
    | .error _ => r
  | .delete i at_ hid hkey =>
    match r.shown[i]? with
    | some line => r.deleteMessage place me line at_ hid hkey
    | none => r
  | .redact i =>
    match r.deleting[i]? with
    | some line => { r with deleting := r.deleting.eraseIdx i }.redactLine line
    | none => r
  | .erase i admin =>
    match r.redacting[i]? with
    | some (hid, seq) =>
      { r with store := r.store.redact hid seq me admin, redacting := r.redacting.eraseIdx i }
    | none => r

def run (r : Room) (l : List Action) : Room := l.foldl (step place me) r

end Room

end Quorum.History
