import Quorum.ChanKeys
import Quorum.Js.Act
import Quorum.Js.Table
import Quorum.Ledger

/-!
# The envelope reducer

What an authenticated envelope means for a circle's record (`envelope.js`).  `applyEnvelope`
changes the record in place and emits effects for the controller to carry out.  The sender is
authenticated; the content is any JSON value that some member sent, so conversions may throw.  The
record then keeps what had been changed so far.

The record is stored in parts: the rooms with their settings and keys, the board, and the ledger.
The reducer of each kind of envelope works on the part it is about.
-/

namespace Quorum

open Js

/-! ### The record -/

/-- The rooms of a circle, tombstones of removed ones, and the settings of channels. -/
structure Rooms where
  channels : List Value
  voiceChannels : Option (List Value)
  deletedChannels : Option (List Value)
  deletedVoice : Option (List Value)
  chanMeta : Option Table

/-- The home base of a circle. -/
structure Board where
  overview : Option Overview
  notices : Option (List Notice)
  offers : Option (List Offer)
  rsvps : Option Table

/-- The membership ledger and the signatures it asks for. -/
structure Ledger where
  proposals : Option (List Proposal)
  threshold : Option ℕ

/-- A circle's record, as far as envelopes read or write it. -/
structure Record where
  id : Str
  name : Value
  members : Option (List Str)
  pendingMetaSync : Bool
  rooms : Rooms
  board : Board
  ledger : Ledger

def Record.memberCount (record : Record) : ℕ := (record.members.getD []).length

/-! ### Effects -/

/-- A line that arrived, for the channel log. -/
inductive LiveBody
  | text (text : Value) (reply : Option Reply)
  | game (game : GameRef)
  | file (file : Value)

/-- What the controller is asked to do.  The server of every effect is the record's id. -/
inductive Effect
  | clearTyping (sender : Str)
  | storeMessage (channel : Value) (sender : Str) (body : LiveBody) (ts : Number)
  | presence (sender : Str) (value : GameClaim)
  | want (sender : Str) (value : GameClaim)
  | typing (sender : Str) (channel : Value)
  | reaction (channel : Str) (target : Str × Number) (emo : Str) (adding : Bool) (sender : Str)
      (at_ : Number)
  | editMessage (channel : Str) (sender : Str) (ts : Number) (text : Str) (at_ : Number)
  | deleteMessage (channel : Str) (sender : Str) (ts : Number) (at_ : Number)
  | refreshMessages
  | systemMessage (text : Str) (channel : Option Value)
  | applyRetention (channel : Value)
  | backfillHistory
  | backup
  | quorumCheck (id : Value)
  | renameMessages (source target : Value)
  | deleteMessages (channel : Value)
  | leaveVoice
  | refreshRoles

/-- What an envelope is applied with: the resolved answer to whether the sender is an admin, the
injected clock, the device's own clock, and the call this device is in. -/
structure Ctx where
  isAdmin : Option Bool
  now : Number
  clock : Number
  inCall : Option (Str × Str)
  platform : Platform

/-- One authenticated envelope on its way into the record of a circle. -/
structure Envelope where
  server : Str
  sender : Str
  content : Value
  ctx : Ctx

def Envelope.field (env : Envelope) (name : String) : Value := env.content.get (lit name)

/-- `isAdmin === true`. -/
def Ctx.admin (ctx : Ctx) : Bool := ctx.isAdmin = some true

/-! ### Kinds -/

inductive Kind
  | chat | game | file | pres | want | type | react | edit | del | rsvp | meta_ | chanset
  | overview | notice | offer | quorum | threshold | chan | vchan | chanRen | chanDel
  | vchanRen | vchanDel | role
deriving DecidableEq

def Kind.names : List (Str × Kind) :=
  [(lit "chat", .chat), (lit "game", .game), (lit "file", .file), (lit "pres", .pres),
    (lit "want", .want), (lit "type", .type), (lit "react", .react), (lit "edit", .edit),
    (lit "del", .del), (lit "rsvp", .rsvp), (lit "meta", .meta_), (lit "chanset", .chanset),
    (lit "overview", .overview), (lit "notice", .notice), (lit "offer", .offer),
    (lit "quorum", .quorum), (lit "threshold", .threshold), (lit "chan", .chan),
    (lit "vchan", .vchan), (lit "chan-ren", .chanRen), (lit "chan-del", .chanDel),
    (lit "vchan-ren", .vchanRen), (lit "vchan-del", .vchanDel), (lit "role", .role)]

/-- `content?.k`. -/
def Kind.ofContent (content : Value) : Option Kind :=
  match content.get (lit "k") with
  | .str s => (Kind.names.find? fun p => p.1 == s).map Prod.snd
  | _ => none

/-- A field of the content is the given string. -/
def isOp (op : Value) (name : String) : Bool := op.strictEq (.str (lit name))

/-- What an envelope asks of its sender. -/
structure Requirement where
  destructive : Bool
  authorMayPass : Bool := false
deriving DecidableEq

/-- `adminRequirement(content)`. -/
def adminRequirement (content : Value) : Option Requirement :=
  let removal (op : String) : Option Requirement :=
    if isOp (content.get (lit "op")) op then some { destructive := true, authorMayPass := true }
    else none
  match Kind.ofContent content with
  | some .chan | some .vchan | some .overview => some { destructive := false }
  | some .chanset | some .chanRen | some .chanDel | some .vchanRen | some .vchanDel =>
    some { destructive := true }
  | some .notice | some .offer => removal "del"
  | some .quorum => removal "withdraw"
  | some .threshold => some { destructive := true }
  | _ => none

/-! ### Texts -/

/-- `describeRetention(seconds)`. -/
def describeRetention (seconds : Value) : Except Error Str := do
  if !seconds.truthy then
    return lit "off"
  let n ← seconds.toNum
  let counted (unit : ℕ) (name : String) : Str :=
    let d := n.div unit
    if d.strictEq (.ofRat 1) then lit ("1 " ++ name) else d.toStr ++ lit (" " ++ name ++ "s")
  if (n.mod 86400).strictEq 0 then
    return counted 86400 "day"
  if (n.mod 3600).strictEq 0 then
    return counted 3600 "hour"
  return (← seconds.toStr) ++ lit "s"

/-- `describeChanMeta(meta)`.  Only `undefined` has the default `{}`. -/
def describeChanMeta (settings : Value) : Except Error Str := do
  if let .null := settings then
    .error .typeError
  let retention := settings.get (lit "retention")
  let topic := settings.get (lit "topic")
  let first ←
    if retention.truthy then do
      pure (lit "auto-delete: " ++ (← describeRetention retention))
    else pure (lit "auto-delete: off")
  let parts ←
    if topic.truthy then do
      pure [first, lit "topic: “" ++ (← topic.toStr) ++ lit "”"]
    else pure [first]
  return lit " (" ++ join (lit ", ") parts ++ lit ")"

/-! ### Rooms -/

/-- How many removed names a record remembers. -/
def DELETED_MAX : ℕ := 200

/-- `isCallChat(channel)`. -/
def isCallChat : Value → Bool
  | .str s => (lit "voice:").isPrefixOf s
  | _ => false

/-- `list.includes(v)`. -/
def includes (l : List Value) (v : Value) : Bool := l.any (· == v)

/-- Remember a removed name. -/
def markDeleted (deleted : Option (List Value)) (ch : Value) : Option (List Value) :=
  let names := unique (deleted.getD [] ++ [ch])
  some (names.drop (names.length - DELETED_MAX))

/-- Forget a removed name. -/
def clearDeleted (deleted : Option (List Value)) (ch : Value) : Option (List Value) :=
  deleted.map fun names => names.filter fun c => !c.strictEq ch

/-- The voice rooms, by default one. -/
def Rooms.voice (rooms : Rooms) : List Value := rooms.voiceChannels.getD [.str (lit "lounge")]

/-- `ensureChannel(record, ch)`. -/
def Rooms.ensureChannel (rooms : Rooms) (ch : Value) : Rooms :=
  if isCallChat ch || includes rooms.channels ch then rooms
  else if includes (rooms.deletedChannels.getD []) ch then rooms
  else { rooms with channels := rooms.channels ++ [ch] }

/-- Put `target` in the place of every `source`. -/
def renameIn (source target : Value) (l : List Value) : List Value :=
  l.map fun c => if c.strictEq source then target else c

/-- Take every `ch` out. -/
def removeFrom (ch : Value) (l : List Value) : List Value := l.filter fun c => !c.strictEq ch

/-- `record.chanMeta?.[key]`. -/
def Rooms.settings (rooms : Rooms) (key : Str) : Value :=
  match rooms.chanMeta with
  | some table => table.get key
  | none => .undefined

/-- `{ at, ts }`, an answer to an event. -/
def rsvpEntry (at_ ts : Number) : Value :=
  .ofDict (Dict.ofList [(lit "at", .num at_), (lit "ts", .num ts)])

namespace Envelope

variable (env : Envelope)

/-- `inThisCall(ch)`. -/
def inThisCall (ch : Value) : Bool :=
  match env.ctx.inCall with
  | some (server, channel) => server == env.server && (Value.str channel).strictEq ch
  | none => false

def applyChat : Act Effect Rooms Unit := do
  .update (·.ensureChannel (env.field "ch"))
  .emit (.clearTyping env.sender)
  let reply ← .lift (normalizeReply (env.field "reply"))
  let ts ← .lift (messageTs (env.field "ts") env.ctx.now)
  .emit (.storeMessage (env.field "ch") env.sender (.text (env.field "text") reply) ts)

def applyGame : Act Effect Rooms Unit := do
  match ← Act.lift (normalizeGameRef (env.field "game")) with
  | none => pure ()
  | some game =>
    .update (·.ensureChannel (env.field "ch"))
    let ts ← .lift (messageTs (env.field "ts") env.ctx.now)
    .emit (.storeMessage (env.field "ch") env.sender (.game game) ts)

def applyFile : Act Effect Rooms Unit := do
  .update (·.ensureChannel (env.field "ch"))
  let ts ← .lift (messageTs (env.field "ts") env.ctx.now)
  .emit (.storeMessage (env.field "ch") env.sender (.file (env.field "file")) ts)

/-- Settings of a channel.  The sender's copy counts for the settings, never for the keys. -/
def applyChanset : Act Effect Rooms Unit := do
  let ch := env.field "ch"
  .update fun rooms =>
    if includes rooms.channels ch then rooms else { rooms with channels := rooms.channels ++ [ch] }
  let rooms ← .read
  let key ← .lift ch.toStr
  let incoming := (env.field "meta").orElse (.ofDict Dict.empty)
  let merged ← .lift (mergeChanKeys (rooms.settings key) incoming false)
  .update fun rooms => { rooms with chanMeta := some ((rooms.chanMeta.getD .empty).define key merged) }
  let described ← .lift (describeChanMeta (env.field "meta"))
  .emit (.systemMessage
    (lit "#" ++ key ++ lit " settings changed by " ++ env.sender ++ described) (some ch))
  .emit (.applyRetention ch)
  .emit .backfillHistory
  .emit .backup

def applyChan : Act Effect Rooms Unit := do
  let ch := env.field "ch"
  .update fun rooms => { rooms with deletedChannels := clearDeleted rooms.deletedChannels ch }
  let rooms ← .read
  if includes rooms.channels ch then
    pure ()
  else
    .update fun rooms => { rooms with channels := rooms.channels ++ [ch] }
    let name ← .lift ch.toStr
    .emit (.systemMessage (lit "#" ++ name ++ lit " created by " ++ env.sender) (some ch))
    .emit .backup

def applyVchan : Act Effect Rooms Unit := do
  let ch := env.field "ch"
  .update fun rooms => { rooms with deletedVoice := clearDeleted rooms.deletedVoice ch }
  let rooms ← .read
  if includes rooms.voice ch then
    pure ()
  else
    .update fun rooms => { rooms with voiceChannels := some (rooms.voice ++ [ch]) }
    let name ← .lift ch.toStr
    .emit (.systemMessage
      (lit "voice room \"" ++ name ++ lit "\" created by " ++ env.sender) none)

def moveSettings (ch to_ : Value) : Act Effect Rooms Unit := do
  let rooms ← .read
  match rooms.chanMeta with
  | none => pure ()
  | some table =>
    let source ← .lift ch.toStr
    if (table.get source).truthy then
      let target ← .lift to_.toStr
      .update fun rooms =>
        { rooms with chanMeta := some ((table.define target (table.get source)).delete source) }

def dropSettings (ch : Value) : Act Effect Rooms Unit := do
  let rooms ← .read
  match rooms.chanMeta with
  | none => pure ()
  | some table =>
    let key ← .lift ch.toStr
    if (table.get key).truthy then
      .update fun rooms => { rooms with chanMeta := some (table.copy.delete key) }

/-- Leave the call in a room that goes away. -/
def leaveCall {σ : Type} (ch : Value) : Act Effect σ Unit :=
  if env.inThisCall ch then .emit .leaveVoice else pure ()

/-- A channel takes another name, and its settings move along. -/
def applyChanRen : Act Effect Rooms Unit := do
  let ch := env.field "ch"
  let to_ := env.field "to"
  let rooms ← .read
  if includes rooms.channels ch && !includes rooms.channels to_ then
    .update fun rooms => { rooms with channels := renameIn ch to_ rooms.channels }
    .update fun rooms => { rooms with deletedChannels := markDeleted rooms.deletedChannels ch }
    .update fun rooms => { rooms with deletedChannels := clearDeleted rooms.deletedChannels to_ }
    moveSettings ch to_
    .emit (.renameMessages ch to_)
    let source ← .lift ch.toStr
    let target ← .lift to_.toStr
    .emit (.systemMessage (lit "#" ++ source ++ lit " renamed to #" ++ target) (some to_))
    .emit .refreshMessages
    .emit .backup

/-- A channel is removed, but never the last one. -/
def applyChanDel : Act Effect Rooms Unit := do
  let ch := env.field "ch"
  let rooms ← .read
  if includes rooms.channels ch && 1 < rooms.channels.length then
    .update fun rooms => { rooms with channels := removeFrom ch rooms.channels }
    .update fun rooms => { rooms with deletedChannels := markDeleted rooms.deletedChannels ch }
    dropSettings ch
    .emit (.deleteMessages ch)
    let name ← .lift ch.toStr
    .emit (.systemMessage (lit "#" ++ name ++ lit " deleted by " ++ env.sender) none)
    .emit .backup

def applyVchanRen : Act Effect Rooms Unit := do
  let ch := env.field "ch"
  let to_ := env.field "to"
  let rooms ← .read
  if includes rooms.voice ch && !includes rooms.voice to_ then
    .update fun rooms => { rooms with voiceChannels := some (renameIn ch to_ rooms.voice) }
    .update fun rooms => { rooms with deletedVoice := markDeleted rooms.deletedVoice ch }
    .update fun rooms => { rooms with deletedVoice := clearDeleted rooms.deletedVoice to_ }
    env.leaveCall ch
    let source ← .lift ch.toStr
    let target ← .lift to_.toStr
    .emit (.systemMessage
      (lit "voice room \"" ++ source ++ lit "\" renamed to \"" ++ target ++ lit "\"") none)
    .emit .backup

def applyVchanDel : Act Effect Rooms Unit := do
  let ch := env.field "ch"
  let rooms ← .read
  if includes rooms.voice ch then
    .update fun rooms => { rooms with voiceChannels := some (removeFrom ch rooms.voice) }
    .update fun rooms => { rooms with deletedVoice := markDeleted rooms.deletedVoice ch }
    env.leaveCall ch
    let name ← .lift ch.toStr
    .emit (.systemMessage
      (lit "voice room \"" ++ name ++ lit "\" deleted by " ++ env.sender) none)
    .emit .backup

/-! ### The board -/

/-- A change to a list on the board. -/
def applyNotice : Act Effect Board Unit := do
  let op := env.field "op"
  let board ← .read
  if isOp op "add" then
    match ← Act.lift (normalizeNotice (env.field "n") (.str env.sender) env.ctx.clock) with
    | none => pure ()
    | some notice =>
      .update fun board => { board with notices := upsertNotice (board.notices.getD []) notice }
      .emit .backup
  else if isOp op "del" then
    let named (n : Notice) : Bool := (Value.str n.id).strictEq (env.field "id")
    match (board.notices.getD []).find? named with
    | none => pure ()
    | some target =>
      if canRemoveNotice target env.sender env.ctx.admin then
        .update fun board => { board with notices := board.notices.map (·.filter (!named ·)) }
        .emit .backup

/-- A change to the offers: post one, take a seat as oneself, or take one down. -/
def applyOffer : Act Effect Board Unit := do
  let op := env.field "op"
  let board ← .read
  if isOp op "add" then
    match ← Act.lift (normalizeOffer (env.field "o") (.str env.sender) env.ctx.clock) with
    | none => pure ()
    | some offer =>
      .update fun board => { board with offers := upsertOffer (board.offers.getD []) offer }
      .emit .backup
  else if isOp op "take" then
    let taking := !(env.field "taking").strictEq (.bool false)
    .update fun board =>
      { board with offers := applyTake (board.offers.getD []) (env.field "id") env.sender taking }
    .emit .backup
  else if isOp op "del" then
    let named (o : Offer) : Bool := (Value.str o.id).strictEq (env.field "id")
    match (board.offers.getD []).find? named with
    | none => pure ()
    | some target =>
      if canRemoveOffer target env.sender env.ctx.admin then
        .update fun board => { board with offers := board.offers.map (·.filter (!named ·)) }
        .emit .backup

def applyOverview : Act Effect Board Unit := do
  let overview ← .lift (normalizeOverview env.ctx.platform (env.field "ov") env.ctx.clock)
  .update fun board => { board with overview }
  .emit (.systemMessage (lit "home base updated by " ++ env.sender) none)
  .emit .backup

def applyRsvp : Act Effect Board Unit := do
  let at_ ← .lift (env.field "at").toNum
  if at_.isFinite then
    .update fun board =>
      let rsvps := (board.rsvps.getD .empty).copy
      { board with
        rsvps :=
          if (env.field "going").truthy then
            rsvps.assign env.sender (rsvpEntry at_ env.ctx.now)
          else rsvps.delete env.sender }

/-! ### The ledger -/

/-- A voice on the ledger.  The signer is the sender, always. -/
def applyQuorum : Act Effect Ledger Unit := do
  let op := env.field "op"
  let id := env.field "id"
  let ledger ← .read
  let list := ledger.proposals.getD []
  if isOp op "propose" then
    match ← Act.lift (normalizeProposal env.ctx.platform (env.field "p") (.str env.sender)
        env.ctx.clock) with
    | none => pure ()
    | some proposal =>
      .update fun ledger => { ledger with proposals := upsertProposal list proposal }
      .emit (.quorumCheck (.str proposal.id))
      .emit .backup
  else if isOp op "sign" then
    .update fun ledger =>
      { ledger with proposals := applySignature list id env.sender env.ctx.clock }
    .emit (.quorumCheck id)
    .emit .backup
  else if isOp op "object" then
    let proposals ← .lift
      (applyObjection list id env.sender (env.field "why") env.ctx.clock)
    .update fun ledger => { ledger with proposals }
    .emit .backup
  else if isOp op "withdraw" then
    let named (p : Proposal) : Bool := (Value.str p.id).strictEq id
    match list.find? named with
    | none => pure ()
    | some target =>
      if canWithdraw target env.sender env.ctx.admin then
        .update fun ledger => { ledger with proposals := list.filter (!named ·) }
        .emit .backup

/-- How many signatures a new member needs. -/
def applyThreshold (memberCount : ℕ) : Act Effect Ledger Unit := do
  let threshold ← .lift (normalizeThreshold (env.field "n") memberCount)
  .update fun ledger => { ledger with threshold := some threshold }
  .emit (.systemMessage (env.sender ++ lit " set the signatures a new member needs to " ++
    (Number.ofRat threshold).toStr) none)
  .emit .backup

/-! ### Envelopes that only have effects -/

def applyReact {σ : Type} : Act Effect σ Unit := do
  let emo := trim (slice (← .lift (env.field "emo").text) 8)
  let to_ := (env.field "to").orElse (.ofDict Dict.empty)
  let target := to_.get (lit "sender")
  if emo = [] || !target.truthy then
    pure ()
  else
    let ts ← .lift (to_.get (lit "ts")).toNum
    if ts.isFinite then
      let channel ← .lift (env.field "ch").text
      let name ← .lift target.toStr
      let at_ ← .lift (messageTs (env.field "ts") env.ctx.now)
      .emit (.reaction channel (name, ts) emo (!isOp (env.field "op") "del") env.sender at_)
      .emit .refreshMessages

def applyEdit {σ : Type} : Act Effect σ Unit := do
  let ts ← .lift ((env.field "to").get (lit "ts")).toNum
  let text ← .lift (env.field "text").text
  if ts.isFinite && text ≠ [] then
    let channel ← .lift (env.field "ch").text
    let at_ ← .lift (messageTs (env.field "ts") env.ctx.now)
    .emit (.editMessage channel env.sender ts text at_)
    .emit .refreshMessages

def applyDel {σ : Type} : Act Effect σ Unit := do
  let ts ← .lift ((env.field "to").get (lit "ts")).toNum
  if ts.isFinite then
    let channel ← .lift (env.field "ch").text
    let at_ ← .lift (messageTs (env.field "ts") env.ctx.now)
    .emit (.deleteMessage channel env.sender ts at_)
    .emit .refreshMessages

/-- A change of role, which the relay keeps. -/
def applyRole {σ : Type} : Act Effect σ Unit := do
  let user ← .lift (env.field "user").toStr
  let role := if isOp (env.field "role") "admin" then lit "an admin" else lit "a regular member"
  .emit (.systemMessage
    (user ++ lit " is now " ++ role ++ lit " (changed by " ++ env.sender ++ lit ")") none)
  .emit .refreshRoles

/-! ### The rebroadcast -/

/-- What a rebroadcast says of the rooms, where it says anything. -/
structure RoomsSnapshot where
  channels : Option (List Value)
  voiceChannels : Option (List Value)
  chanMeta : Option Table

/-- What a rebroadcast says of the board.  An overview that says nothing clears the page. -/
structure BoardSnapshot where
  overview : Option (Option Overview)
  notices : Option (List Notice)
  offers : Option (List Offer)
  rsvps : Option Table

/-- A list of rooms in a rebroadcast: an array that is not empty. -/
def listedRooms (v : Value) : Option (List Value) :=
  match arrayOrEmpty v with
  | [] => none
  | rooms => some (unique rooms)

/-- The settings of channels in a rebroadcast: an object. -/
def listedMeta (v : Value) : Option Table :=
  if v.truthy && v.isObject then some (.ofValue v) else none

/-- The answers in a rebroadcast, at most 64, on top of a table, leaving out `known` handles. -/
def gatherRsvps (clock : Number) (known : Table → Str → Bool) (start : Table) (v : Value) :
    Except Error Table :=
  (v.ownProps.take 64).foldlM (fun table (handle, answer) => do
    let at_ ← (answer.get (lit "at")).toNum
    if !at_.isFinite || known table handle then
      return table
    let ts ← (answer.get (lit "ts")).toNum
    return table.assign (slice handle 64) (rsvpEntry at_ (if ts.truthy then ts else clock))) start

/-- A computation made only on an array. -/
def onArray {α : Type} (v : Value) (f : List Value → Except Error α) : Except Error (Option α) :=
  match v with
  | .arr _ l => (f l).map some
  | _ => .ok none

/-- The home base of a rebroadcast, if it says anything about one. -/
def listedOverview : Except Error (Option (Option Overview)) :=
  let page := env.field "overview"
  if page.isUndefined then .ok none
  else (normalizeOverview env.ctx.platform page env.ctx.clock).map some

/-- The answers of a rebroadcast. -/
def listedRsvps : Except Error (Option Table) :=
  let listed := env.field "rsvps"
  if listed.truthy && listed.isObject then
    (gatherRsvps env.ctx.clock (fun _ _ => false) .empty listed).map some
  else .ok none

/-- `reconcileMeta(content)`. -/
def reconcileMeta : Except Error (RoomsSnapshot × BoardSnapshot) := do
  let clock := env.ctx.clock
  let overview ← env.listedOverview
  let offers ← onArray (env.field "offers") (normalizeOffers · clock)
  let notices ← onArray (env.field "notices") fun l =>
    (normalizeNotices l clock).map fun l => (newestFirst Notice.ts l).take NOTICES_MAX
  let rsvps ← env.listedRsvps
  let rooms : RoomsSnapshot :=
    { channels := listedRooms (env.field "channels")
      voiceChannels := listedRooms (env.field "voiceChannels")
      chanMeta := listedMeta (env.field "chanMeta") }
  return (rooms, { overview, notices, offers, rsvps })

/-- The rooms of a snapshot in place of the record's.  What it lists is no tombstone. -/
def adoptRooms (rooms : Rooms) (snapshot : RoomsSnapshot) : Rooms :=
  let channels := snapshot.channels.getD rooms.channels
  let voiceChannels := snapshot.voiceChannels.or rooms.voiceChannels
  { channels
    voiceChannels
    chanMeta := snapshot.chanMeta.or rooms.chanMeta
    deletedChannels := rooms.deletedChannels.map (·.filter fun c => !includes channels c)
    deletedVoice :=
      rooms.deletedVoice.map (·.filter fun c => !includes (voiceChannels.getD []) c) }

/-- The board of a snapshot in place of the record's. -/
def adoptBoard (board : Board) (snapshot : BoardSnapshot) : Board where
  overview := snapshot.overview.getD board.overview
  notices := snapshot.notices.or board.notices
  offers := snapshot.offers.or board.offers
  rsvps := snapshot.rsvps.or board.rsvps

/-- The rooms of a list that are neither there nor removed, added to it. -/
def fillList (have_ deleted listed : List Value) : List Value :=
  listed.foldl (fun l ch => if includes l ch || includes deleted ch then l else l ++ [ch]) have_

/-- The rooms this device is missing, but none it has seen deleted. -/
def fillRooms : Act Effect Rooms Unit := do
  let listed ← .lift (env.field "channels").elements
  .update fun rooms =>
    { rooms with channels := fillList rooms.channels (rooms.deletedChannels.getD []) listed }
  let voice := env.field "voiceChannels"
  if voice.truthy then
    let listed ← .lift voice.iterate
    .update fun rooms =>
      { rooms with voiceChannels := fillList rooms.voice (rooms.deletedVoice.getD []) listed }

/-- The home base, for a device that has none. -/
def fillOverview : Act Effect Board Unit := do
  let listed := env.field "overview"
  let board ← .read
  if !listed.isUndefined && board.overview.isNone then
    match ← Act.lift (normalizeOverview env.ctx.platform listed env.ctx.clock) with
    | none => pure ()
    | some overview =>
      .update fun board => { board with overview := some overview }
      .emit .backup

def fillNotices : Act Effect Board Unit := do
  let listed := arrayOrEmpty (env.field "notices")
  if listed ≠ [] then
    let incoming ← .lift (normalizeNotices listed env.ctx.clock)
    let board ← .read
    let mine := board.notices.getD []
    let merged := mergeNotices mine incoming
    if merged.length ≠ mine.length then
      .update fun board => { board with notices := merged }
      .emit .backup

def fillOffers : Act Effect Board Unit := do
  let listed := arrayOrEmpty (env.field "offers")
  if listed ≠ [] then
    let incoming ← .lift (normalizeOffers listed env.ctx.clock)
    let board ← .read
    let mine := board.offers.getD []
    let merged := mergeOffers mine incoming
    if merged.length ≠ mine.length then
      .update fun board => { board with offers := merged }
      .emit .backup

def fillProposals : Act Effect Ledger Unit := do
  let listed := arrayOrEmpty (env.field "proposals")
  if listed ≠ [] then
    let incoming ← .lift (normalizeProposals env.ctx.platform listed env.ctx.clock)
    let ledger ← .read
    let mine := ledger.proposals.getD []
    let merged := mergeProposals mine incoming
    if merged.length ≠ mine.length then
      .update fun ledger => { ledger with proposals := merged }
      .emit .backup

/-- The threshold, for a device that has none. -/
def fillThreshold (memberCount : ℕ) : Act Effect Ledger Unit := do
  let listed := env.field "threshold"
  let ledger ← .read
  if !listed.isUndefined && ledger.threshold.isNone then
    let threshold ← .lift (normalizeThreshold listed memberCount)
    .update fun ledger => { ledger with threshold := some threshold }
    .emit .backup

def fillRsvps : Act Effect Board Unit := do
  let listed := env.field "rsvps"
  if listed.truthy && listed.isObject then
    let board ← .read
    let mine := (board.rsvps.getD .empty).copy
    let merged ← .lift
      (gatherRsvps env.ctx.clock (fun table handle => (table.get handle).truthy) mine listed)
    .update fun board => { board with rsvps := merged }

/-- One channel of a rebroadcast merged into a table of settings. -/
def mergeInto (table : Table) (p : Str × Value) : Except Error Table := do
  return table.assign p.1 (← mergeChanKeys (table.get p.1) p.2 true)

/-- The entries of a rebroadcast merged in one by one.  A table that exists is written in place; a
device without one adopts the finished table. -/
def fillEntries (listed : List (Str × Value)) : Act Effect Rooms Unit := do
  let rooms ← .read
  match rooms.chanMeta with
  | none =>
    let table ← .lift (listed.foldlM mergeInto .empty)
    .update fun rooms => { rooms with chanMeta := some table }
  | some _ =>
    listed.forM fun p => do
      let rooms ← .read
      let table ← .lift (mergeInto (rooms.chanMeta.getD .empty) p)
      .update fun rooms => { rooms with chanMeta := some table }

/-- The settings and keys of channels. -/
def fillChanMeta : Act Effect Rooms Unit := do
  let listed := env.field "chanMeta"
  if listed.truthy then
    fillEntries listed.ownProps
    .emit .backfillHistory

end Envelope

/-! ### The reducer -/

namespace Record

def onRooms {α : Type} (x : Act Effect Rooms α) : Act Effect Record α :=
  .zoom Record.rooms (fun record rooms => { record with rooms }) x

def onBoard {α : Type} (x : Act Effect Board α) : Act Effect Record α :=
  .zoom Record.board (fun record board => { record with board }) x

def onLedger {α : Type} (x : Act Effect Ledger α) : Act Effect Record α :=
  .zoom Record.ledger (fun record ledger => { record with ledger }) x

end Record

namespace Envelope

variable (env : Envelope)

/-- The snapshot of a rebroadcast adopted wholesale, by a device that missed changes. -/
def adoptMeta : Act Effect Record Unit := do
  .update fun record => { record with pendingMetaSync := false }
  let (rooms, board) ← .lift env.reconcileMeta
  .update fun record =>
    { record with
      rooms := adoptRooms record.rooms rooms
      board := adoptBoard record.board board }
  .emit .backfillHistory
  .emit .backup

/-- What this device is missing taken from a rebroadcast. -/
def fillMeta (memberCount : ℕ) : Act Effect Record Unit := do
  Record.onRooms env.fillRooms
  Record.onBoard env.fillOverview
  Record.onBoard env.fillNotices
  Record.onBoard env.fillOffers
  Record.onLedger env.fillProposals
  Record.onLedger (env.fillThreshold memberCount)
  Record.onBoard env.fillRsvps
  Record.onRooms env.fillChanMeta

/-- `applyMeta(record, content, emit)`. -/
def applyMeta : Act Effect Record Unit := do
  .update fun record => { record with name := (env.field "name").orElse record.name }
  let record ← .read
  if record.pendingMetaSync then env.adoptMeta else env.fillMeta record.memberCount

/-- The reducer of one kind. -/
def applyKind (kind : Kind) : Act Effect Record Unit := do
  let record ← .read
  match kind with
  | .chat => Record.onRooms env.applyChat
  | .game => Record.onRooms env.applyGame
  | .file => Record.onRooms env.applyFile
  | .pres =>
    let value ← .lift (normalizePresence env.content env.ctx.clock)
    .emit (.presence env.sender value)
  | .want =>
    let value ← .lift (normalizeWant env.content env.ctx.clock)
    .emit (.want env.sender value)
  | .type => .emit (.typing env.sender (env.field "ch"))
  | .react => env.applyReact
  | .edit => env.applyEdit
  | .del => env.applyDel
  | .rsvp => Record.onBoard env.applyRsvp
  | .meta_ => env.applyMeta
  | .chanset => Record.onRooms env.applyChanset
  | .overview => Record.onBoard env.applyOverview
  | .notice => Record.onBoard env.applyNotice
  | .offer => Record.onBoard env.applyOffer
  | .quorum => Record.onLedger env.applyQuorum
  | .threshold => Record.onLedger (env.applyThreshold record.memberCount)
  | .chan => Record.onRooms env.applyChan
  | .vchan => Record.onRooms env.applyVchan
  | .chanRen => Record.onRooms env.applyChanRen
  | .chanDel => Record.onRooms env.applyChanDel
  | .vchanRen => Record.onRooms env.applyVchanRen
  | .vchanDel => Record.onRooms env.applyVchanDel
  | .role => env.applyRole

/-- The gate: an envelope that needs an admin and was not sent by one. -/
def refused : Bool :=
  match adminRequirement env.content with
  | some need => !need.authorMayPass && !env.ctx.admin
  | none => false

end Envelope

/-- `applyEnvelope(record, sender, content, ctx)`. -/
def applyEnvelope (sender : Str) (content : Value) (ctx : Ctx) : Act Effect Record Unit := do
  let record ← .read
  let env : Envelope := { server := record.id, sender, content, ctx }
  if env.refused then
    pure ()
  else if content.isNullish then
    .throw .typeError
  else
    match Kind.ofContent content with
    | some kind => env.applyKind kind
    | none => pure ()

/-! ### Runs -/

/-- An envelope as it reaches a device, with what it is applied with there. -/
structure Delivery where
  sender : Str
  content : Value
  ctx : Ctx

/-- The record after an envelope, whether or not the reducer threw. -/
def Delivery.apply (record : Record) (e : Delivery) : Record :=
  (applyEnvelope e.sender e.content e.ctx record).state

/-- The record after envelopes one after the other. -/
def runEnvelopes (record : Record) (envelopes : List Delivery) : Record :=
  envelopes.foldl Delivery.apply record

end Quorum
