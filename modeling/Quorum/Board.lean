import Quorum.Wire

/-!
# The circle's board

The landing page of a circle: its overview with links, a schedule and the game shelf, the
noticeboard, and the offers members claim seats in (`overview.js`, `games.js`, `offers.js`).  All of
it crosses devices in envelopes, so everything is normalized on receive: whitelisted fields of
bounded size, and nothing at all where a payload does not hold up.
-/

namespace Quorum

open Js

/-! ### Times -/

def MIN : Number := .ofRat 60000

/-- How long a past event still counts as upcoming: six hours. -/
def EVENT_GRACE : ℚ := 6 * 3600000

/-- A claimed time that orders a list: clamped to the clock when it is nonsense or in the future. -/
def claimedTime (claimed : Value) (now : Number) : Except Error Number := do
  let t ← claimed.toNum
  return if !t.isFinite || t.le 0 || Number.lt (now.add MIN) t then now else t

/-- `l.sort((a, b) => b.at - a.at)`. -/
def newestFirst {α : Type} (time : α → Number) (l : List α) : List α :=
  l.insertionSort fun a b => Number.lt (time a) (time b) = false

/-- `l.sort((a, b) => a.at - b.at)`. -/
def oldestFirst {α : Type} (time : α → Number) (l : List α) : List α :=
  l.insertionSort fun a b => Number.lt (time b) (time a) = false

/-- The elements of an array, and none of anything else. -/
def arrayOrEmpty : Value → List Value
  | .arr _ l => l
  | _ => []

/-- A text that is left out when empty. -/
def unlessEmpty (s : Str) : Option Str := if s = [] then none else some s

/-! ### The game shelf -/

def GAMES_MAX : ℕ := 24

def GAME_URL_MAX : ℕ := 2048

def GAME_NOTE_MAX : ℕ := 140

structure Game where
  id : Str
  name : Str
  url : Str
  kind : GameKind
  note : Option Str
  glyph : Option Str
deriving DecidableEq

/-- An ASCII letter in lower case. -/
def asciiLower (u : CodeUnit) : CodeUnit :=
  if 65 ≤ u.val ∧ u.val ≤ 90 then Fin.ofNat 65536 (u.val + 32) else u

/-- `activitySrc(url)` accepts: `https://` in any case, or a path on the own origin. -/
def activitySrc (url : Str) : Bool :=
  (url.take 8).map asciiLower = lit "https://" ||
    match url with
    | a :: b :: _ => a = unit '/' && b ≠ unit '/' && b ≠ unit '\\'
    | _ => false

/-- `normalizeGame(g)`. -/
def normalizeGame (g : Value) : Except Error (Option Game) := do
  if !g.truthy || !g.isObject then
    return none
  let id := slice (← (g.get (lit "id")).text) 40
  let name := trim (slice (← (g.get (lit "name")).text) GAME_NAME_MAX)
  let url := trim (slice (← (g.get (lit "url")).text) GAME_URL_MAX)
  let kind := GameKind.ofValue (g.get (lit "kind"))
  let note := trim (slice (← (g.get (lit "note")).text) GAME_NOTE_MAX)
  let glyph := slice (trim (← (g.get (lit "glyph")).text)) 4
  if id = [] ∨ name = [] ∨ url = [] then
    return none
  if kind = .activity ∧ !activitySrc url then
    return none
  return some { id, name, url, kind, note := unlessEmpty note, glyph := unlessEmpty glyph }

/-- `normalizeGames(list)`. -/
def normalizeGames (list : Value) : Except Error (List Game) := do
  let games ← ((arrayOrEmpty list).take GAMES_MAX).mapM normalizeGame
  return games.reduceOption

/-- A claim of a member about a game, with its time: what they play, or what they want to. -/
structure GameClaim where
  game : Option GameRef
  ts : Number
deriving DecidableEq

/-- The claim under a field of a payload.  A sane time is trusted but never in the future. -/
def normalizeClaim (field : Str) (p : Value) (now : Number) : Except Error GameClaim := do
  if !p.truthy || !p.isObject then
    return { game := none, ts := now }
  let game ← normalizeGameRef (p.get field)
  let ts ← (p.get (lit "ts")).toNum
  return { game, ts := if ts.isFinite ∧ Number.lt 0 ts then ts.min now else now }

/-- `normalizePresence(p, now)`. -/
def normalizePresence : Value → Number → Except Error GameClaim := normalizeClaim (lit "playing")

/-- `normalizeWant(w, now)`. -/
def normalizeWant : Value → Number → Except Error GameClaim := normalizeClaim (lit "want")

/-! ### The overview -/

def BLURB_MAX : ℕ := 4000

def LINKS_MAX : ℕ := 12

def EVENTS_MAX : ℕ := 12

structure Link where
  label : Str
  url : Str
deriving DecidableEq

/-- A scheduled event, `gameId` tying it to a game on the shelf. -/
structure Event where
  id : Str
  title : Str
  at_ : Number
  note : Option Str
  gameId : Option Str
deriving DecidableEq

/-- An event in the shape that earlier builds read. -/
structure LegacyEvent where
  title : Str
  at_ : Number
  note : Option Str
deriving DecidableEq

/-- The glyphs a circle can wear. -/
inductive CircleGlyph
  | people
  | games
  | photo
  | project
deriving DecidableEq

/-- `normalizeGlyph(v)`: anything unknown is the default. -/
def normalizeGlyph : Value → CircleGlyph
  | .str s =>
    if s = lit "games" then .games
    else if s = lit "photo" then .photo
    else if s = lit "project" then .project
    else .people
  | _ => .people

/-- The admin-edited half of the page.  A list that is empty stands for a field left out. -/
structure Overview where
  blurb : Str
  links : List Link
  /-- The glyph, when it is not the default. -/
  glyph : Option CircleGlyph
  events : List Event
  /-- The mirror of the soonest event for earlier builds. -/
  event : Option LegacyEvent
  games : List Game
deriving DecidableEq

/-- What the language leaves to tables or to the implementation: lower case beyond ASCII, and the
digits of a number in base 36. -/
structure Platform where
  toLowerCase : Str → Str
  base36 : Number → Str

/-- `Math.round`. -/
def mathRound : Number → Number
  | .fin d => .ofRat ⌊d.val + 1 / 2⌋
  | x => x

section

variable (platform : Platform)

/-- `normalizeEvent(ev)`. -/
def normalizeEvent (ev : Value) : Except Error (Option Event) := do
  if !ev.truthy || !ev.isObject then
    return none
  let title := trim (slice (← (ev.get (lit "title")).text) 120)
  let at_ ← (ev.get (lit "at")).toNum
  let note := trim (slice (← (ev.get (lit "note")).text) 280)
  if title = [] ∨ !at_.isFinite ∨ at_.le 0 then
    return none
  let given := trim (slice (← (ev.get (lit "id")).text) 40)
  let id := if given = [] then unit 'e' :: platform.base36 (mathRound at_) else given
  let gameId := trim (slice (← (ev.get (lit "gameId")).text) 40)
  return some { id, title, at_, note := unlessEmpty note, gameId := unlessEmpty gameId }

/-- The loop of `normalizeEvents`: the first of several events under one id counts, and nothing is
read once there are enough. -/
def gatherEvents : List Value → List Event → Except Error (List Event)
  | [], out => .ok out
  | e :: rest, out =>
    if EVENTS_MAX ≤ out.length then .ok out
    else do
      match ← normalizeEvent platform e with
      | none => gatherEvents rest out
      | some ev =>
        if out.any (·.id == ev.id) then gatherEvents rest out
        else gatherEvents rest (out ++ [ev])

/-- `normalizeEvents(list)`. -/
def normalizeEvents (list : Value) : Except Error (List Event) := do
  let events ← gatherEvents platform (arrayOrEmpty list) []
  return oldestFirst Event.at_ events

/-- `legacyEventMirror(events, now)`: the soonest upcoming event, else the most recent past one. -/
def legacyEventMirror (events : List Event) (now : Number) : Option LegacyEvent :=
  let upcoming := events.filter fun e => (now.add (.ofRat (-EVENT_GRACE))).le e.at_
  (upcoming.head?.or events.getLast?).map fun e => { title := e.title, at_ := e.at_, note := e.note }

/-- A pinned link as received. -/
def normalizeLink (l : Value) : Except Error Link := do
  let label := trim (slice (← (l.get (lit "label")).text) 120)
  let url := trim (slice (← (l.get (lit "url")).text) 2048)
  return { label, url }

/-- `normalizeOverview(ov, now)`. -/
def normalizeOverview (ov : Value) (now : Number) : Except Error (Option Overview) := do
  if !ov.truthy || !ov.isObject then
    return none
  let blurb : Str := match ov.get (lit "blurb") with
    | .str s => trim (slice s BLURB_MAX)
    | _ => []
  let read ← ((arrayOrEmpty (ov.get (lit "links"))).take LINKS_MAX).mapM normalizeLink
  let links : List Link := read.filter fun l => l.url ≠ []
  let event := ov.get (lit "event")
  let events : List Event ← normalizeEvents platform
    ((ov.get (lit "events")).orElse (.ofList (if event.truthy then [event] else [])))
  let games : List Game ← normalizeGames (ov.get (lit "games"))
  let chosen := normalizeGlyph (ov.get (lit "glyph"))
  let glyph : Option CircleGlyph := if chosen = .people then none else some chosen
  if blurb = [] ∧ links = [] ∧ events = [] ∧ games = [] ∧ glyph = none then
    return none
  return some { blurb, links, glyph, events, event := legacyEventMirror events now, games }

end

/-! ### The noticeboard -/

def NOTICE_MAX : ℕ := 500

def NOTICES_MAX : ℕ := 30

structure Notice where
  id : Str
  text : Str
  ts : Number
  author : Str
deriving DecidableEq

/-- `normalizeNotice(n, author, now)`. -/
def normalizeNotice (n author : Value) (now : Number) : Except Error (Option Notice) := do
  if !n.truthy || !n.isObject then
    return none
  let id := slice (← (n.get (lit "id")).text) 40
  let text := trim (slice (← (n.get (lit "text")).text) NOTICE_MAX)
  let ts ← claimedTime (n.get (lit "ts")) now
  if id = [] ∨ text = [] then
    return none
  return some { id, text, ts, author := ← author.text }

/-- `upsertNotice(list, notice)`. -/
def upsertNotice (list : List Notice) (notice : Notice) : List Notice :=
  (newestFirst Notice.ts (notice :: list.filter fun n => n.id ≠ notice.id)).take NOTICES_MAX

/-- The notices of a rebroadcast, the author of each vouched for by the payload. -/
def normalizeNotices (list : List Value) (now : Number) : Except Error (List Notice) := do
  let notices ← list.mapM fun n => normalizeNotice n (n.get (lit "author")) now
  return notices.reduceOption

/-- `mergeNotices(mine, incoming)`: ids this device already has win. -/
def mergeNotices (mine incoming : List Notice) : List Notice :=
  (newestFirst Notice.ts
    (mine ++ incoming.filter fun n => !mine.any (·.id == n.id))).take NOTICES_MAX

/-- `canRemoveNotice(notice, requester, isAdmin)`. -/
def canRemoveNotice (notice : Notice) (requester : Str) (isAdmin : Bool) : Bool :=
  requester == notice.author || isAdmin

/-! ### Offers -/

def OFFER_MAX : ℕ := 200

def OFFERS_MAX : ℕ := 24

def SEATS_MAX : ℕ := 32

/-- An offer: a line on the board, with seats that members take. -/
structure Offer where
  id : Str
  text : Str
  note : Option Str
  seats : ℕ
  ts : Number
  author : Str
  takers : List Str
deriving DecidableEq

/-- The seats of an offer: none unless a number says otherwise, and at most `SEATS_MAX`. -/
def normalizeSeats : Number → ℕ
  | .fin d => min SEATS_MAX ⌊d.val⌋.toNat
  | _ => 0

/-- `normalizeOffer(o, author, now)`. -/
def normalizeOffer (o author : Value) (now : Number) : Except Error (Option Offer) := do
  if !o.truthy || !o.isObject then
    return none
  let id := slice (← (o.get (lit "id")).text) 40
  let text := trim (slice (← (o.get (lit "text")).text) OFFER_MAX)
  let note := trim (slice (← (o.get (lit "note")).text) OFFER_MAX)
  let seats := normalizeSeats (← (o.get (lit "seats")).toNum)
  let ts ← claimedTime (o.get (lit "ts")) now
  if id = [] ∨ text = [] then
    return none
  return some
    { id, text, note := unlessEmpty note, seats, ts, author := ← author.text, takers := [] }

/-- `upsertOffer(list, offer)`: an edit keeps whoever had taken a seat. -/
def upsertOffer (list : List Offer) (offer : Offer) : List Offer :=
  let kept := match list.find? (·.id == offer.id) with
    | some prior => { offer with takers := prior.takers }
    | none => offer
  (newestFirst Offer.ts (kept :: list.filter fun o => o.id ≠ offer.id)).take OFFERS_MAX

/-- One line of `applyTake`: take or give back a seat. -/
def Offer.take (o : Offer) (who : Str) (taking : Bool) : Offer :=
  if !taking then { o with takers := o.takers.filter (· ≠ who) }
  else if who ∈ o.takers then o
  else if o.seats = 0 ∨ o.seats ≤ o.takers.length then o
  else { o with takers := o.takers ++ [who] }

/-- `applyTake(list, id, who, taking)`. -/
def applyTake (list : List Offer) (id : Value) (who : Str) (taking : Bool) : List Offer :=
  list.map fun o => if (Value.str o.id).strictEq id then o.take who taking else o

/-- `canRemoveOffer(offer, requester, isAdmin)`. -/
def canRemoveOffer (offer : Offer) (requester : Str) (isAdmin : Bool) : Bool :=
  offer.author == requester || isAdmin

/-- `mergeOffers(mine, incoming)`: ids this device already has win. -/
def mergeOffers (mine incoming : List Offer) : List Offer :=
  (newestFirst Offer.ts
    (mine ++ incoming.filter fun o => !mine.any (·.id == o.id))).take OFFERS_MAX

/-- One offer of a rebroadcast, which lists its takers. -/
def normalizeListedOffer (o : Value) (now : Number) : Except Error (Option Offer) := do
  match ← normalizeOffer o (o.get (lit "author")) now with
  | none => return none
  | some base =>
    let names ← (arrayOrEmpty (o.get (lit "takers"))).mapM Value.toStr
    let takers := ((unique names).take SEATS_MAX).filter (· ≠ [])
    return some { base with takers := if base.seats = 0 then [] else takers.take base.seats }

/-- `normalizeOffers(list, now)`. -/
def normalizeOffers (list : List Value) (now : Number) : Except Error (List Offer) := do
  let offers ← list.mapM fun o => normalizeListedOffer o now
  return (newestFirst Offer.ts offers.reduceOption).take OFFERS_MAX

end Quorum
