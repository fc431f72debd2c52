import Quorum.Js.Act
import Quorum.Js.Dict

/-!
# Calls

A device is in at most one call, which is a room of a circle (`voice.js`).  It has a leg to every
other participant, and hears of calls in all rooms of all its circles: who is in them, who shares a
screen or a camera, and who is muted.

Legs and what arrives over them are kept under the handle of the other member alone, while presence
is kept by room.  What happens on one leg is not modelled here: a leg is of any type, with a
function for a signal that arrives on it.
-/

namespace Quorum.Voice

open Js

/-! ### State -/

/-- A room of a circle.  Its channel is a string here; `acceptRing` joins what the envelope of the
caller has, which may be none. -/
structure Room where
  server : Str
  channel : Str
deriving DecidableEq

/-- A direct call that rings here. -/
structure Ring where
  server : Str
  room : Value
  caller : Str

/-- A direct call that rings at another member. -/
structure Dial where
  server : Str
  room : Str
  callee : Str

inductive VideoKind
  | screen
  | camera
deriving DecidableEq, Repr

/-- `VoiceManager`, as far as envelopes from others and changes of the membership reach.  Of one's
own screen and camera the id of the stream is kept. -/
structure Manager (Leg Stream : Type) where
  me : Str
  active : Option Room
  ring : Option Ring
  dial : Option Dial
  peers : Dict Str Leg
  presence : Dict Str (List Str)
  share : Option Value
  shares : Dict Str Str
  remoteScreens : Dict Str Stream
  camera : Option Value
  cameras : Dict Str Str
  remoteCameras : Dict Str Stream
  videoKind : Dict Value VideoKind
  unroutedVideo : Dict Value (Str × Stream)
  mutedPeers : List Str
  muted : Bool

inductive Effect
  | send (server : Str) (content : Value)
  | notify (text : Str)
  | announce (text : Str)
  | chime (joined : Bool)
  | callStarted (server : Str) (channel : Value) (name : Str)
  | publish

/-- Legs: a new one, an offer on it, and what a signal makes of it.  What is sent is given by the
fields of the envelope that are not about its address. -/
structure Rtc (Leg : Type) where
  create : Leg
  offer : Leg → Leg × List (Str × Value)
  signal : Leg → Value → Leg × List (List (Str × Value))

/-- Legs of which only the number matters. -/
def noLegs : Rtc Unit := ⟨(), fun _ => ((), []), fun _ _ => ((), [])⟩

variable {Leg Stream : Type}

/-- A manager that has just been made. -/
def Manager.start (me : Str) : Manager Leg Stream where
  me := me
  active := none
  ring := none
  dial := none
  peers := .empty
  presence := .empty
  share := none
  shares := .empty
  remoteScreens := .empty
  camera := none
  cameras := .empty
  remoteCameras := .empty
  videoKind := .empty
  unroutedVideo := .empty
  mutedPeers := []
  muted := false

/-- `key(server, channel)`.  A channel that is no string is converted to one. -/
def key (server : Str) (channel : Value) : Except Error Str :=
  channel.toStr.map fun name => server ++ lit "\n" ++ name

/-- `directPeer(channel)`. -/
def Manager.directPeer (s : Manager Leg Stream) (channel : Str) : Option Str :=
  if lit "dm:" <+: channel then ((channel.drop 3).splitOn (unit '+')).find? (· ≠ s.me) else none

/-- `inChannel(server, channel)`. -/
def Manager.inChannel (s : Manager Leg Stream) (server : Str) (channel : Value) : Bool :=
  s.active.any fun room => room.server == server && (Value.str room.channel).strictEq channel

/-! ### Ends of calls -/

def voiceEnvelope (channel : Str) (action : String) (more : List (Str × Value)) : Value :=
  .ofDict (Dict.ofList ([(lit "k", .str (lit "voice")), (lit "ch", .str channel),
    (lit "action", .str (lit action))] ++ more))

/-- `track(server, channel, name, present, announce)`. -/
def track (server : Str) (channel : Value) (name : Str) (present announce : Bool) :
    Act Effect (Manager Leg Stream) Unit := do
  let key ← .lift (key server channel)
  let s ← .read
  let there := (s.presence.get? key).getD []
  if present && announce && there.isEmpty then
    .emit (.callStarted server channel name)
  .update fun s =>
    { s with
      presence := s.presence.set key
        (if present then insertNew there name else there.filter (· ≠ name)) }

/-- `leave()`.  What follows the envelope is taken as done at once.  In the source `dropPeer` does not
wait for it, so that `handleLeave` may find the call still there and send the envelope again. -/
def leave : Act Effect (Manager Leg Stream) Unit := do
  let s ← .read
  match s.active with
  | none => pure ()
  | some room =>
    .emit (.send room.server (voiceEnvelope room.channel "leave" []))
    .update fun s =>
      { s with
        peers := .empty
        share := none
        camera := none
        remoteScreens := .empty
        remoteCameras := .empty
        cameras := .empty
        videoKind := .empty
        unroutedVideo := .empty
        mutedPeers := [] }
    track room.server (.str room.channel) s.me false true
    .update fun s => { s with active := none, muted := false, dial := none }
    .emit .publish

/-- `dropPeer(name)`. -/
def dropPeer (name : Str) : Act Effect (Manager Leg Stream) Unit := do
  let s ← .read
  if s.peers.has name then
    .update fun s =>
      { s with
        peers := s.peers.delete name
        remoteScreens := s.remoteScreens.delete name
        remoteCameras := s.remoteCameras.delete name
        cameras := s.cameras.delete name
        mutedPeers := s.mutedPeers.filter (· ≠ name) }
    let s ← .read
    match s.active with
    | some room =>
      if s.directPeer room.channel = some name ∧ s.peers.size = 0 then
        leave
    | none => pure ()
    .emit .publish

/-- `membershipChanged(server, members)`. -/
def membershipChanged (server : Str) (members : List Str) :
    Act Effect (Manager Leg Stream) Unit := do
  let s ← .read
  s.peers.keys.forM fun name => if members.contains name then pure () else dropPeer name
  let here (key : Str) : Bool := (server ++ lit "\n").isPrefixOf key
  .update fun s =>
    { s with
      presence := s.presence.mapValues fun key there =>
        if here key then there.filter members.contains else there
      shares := s.shares.filter fun name key => !here key || members.contains name
      cameras := s.cameras.filter fun name key => !here key || members.contains name }
  .emit .publish

/-! ### Envelopes -/

/-- `hereEnvelope(channel)`. -/
def hereEnvelope (s : Manager Leg Stream) (channel : Str) : Value :=
  let sharing := s.share.toList.flatMap fun sid =>
    [(lit "sharing", .bool true), (lit "shareSid", sid)]
  let camera := s.camera.toList.flatMap fun sid =>
    [(lit "camera", .bool true), (lit "cameraSid", sid)]
  let muted := if s.muted then [(lit "muted", .bool true)] else []
  voiceEnvelope channel "here" (sharing ++ camera ++ muted)

/-- `attachRemoteVideo(name, stream, track, kind)` for a kind that is known. -/
def attachRemoteVideo (name : Str) (stream : Stream) :
    VideoKind → Act Effect (Manager Leg Stream) Unit
  | .camera => do
    .update fun s => { s with remoteCameras := s.remoteCameras.set name stream }
    .emit .publish
  | .screen => do
    .update fun s => { s with remoteScreens := s.remoteScreens.set name stream }
    .emit .publish

/-- `routeVideo(sid, kind)`. -/
def routeVideo (sid : Value) (kind : VideoKind) : Act Effect (Manager Leg Stream) Unit := do
  if sid.truthy then
    .update fun s => { s with videoKind := s.videoKind.set sid kind }
    let s ← .read
    match s.unroutedVideo.get? sid with
    | none => pure ()
    | some (name, stream) =>
      .update fun s => { s with unroutedVideo := s.unroutedVideo.delete sid }
      attachRemoteVideo name stream kind

def announceShare (server sender : Str) (channel sid : Value) :
    Act Effect (Manager Leg Stream) Unit := do
  let key ← .lift (key server channel)
  .update fun s => { s with shares := s.shares.set sender key }
  routeVideo sid .screen

def announceCamera (server sender : Str) (channel sid : Value) :
    Act Effect (Manager Leg Stream) Unit := do
  let key ← .lift (key server channel)
  .update fun s => { s with cameras := s.cameras.set sender key }
  routeVideo sid .camera

def rtcEnvelope (channel : Value) (name : Str) (signal : List (Str × Value)) : Value :=
  .ofDict (Dict.ofList
    ([(lit "k", .str (lit "rtc")), (lit "ch", channel), (lit "to", .str name)] ++ signal))

/-- `ensurePeer(server, name)`.  Of two members the smaller makes the first offer. -/
def ensurePeer (rtc : Rtc Leg) (server name : Str) (channel : Value) :
    Act Effect (Manager Leg Stream) Unit := do
  let s ← .read
  if s.peers.has name then
    pure ()
  else
    if s.me < name then
      .update fun s => { s with peers := s.peers.set name (rtc.offer rtc.create).1 }
      .emit (.send server (rtcEnvelope channel name (rtc.offer rtc.create).2))
    else
      .update fun s => { s with peers := s.peers.set name rtc.create }
    .emit .publish

/-- `handleSignal(server, sender, content)`. -/
def handleSignal (rtc : Rtc Leg) (server sender : Str) (content : Value) :
    Act Effect (Manager Leg Stream) Unit := do
  let s ← .read
  let isOffer := (content.get (lit "type")).strictEq (.str (lit "offer"))
  match (s.peers.get? sender).or (if isOffer then some rtc.create else none) with
  | none => pure ()
  | some leg =>
    let (leg, replies) := rtc.signal leg content
    .update fun s => { s with peers := s.peers.set sender leg }
    replies.forM fun reply =>
      .emit (.send server (rtcEnvelope (content.get (lit "ch")) sender reply))
    .emit .publish

/-- The actions of an envelope about a call. -/
inductive Action
  | join | here | mute | unmute | share | unshare | camera | uncamera | leave | probe
deriving DecidableEq, Repr

def Action.names : List (Str × Action) :=
  [(lit "join", .join), (lit "here", .here), (lit "mute", .mute), (lit "unmute", .unmute),
    (lit "share", .share), (lit "unshare", .unshare), (lit "camera", .camera),
    (lit "uncamera", .uncamera), (lit "leave", .leave), (lit "probe", .probe)]

/-- `content.action`. -/
def Action.ofContent (content : Value) : Option Action :=
  match content.get (lit "action") with
  | .str s => (Action.names.find? fun p => p.1 == s).map Prod.snd
  | _ => none

/-- An envelope about a ringing call. -/
def ringEnvelope (name : Str) (room : Value) (action : String) : Value :=
  .ofDict (Dict.ofList [(lit "k", .str (lit "ring")), (lit "to", .str name), (lit "ch", room),
    (lit "action", .str (lit action))])

/-- `handleEnvelope` for an envelope about a ringing call. -/
def handleRing (server sender : Str) (content : Value) : Act Effect (Manager Leg Stream) Unit := do
  let s ← .read
  let isAction (name : String) := (content.get (lit "action")).strictEq (.str (lit name))
  if !(content.get (lit "to")).strictEq (.str s.me) then
    pure ()
  else if isAction "invite" then
    if s.active.isSome || s.ring.isSome then
      .emit (.send server (ringEnvelope sender (content.get (lit "ch")) "decline"))
    else
      .update fun s => { s with ring := some ⟨server, content.get (lit "ch"), sender⟩ }
      .emit .publish
  else if isAction "accept" then
    .update fun s => { s with dial := none }
    .emit .publish
  else if isAction "decline" then
    if s.dial.any fun dial => dial.callee == sender then
      .update fun s => { s with dial := none }
      .emit (.notify (sender ++ lit " declined the call"))
      leave
    else
      .emit .publish
  else if isAction "cancel" then
    if s.ring.any fun ring => ring.caller == sender then
      .update fun s => { s with ring := none }
      .emit (.notify (lit "missed call from " ++ sender))
    .emit .publish
  else
    .emit .publish

/-- The end of `join` and `here`, after what is shared was announced. -/
def greet (rtc : Rtc Leg) (server sender : Str) (content : Value) (joins : Bool) :
    Act Effect (Manager Leg Stream) Unit := do
  let ch := content.get (lit "ch")
  .update fun s =>
    { s with
      mutedPeers :=
        if (content.get (lit "muted")).truthy then insertNew s.mutedPeers sender
        else if joins then s.mutedPeers.filter (· ≠ sender)
        else s.mutedPeers }
  let s ← .read
  if s.inChannel server ch then
    if joins then
      .emit (.chime true)
      .emit (.announce (sender ++ lit " joined the call"))
      .emit (.send server (hereEnvelope s ((s.active.map Room.channel).getD [])))
    ensurePeer rtc server sender ch

/-- Someone is in a call: `join` or `here`. -/
def handlePresent (rtc : Rtc Leg) (server sender : Str) (content : Value) (joins : Bool) :
    Act Effect (Manager Leg Stream) Unit := do
  let ch := content.get (lit "ch")
  track server ch sender true joins
  if (content.get (lit "sharing")).truthy then
    announceShare server sender ch (content.get (lit "shareSid"))
  if (content.get (lit "camera")).truthy then
    announceCamera server sender ch (content.get (lit "cameraSid"))
  greet rtc server sender content joins

/-- Someone leaves a call. -/
def handleLeave (server sender : Str) (content : Value) : Act Effect (Manager Leg Stream) Unit := do
  let ch := content.get (lit "ch")
  let wasInMyCall := (← Act.read).inChannel server ch
  track server ch sender false true
  .update fun s => { s with shares := s.shares.delete sender, cameras := s.cameras.delete sender }
  if wasInMyCall then
    .emit (.chime false)
    .emit (.announce (sender ++ lit " left the call"))
  dropPeer sender
  let s ← .read
  match s.active with
  | some room =>
    -- the circle is not compared
    if ch.strictEq (.str room.channel) ∧ s.directPeer room.channel = some sender ∧
        s.peers.size = 0 then
      leave
  | none => pure ()

/-- `handleEnvelope` for an envelope about a call. -/
def handleVoice (rtc : Rtc Leg) (server sender : Str) (content : Value) :
    Act Effect (Manager Leg Stream) Unit := do
  let ch := content.get (lit "ch")
  match Action.ofContent content with
  | some .join => handlePresent rtc server sender content true
  | some .here => handlePresent rtc server sender content false
  | some .mute => .update fun s => { s with mutedPeers := insertNew s.mutedPeers sender }
  | some .unmute => .update fun s => { s with mutedPeers := s.mutedPeers.filter (· ≠ sender) }
  | some .share => announceShare server sender ch (content.get (lit "sid"))
  | some .unshare =>
    .update fun s =>
      { s with shares := s.shares.delete sender, remoteScreens := s.remoteScreens.delete sender }
  | some .camera => announceCamera server sender ch (content.get (lit "sid"))
  | some .uncamera =>
    .update fun s =>
      { s with cameras := s.cameras.delete sender, remoteCameras := s.remoteCameras.delete sender }
  | some .leave => handleLeave server sender content
  | some .probe =>
    let s ← .read
    match s.active with
    | some room =>
      if room.server = server then
        .emit (.send server (hereEnvelope s room.channel))
    | none => pure ()
  | none => pure ()
  .emit .publish

/-- `handleEnvelope(server, sender, content)`. -/
def handleEnvelope (rtc : Rtc Leg) (server sender : Str) (content : Value) :
    Act Effect (Manager Leg Stream) Unit := do
  let s ← .read
  let isKind (name : String) := (content.get (lit "k")).strictEq (.str (lit name))
  if sender = s.me then
    pure ()
  else if isKind "ring" then
    handleRing server sender content
  else if isKind "voice" then
    handleVoice rtc server sender content
  else if isKind "rtc" && (content.get (lit "to")).strictEq (.str s.me) &&
      s.inChannel server (content.get (lit "ch")) then
    handleSignal rtc server sender content

end Quorum.Voice
