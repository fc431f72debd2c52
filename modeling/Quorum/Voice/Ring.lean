import Quorum.Order.Along
import Quorum.Voice

/-!
# Who ends a ringing call

A device keeps one call that it dialed and one that rings, until they are answered (`voice.js`).
The other party answers or gives up by an envelope, and so may anybody else: an `accept` ends the
dialing whoever it is from, and a `decline` or a `cancel` is compared with the member alone, not with
the circle or the room.

What an envelope does to the two calls is said by `dial_handleRing` and `ring_handleRing`.  In a run
they end by one's own doing or by the other party's exactly if none of these envelopes is a
stranger's (`calls_ended_by_parties_iff`).

An action that waits for the network is taken up to there; `join`, which follows the ringing, is an
action of its own.
-/

namespace Quorum.Voice

open Js

variable {Leg Stream : Type}

/-! ### Local actions -/

/-- `directRoom(a, b)`. -/
def directRoom (a b : Str) : Str :=
  lit "dm:" ++ (if b < a then b ++ lit "+" ++ a else a ++ lit "+" ++ b)

/-- `callUser(server, name)`, which then joins the room. -/
def callUser (server name : Str) : Act Effect (Manager Leg Stream) Unit := do
  let s ← .read
  if name = s.me ∨ s.active.isSome ∨ s.dial.isSome then
    pure ()
  else
    let room := directRoom s.me name
    .update fun s => { s with dial := some ⟨server, room, name⟩ }
    .emit (.send server (ringEnvelope name (.str room) "invite"))

/-- `cancelCall()`. -/
def cancelCall : Act Effect (Manager Leg Stream) Unit := do
  let s ← .read
  match s.dial with
  | none => pure ()
  | some d =>
    .update fun s => { s with dial := none }
    .emit (.send d.server (ringEnvelope d.callee (.str d.room) "cancel"))
    leave

/-- `acceptRing()`, which then joins the room. -/
def acceptRing : Act Effect (Manager Leg Stream) Unit := do
  let s ← .read
  match s.ring with
  | none => pure ()
  | some r =>
    .update fun s => { s with ring := none }
    .emit (.send r.server (ringEnvelope r.caller r.room "accept"))

/-- `declineRing()`. -/
def declineRing : Act Effect (Manager Leg Stream) Unit := do
  let s ← .read
  match s.ring with
  | none => pure ()
  | some r =>
    .update fun s => { s with ring := none }
    .emit (.send r.server (ringEnvelope r.caller r.room "decline"))
    .emit .publish

/-- `MESH_LIMIT`. -/
def MESH_LIMIT : ℕ := 8

/-- `meshFull(count)`. -/
def meshFull (count : ℕ) : Bool := decide (MESH_LIMIT ≤ count)

/-- `meshFullMessage()`. -/
def meshFullMessage : Str :=
  lit ("this call is full (8 people). calls are peer-to-peer, so every extra person costs " ++
    "everyone else bandwidth")

/-- The end of `join(server, channel)`, with the message it throws. -/
def enter (server channel : Str) : Act Effect (Manager Leg Stream) (Except Str Unit) := do
  let s ← .read
  let key ← .lift (key server (.str channel))
  if meshFull ((s.presence.get? key).getD []).length then
    pure (.error meshFullMessage)
  else
    .update fun s => { s with active := some ⟨server, channel⟩, muted := false }
    track server (.str channel) s.me true true
    .emit (.send server (voiceEnvelope channel "join" []))
    .emit .publish
    pure (.ok ())

/-- `join(server, channel)`. -/
def join (server channel : Str) : Act Effect (Manager Leg Stream) (Except Str Unit) := do
  let s ← .read
  if s.active.isSome then
    leave
    enter server channel
  else
    enter server channel

/-! ### What happens to the two calls -/

/-- What an envelope about a ringing call says. -/
inductive RingAction
  | invite | accept | decline | cancel
deriving DecidableEq

/-- What an envelope says to a member, if it is for them. -/
def RingAction.ofContent (me : Str) (content : Value) : Option RingAction :=
  let isAction (name : String) := (content.get (lit "action")).strictEq (.str (lit name))
  if !(content.get (lit "to")).strictEq (.str me) then none
  else if isAction "invite" then some .invite
  else if isAction "accept" then some .accept
  else if isAction "decline" then some .decline
  else if isAction "cancel" then some .cancel
  else none

section

variable {s : Manager Leg Stream} {server sender : Str} {content : Value}

/-- Only who is there changes. -/
theorem track_str (channel name : Str) (present announce : Bool) :
    ∃ presence effects, track server (.str channel) name present announce s =
      ⟨{ s with presence := presence }, effects, .ok ()⟩ := by
  obtain ⟨there, hthere⟩ : ∃ there, (s.presence.get? (server ++ lit "\n" ++ channel)).getD [] = there :=
    ⟨_, rfl⟩
  refine ⟨s.presence.set (server ++ lit "\n" ++ channel)
      (if present then insertNew there name else there.filter (· ≠ name)),
    if present && announce && there.isEmpty then [.callStarted server (.str channel) name] else [], ?_⟩
  simp only [track, bind, Act.lift, Act.read, key, Value.toStr, Except.map, hthere]
  cases present && announce && there.isEmpty <;> rfl

theorem state_track_bind {α : Type} {r : Str} (channel name : Str) (present announce : Bool)
    (f : Unit → Act Effect (Manager Leg Stream) α) :
    ∃ presence, ((track r (.str channel) name present announce >>= f) s).state =
      (f () { s with presence := presence }).state := by
  obtain ⟨presence, effects, htrack⟩ := track_str channel name present announce
  refine ⟨presence, ?_⟩
  rw [Act.state_bind, htrack]

/-- Leaving a call ends the dialing. -/
theorem leave_active {room : Room} (hactive : s.active = some room) :
    ((leave : Act Effect (Manager Leg Stream) Unit) s).state.ring = s.ring ∧
    ((leave : Act Effect (Manager Leg Stream) Unit) s).state.dial = none := by
  unfold leave
  rw [Act.state_read_bind, hactive]
  simp only [Act.state_emit_bind, Act.state_update_bind]
  obtain ⟨presence, hpresence⟩ := state_track_bind (s := { s with
      peers := .empty, share := none, camera := none, remoteScreens := .empty,
      remoteCameras := .empty, cameras := .empty, videoKind := .empty, unroutedVideo := .empty,
      mutedPeers := [] }) (r := room.server) room.channel s.me false true
    (fun _ => Act.update (fun s => { s with active := none, muted := false, dial := none }) >>=
      fun _ => Act.emit .publish)
  rw [hpresence]
  exact ⟨rfl, rfl⟩

theorem leave_idle (hactive : s.active = none) :
    ((leave : Act Effect (Manager Leg Stream) Unit) s).state = s := by
  unfold leave
  rw [Act.state_read_bind, hactive]
  rfl

theorem ring_leave : ((leave : Act Effect (Manager Leg Stream) Unit) s).state.ring = s.ring := by
  cases hactive : s.active with
  | none => rw [leave_idle hactive]
  | some room => exact (leave_active hactive).1

theorem dial_leave (hdial : s.dial = none) :
    ((leave : Act Effect (Manager Leg Stream) Unit) s).state.dial = none := by
  cases hactive : s.active with
  | none => rw [leave_idle hactive, hdial]
  | some room => exact (leave_active hactive).2

theorem filter_of_any {α : Type} {p : α → Bool} {o : Option α} :
    o.filter (fun a => !p a) = if o.any p then none else o := by
  cases o with
  | none => rfl
  | some a => cases h : p a <;> simp [h]

/-- **What an envelope does to the call that was dialed.** -/
theorem dial_handleRing : (handleRing server sender content s).state.dial =
    match RingAction.ofContent s.me content with
    | some .accept => none
    | some .decline => s.dial.filter fun d => !(d.callee == sender)
    | _ => s.dial := by
  unfold handleRing RingAction.ofContent
  rw [Act.state_read_bind]
  dsimp only
  split
  case isTrue => rfl
  case isFalse =>
  split
  case isTrue => split <;> rfl
  case isFalse =>
  split
  case isTrue => rfl
  case isFalse =>
  split
  case isTrue =>
    rw [filter_of_any]
    split
    case isTrue => exact dial_leave rfl
    case isFalse => rfl
  case isFalse =>
  split
  case isTrue => split <;> rfl
  case isFalse => rfl

/-- **What an envelope does to the call that rings.** -/
theorem ring_handleRing : (handleRing server sender content s).state.ring =
    match RingAction.ofContent s.me content with
    | some .invite =>
      if s.active.isSome || s.ring.isSome then s.ring
      else some ⟨server, content.get (lit "ch"), sender⟩
    | some .cancel => s.ring.filter fun r => !(r.caller == sender)
    | _ => s.ring := by
  unfold handleRing RingAction.ofContent
  rw [Act.state_read_bind]
  dsimp only
  split
  case isTrue => rfl
  case isFalse =>
  split
  case isTrue =>
    split <;> rfl
  case isFalse =>
  split
  case isTrue => rfl
  case isFalse =>
  split
  case isTrue =>
    split
    case isTrue => exact ring_leave
    case isFalse => rfl
  case isFalse =>
  split
  case isTrue =>
    rw [filter_of_any]
    split <;> rfl
  case isFalse => rfl

/-! ### Local actions leave the calls to their parties -/

theorem ring_callUser (server name : Str) : (callUser server name s).state.ring = s.ring := by
  unfold callUser
  rw [Act.state_read_bind]
  split <;> rfl

theorem dial_callUser (server name : Str) {d : Dial} (hd : s.dial = some d) :
    (callUser server name s).state.dial = some d := by
  unfold callUser
  rw [Act.state_read_bind, if_pos (.inr (.inr (by rw [hd]; rfl)))]
  exact hd

theorem dial_callUser_idle (server : Str) {name : Str} (hname : name ≠ s.me)
    (hactive : s.active = none) (hdial : s.dial = none) :
    (callUser server name s).state.dial = some ⟨server, directRoom s.me name, name⟩ := by
  unfold callUser
  rw [Act.state_read_bind, if_neg (by simp [hname, hactive, hdial])]
  rfl

theorem ring_cancelCall : (cancelCall s).state.ring = s.ring := by
  unfold cancelCall
  rw [Act.state_read_bind]
  cases s.dial with
  | none => rfl
  | some d => exact ring_leave

theorem dial_acceptRing : (acceptRing s).state.dial = s.dial := by
  unfold acceptRing
  rw [Act.state_read_bind]
  cases s.ring <;> rfl

theorem dial_declineRing : (declineRing s).state.dial = s.dial := by
  unfold declineRing
  rw [Act.state_read_bind]
  cases s.ring <;> rfl

theorem enter_keeps (server channel : Str) :
    (enter server channel s).state.ring = s.ring ∧
      (enter server channel s).state.dial = s.dial := by
  unfold enter
  rw [Act.state_read_bind]
  change (ite (meshFull ((s.presence.get? (server ++ lit "\n" ++ channel)).getD []).length = true)
    (pure _ : Act Effect (Manager Leg Stream) (Except Str Unit)) _ s).state.ring = _ ∧
    (ite (meshFull ((s.presence.get? (server ++ lit "\n" ++ channel)).getD []).length = true)
    (pure _ : Act Effect (Manager Leg Stream) (Except Str Unit)) _ s).state.dial = _
  split
  case isTrue => exact ⟨rfl, rfl⟩
  case isFalse =>
    rw [Act.state_update_bind]
    obtain ⟨presence, hpresence⟩ := state_track_bind
      (s := { s with active := some ⟨server, channel⟩, muted := false }) (r := server) channel s.me
        true true fun _ => Act.emit (.send server (voiceEnvelope channel "join" [])) >>= fun _ =>
          Act.emit .publish >>= fun _ => pure (Except.ok ())
    rw [hpresence]
    exact ⟨rfl, rfl⟩

theorem ring_join (server channel : Str) : (join server channel s).state.ring = s.ring := by
  unfold join
  rw [Act.state_read_bind]
  split
  case isTrue =>
    rw [Act.state_bind]
    split
    · exact (enter_keeps server channel).1.trans ring_leave
    · exact ring_leave
  case isFalse => exact (enter_keeps server channel).1

theorem dial_join_idle (server channel : Str) (hactive : s.active.isSome = false) :
    (join server channel s).state.dial = s.dial := by
  unfold join
  rw [Act.state_read_bind, hactive]
  exact (enter_keeps server channel).2

end

/-! ### Runs -/

/-- An envelope about a ringing call. -/
def RingContent : Type := { content : Value // (content.get (lit "k")).strictEq (.str (lit "ring")) }

/-- Envelopes about ringing calls, and what one does oneself. -/
inductive CallEvent
  | envelope (server sender : Str) (content : RingContent)
  | callUser (server name : Str)
  | cancelCall
  | acceptRing
  | declineRing
  | join (server channel : Str)
  | leave

def CallEvent.step (rtc : Rtc Leg) (s : Manager Leg Stream) : CallEvent → Manager Leg Stream
  | .envelope server sender content => (handleEnvelope rtc server sender content.val s).state
  | .callUser server name => (Voice.callUser server name s).state
  | .cancelCall => (Voice.cancelCall s).state
  | .acceptRing => (Voice.acceptRing s).state
  | .declineRing => (Voice.declineRing s).state
  | .join server channel => (Voice.join server channel s).state
  | .leave => (Voice.leave s).state

/-- An event by which a call that was dialed may end: one gives up or leaves, also to join another
call, or the callee answers there. -/
def CallEvent.EndsDial (s : Manager Leg Stream) (d : Dial) : CallEvent → Prop
  | .cancelCall => True
  | .leave => True
  | .join _ _ => s.active.isSome = true
  | .envelope server sender content =>
    (RingAction.ofContent s.me content.val = some .accept ∨
      RingAction.ofContent s.me content.val = some .decline) ∧
    d.callee = sender ∧ server = d.server ∧ content.val.get (lit "ch") = .str d.room
  | _ => False

/-- An event by which a call that rings may end: one answers, or the caller gives up there. -/
def CallEvent.EndsRing (s : Manager Leg Stream) (r : Ring) : CallEvent → Prop
  | .acceptRing => True
  | .declineRing => True
  | .envelope server sender content =>
    RingAction.ofContent s.me content.val = some .cancel ∧
      r.caller = sender ∧ server = r.server ∧ content.val.get (lit "ch") = r.room
  | _ => False

/-- The two calls stay as they are, or end by one of their parties. -/
def ByParties (rtc : Rtc Leg) (s : Manager Leg Stream) (e : CallEvent) : Prop :=
  (∀ d, s.dial = some d → (e.step rtc s).dial = some d ∨ e.EndsDial s d) ∧
    ∀ r, s.ring = some r → (e.step rtc s).ring = some r ∨ e.EndsRing s r

/-- An `accept` comes from the callee of the call that is dialed, if one is, and a `decline` or
`cancel` of the other party is about this call. -/
def CallEvent.Honest (s : Manager Leg Stream) : CallEvent → Prop
  | .envelope server sender content => sender = s.me ∨
    match RingAction.ofContent s.me content.val with
    | some .accept => ∀ d, s.dial = some d →
      d.callee = sender ∧ server = d.server ∧ content.val.get (lit "ch") = .str d.room
    | some .decline => ∀ d, s.dial = some d → d.callee = sender →
      server = d.server ∧ content.val.get (lit "ch") = .str d.room
    | some .cancel => ∀ r, s.ring = some r → r.caller = sender →
      server = r.server ∧ content.val.get (lit "ch") = r.room
    | _ => True
  | _ => True

section

variable {rtc : Rtc Leg} {s : Manager Leg Stream}

theorem step_envelope {server sender : Str} {content : RingContent} (hsender : sender ≠ s.me) :
    (CallEvent.envelope server sender content).step rtc s =
      (handleRing server sender content.val s).state := by
  change (handleEnvelope rtc server sender content.val s).state = _
  unfold handleEnvelope
  rw [Act.state_read_bind, if_neg hsender]
  rw [if_pos content.property]

theorem step_envelope_self {server : Str} {content : RingContent} :
    (CallEvent.envelope server s.me content).step rtc s = s := by
  change (handleEnvelope rtc server s.me content.val s).state = _
  unfold handleEnvelope
  rw [Act.state_read_bind, if_pos rfl]
  rfl

/-- What is taken away by one member is kept from the others. -/
theorem filter_keeps_iff {α : Type} {p : α → Bool} {Q : α → Prop} {o : Option α} :
    (∀ a, o = some a → o.filter (fun a => !p a) = some a ∨ Q a) ↔
      ∀ a, o = some a → p a = true → Q a := by
  refine forall₂_congr fun a ha => ?_
  subst ha
  cases h : p a <;> simp [h]

theorem byParties_envelope_iff {server sender : Str} {content : RingContent} :
    ByParties rtc s (.envelope server sender content) ↔
      (CallEvent.envelope server sender content).Honest s := by
  by_cases hsender : sender = s.me
  · subst hsender
    refine iff_of_true ?_ (.inl rfl)
    rw [ByParties, step_envelope_self]
    exact ⟨fun d hd => .inl hd, fun r hr => .inl hr⟩
  · unfold ByParties CallEvent.Honest CallEvent.EndsDial CallEvent.EndsRing
    rw [step_envelope hsender, dial_handleRing, ring_handleRing]
    dsimp only
    generalize RingAction.ofContent s.me content.val = said
    cases said with
    | none => simp +contextual
    | some action =>
      cases action with
      | invite | accept => simp +contextual [hsender]
      | decline | cancel =>
        rw [filter_keeps_iff]
        simp +contextual [hsender]

/-- What one does oneself ends a call only as one may. -/
theorem byParties_of_local (rtc : Rtc Leg) (s : Manager Leg Stream) {e : CallEvent}
    (he : ∀ server sender content, e ≠ .envelope server sender content) : ByParties rtc s e := by
  cases e with
  | envelope server sender content => exact absurd rfl (he server sender content)
  | callUser server name =>
    exact ⟨fun d hd => .inl (dial_callUser server name hd),
      fun r hr => .inl ((ring_callUser server name).trans hr)⟩
  | cancelCall => exact ⟨fun d _ => .inr trivial, fun r hr => .inl (ring_cancelCall.trans hr)⟩
  | acceptRing => exact ⟨fun d hd => .inl (dial_acceptRing.trans hd), fun r _ => .inr trivial⟩
  | declineRing => exact ⟨fun d hd => .inl (dial_declineRing.trans hd), fun r _ => .inr trivial⟩
  | join server channel =>
    refine ⟨fun d hd => ?_, fun r hr => .inl ((ring_join server channel).trans hr)⟩
    cases hactive : s.active.isSome with
    | false => exact .inl ((dial_join_idle server channel hactive).trans hd)
    | true => exact .inr hactive
  | leave => exact ⟨fun d _ => .inr trivial, fun r hr => .inl (ring_leave.trans hr)⟩

theorem byParties_iff {e : CallEvent} : ByParties rtc s e ↔ e.Honest s := by
  cases e with
  | envelope server sender content => exact byParties_envelope_iff
  | _ => exact iff_of_true (byParties_of_local rtc s fun _ _ _ h => CallEvent.noConfusion h) trivial

/-- **In a run, the two calls end by their parties exactly if each envelope that ends one is the
other party's, about this call.** -/
theorem calls_ended_by_parties_iff (rtc : Rtc Leg) (s : Manager Leg Stream)
    (events : List CallEvent) :
    Along (CallEvent.step rtc) (ByParties rtc) s events ↔
      Along (CallEvent.step rtc) CallEvent.Honest s events :=
  ⟨.mono fun _ _ => byParties_iff.mp, .mono fun _ _ => byParties_iff.mpr⟩

end

/-- A device of alice that is in no call. -/
def atRest : Manager Unit Unit := .start (lit "alice")

/-- An envelope for alice about another call. -/
def strayRing (action : String)
    (h : ((ringEnvelope (lit "alice") .null action).get (lit "k")).strictEq
      (.str (lit "ring")) = true) : RingContent :=
  ⟨ringEnvelope (lit "alice") .null action, h⟩

/-- Alice dials bob in the circle `g1`.  An `accept` of mallory in the circle `g2` ends the dialing,
and so does a `decline` of bob in the circle `g2`. -/
theorem dialing_ended_by_stranger :
    let dialing := (CallEvent.callUser (lit "g1") (lit "bob")).step noLegs atRest
    let accepted := CallEvent.envelope (lit "g2") (lit "mallory") (strayRing "accept" (by decide +kernel))
    let declined := CallEvent.envelope (lit "g2") (lit "bob") (strayRing "decline" (by decide +kernel))
    dialing.dial = some ⟨lit "g1", directRoom (lit "alice") (lit "bob"), lit "bob"⟩ ∧
      (accepted.step noLegs dialing).dial.isNone = true ∧ ¬ByParties noLegs dialing accepted ∧
      (declined.step noLegs dialing).dial.isNone = true ∧ ¬ByParties noLegs dialing declined := by
  intro dialing accepted declined
  have hdialing : dialing.dial = some ⟨lit "g1", directRoom (lit "alice") (lit "bob"), lit "bob"⟩ :=
    dial_callUser_idle (lit "g1") (by decide) rfl rfl
  have haccepted : (accepted.step noLegs dialing).dial.isNone = true := by decide +kernel
  have hdeclined : (declined.step noLegs dialing).dial.isNone = true := by decide +kernel
  refine ⟨hdialing, haccepted, fun h => ?_, hdeclined, fun h => ?_⟩
  · rcases h.1 _ hdialing with hkept | ⟨-, -, hserver, -⟩
    · rw [hkept] at haccepted
      exact Bool.false_ne_true haccepted
    · exact absurd hserver (by decide)
  · rcases h.1 _ hdialing with hkept | ⟨-, -, hserver, -⟩
    · rw [hkept] at hdeclined
      exact Bool.false_ne_true hdeclined
    · exact absurd hserver (by decide)

end Quorum.Voice
