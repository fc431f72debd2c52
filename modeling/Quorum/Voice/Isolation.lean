import Quorum.Order.Along
import Quorum.Voice

/-!
# What other rooms do to a call

Envelopes about calls in other rooms and changes of the membership of other circles should not reach
the call a device is in.  They do where a member has a leg in the call: legs and the media on them
are found by handle alone, in whatever room the member acts.

An envelope of a member without a leg leaves the call alone (`moves_handleVoice`), as long as it
names no stream that waits for its announcement, and does not end a direct call that is still
waiting for the other party.  A change of the membership of another circle leaves the call alone if
everyone in the call is a member there too.
-/

namespace Quorum.Voice

open Js

variable {Leg Stream : Type}

/-! ### The call -/

/-- The call is the same, with the same legs and the same media on each. -/
structure SameCall (s s' : Manager Leg Stream) : Prop where
  active : s'.active = s.active
  peers : s'.peers = s.peers
  screens : ∀ name, s.peers.has name = true →
    s'.remoteScreens.get? name = s.remoteScreens.get? name
  webcams : ∀ name, s.peers.has name = true →
    s'.remoteCameras.get? name = s.remoteCameras.get? name
  shares : ∀ name, s.peers.has name = true → s'.shares.get? name = s.shares.get? name
  cameras : ∀ name, s.peers.has name = true → s'.cameras.get? name = s.cameras.get? name
  muted : ∀ name, s.peers.has name = true → (name ∈ s'.mutedPeers ↔ name ∈ s.mutedPeers)

theorem SameCall.refl (s : Manager Leg Stream) : SameCall s s :=
  ⟨rfl, rfl, fun _ _ => rfl, fun _ _ => rfl, fun _ _ => rfl, fun _ _ => rfl, fun _ _ => Iff.rfl⟩

theorem SameCall.trans {s t u : Manager Leg Stream} (h : SameCall s t) (h' : SameCall t u) :
    SameCall s u := by
  have hpeers : ∀ name, s.peers.has name = true → t.peers.has name = true := fun name hname =>
    h.peers ▸ hname
  refine ⟨h'.active.trans h.active, h'.peers.trans h.peers, ?_, ?_, ?_, ?_, ?_⟩ <;>
    intro name hname
  · exact (h'.screens name (hpeers name hname)).trans (h.screens name hname)
  · exact (h'.webcams name (hpeers name hname)).trans (h.webcams name hname)
  · exact (h'.shares name (hpeers name hname)).trans (h.shares name hname)
  · exact (h'.cameras name (hpeers name hname)).trans (h.cameras name hname)
  · exact (h'.muted name (hpeers name hname)).trans (h.muted name hname)

/-- The other party of the direct call that the device waits in, alone, leaves a room of that name.
-/
def Manager.abandoned (s : Manager Leg Stream) (sender : Str) (ch : Value) : Prop :=
  ∃ room, s.active = some room ∧ ch.strictEq (.str room.channel) = true ∧
    s.directPeer room.channel = some sender ∧ s.peers.size = 0

/-- What the call and what may reach it depend on is kept. -/
structure Undisturbed (s s' : Manager Leg Stream) : Prop extends SameCall s s' where
  me : s'.me = s.me
  unrouted : s'.unroutedVideo = s.unroutedVideo

theorem Undisturbed.refl (s : Manager Leg Stream) : Undisturbed s s := ⟨.refl s, rfl, rfl⟩

/-- As long as the condition holds, which it does on, the call is not disturbed. -/
def Spares (P : Manager Leg Stream → Prop) (s s' : Manager Leg Stream) : Prop :=
  P s → P s' ∧ Undisturbed s s'

instance spares_refl (P : Manager Leg Stream → Prop) : Std.Refl (Spares P) :=
  ⟨fun s hs => ⟨hs, .refl s⟩⟩

instance spares_trans (P : Manager Leg Stream → Prop) :
    IsTrans (Manager Leg Stream) (Spares P) := by
  refine ⟨fun s t u h h' hs => ?_⟩
  obtain ⟨ht, hst⟩ := h hs
  obtain ⟨hu, htu⟩ := h' ht
  exact ⟨hu, hst.toSameCall.trans htu.toSameCall, htu.me.trans hst.me,
    htu.unrouted.trans hst.unrouted⟩

/-! ### Envelopes of strangers -/

/-- An envelope of a member without a leg, who names no stream that waits for its announcement. -/
structure Stranger (sender : Str) (content : Value) (s : Manager Leg Stream) : Prop where
  leg : s.peers.has sender = false
  unrouted : ∀ sid ∈ ["shareSid", "cameraSid", "sid"],
    s.unroutedVideo.get? (content.get (lit sid)) = none
  alone : Action.ofContent content = some .leave → ¬ s.abandoned sender (content.get (lit "ch"))

/-- It is about another room, too. -/
structure Foreign (server sender : Str) (content : Value) (s : Manager Leg Stream) : Prop
    extends Stranger sender content s where
  room : s.inChannel server (content.get (lit "ch")) = false

theorem Foreign.undisturbed {server sender : Str} {content : Value} {s s' : Manager Leg Stream}
    (h : Foreign server sender content s) (h' : Undisturbed s s') :
    Foreign server sender content s' := by
  refine ⟨⟨?_, ?_, fun hleave => ?_⟩, ?_⟩
  · rw [h'.peers]
    exact h.leg
  · rw [h'.unrouted]
    exact h.unrouted
  · unfold Manager.abandoned Manager.directPeer
    rw [h'.active, h'.peers, h'.me]
    exact h.alone hleave
  · unfold Manager.inChannel
    rw [h'.active]
    exact h.room

theorem Stranger.ne {sender name : Str} {content : Value} {s : Manager Leg Stream}
    (h : Stranger sender content s) (hname : s.peers.has name = true) : sender ≠ name := by
  rintro rfl
  exact Bool.false_ne_true (h.leg.symm.trans hname)

section

variable {server sender : Str} {content : Value} {η : Type}

theorem moves_foreign {f : Manager Leg Stream → Manager Leg Stream}
    (hf : ∀ s, Foreign server sender content s → Undisturbed s (f s)) :
    Act.Moves (Spares (Foreign server sender content)) (Act.update f : Act η _ Unit) :=
  Act.moves_update fun s hs => ⟨hs.undisturbed (hf s hs), hf s hs⟩

/-- What is kept of a sender without a leg is not part of the call. -/
theorem Foreign.of_sender {s : Manager Leg Stream} (h : Foreign server sender content s)
    {presence : Dict Str (List Str)} {shares cameras : Dict Str Str}
    {screens webcams : Dict Str Stream} {kinds : Dict Value VideoKind} {muted : List Str}
    (hshares : ∀ name, sender ≠ name → shares.get? name = s.shares.get? name)
    (hcameras : ∀ name, sender ≠ name → cameras.get? name = s.cameras.get? name)
    (hscreens : ∀ name, sender ≠ name → screens.get? name = s.remoteScreens.get? name)
    (hwebcams : ∀ name, sender ≠ name → webcams.get? name = s.remoteCameras.get? name)
    (hmuted : ∀ name, sender ≠ name → (name ∈ muted ↔ name ∈ s.mutedPeers)) :
    Undisturbed s
      { s with
        presence := presence
        shares := shares
        cameras := cameras
        remoteScreens := screens
        remoteCameras := webcams
        videoKind := kinds
        mutedPeers := muted } :=
  ⟨⟨rfl, rfl, fun name hname => hscreens name (h.ne hname),
    fun name hname => hwebcams name (h.ne hname), fun name hname => hshares name (h.ne hname),
    fun name hname => hcameras name (h.ne hname), fun name hname => hmuted name (h.ne hname)⟩,
    rfl, rfl⟩

theorem undisturbed_presence (s : Manager Leg Stream) (presence : Dict Str (List Str)) :
    Undisturbed s { s with presence := presence } :=
  ⟨⟨rfl, rfl, fun _ _ => rfl, fun _ _ => rfl, fun _ _ => rfl, fun _ _ => rfl, fun _ _ => Iff.rfl⟩,
    rfl, rfl⟩

theorem moves_track (server' : Str) (channel : Value) (name : Str) (present announce : Bool) :
    Act.Moves (Spares (Foreign server sender content))
      (track server' channel name present announce : Act Effect (Manager Leg Stream) Unit) := by
  refine Act.moves_lift_bind fun key => Act.moves_bind Act.moves_read fun _ => ?_
  dsimp only
  split
  · exact Act.moves_emit_bind fun _ =>
      moves_foreign fun s _ => undisturbed_presence s _
  · exact moves_foreign fun s _ => undisturbed_presence s _

variable {sid : String} {sender name : Str}

theorem moves_routeVideo (hsid : sid ∈ ["shareSid", "cameraSid", "sid"]) (kind : VideoKind) :
    Act.Moves (Spares (Foreign server sender content))
      (routeVideo (content.get (lit sid)) kind : Act Effect (Manager Leg Stream) Unit) := by
  unfold routeVideo
  split
  · refine Act.moves_bind (moves_foreign fun s hs => hs.of_sender (fun _ _ => rfl) (fun _ _ => rfl)
      (fun _ _ => rfl) (fun _ _ => rfl) fun _ _ => Iff.rfl) fun _ => Act.moves_read_bind ?_
    intro s hs
    rw [hs.unrouted sid hsid]
    exact ⟨hs, .refl s⟩
  · exact Act.moves_pure _

theorem moves_announceShare (hsid : sid ∈ ["shareSid", "cameraSid", "sid"]) (channel : Value) :
    Act.Moves (Spares (Foreign server sender content))
      (announceShare server sender channel (content.get (lit sid)) :
        Act Effect (Manager Leg Stream) Unit) := by
  refine Act.moves_lift_bind fun key => Act.moves_bind (moves_foreign fun s hs => ?_)
    fun _ => moves_routeVideo hsid _
  exact hs.of_sender (fun _ hne => Dict.get?_set_of_ne _ _ hne) (fun _ _ => rfl) (fun _ _ => rfl)
    (fun _ _ => rfl) fun _ _ => Iff.rfl

theorem moves_announceCamera (hsid : sid ∈ ["shareSid", "cameraSid", "sid"]) (channel : Value) :
    Act.Moves (Spares (Foreign server sender content))
      (announceCamera server sender channel (content.get (lit sid)) :
        Act Effect (Manager Leg Stream) Unit) := by
  refine Act.moves_lift_bind fun key => Act.moves_bind (moves_foreign fun s hs => ?_)
    fun _ => moves_routeVideo hsid _
  exact hs.of_sender (fun _ _ => rfl) (fun _ hne => Dict.get?_set_of_ne _ _ hne) (fun _ _ => rfl)
    (fun _ _ => rfl) fun _ _ => Iff.rfl

theorem mem_insertNew_of_ne (hne : sender ≠ name) (l : List Str) :
    name ∈ insertNew l sender ↔ name ∈ l :=
  ⟨fun h => (mem_of_mem_insertNew h).resolve_right hne.symm, fun h => mem_insertNew_of_mem h _⟩

theorem mem_filter_of_ne (hne : sender ≠ name) (l : List Str) :
    name ∈ l.filter (· ≠ sender) ↔ name ∈ l := by
  simp [hne.symm]

theorem get?_delete_of_ne {V : Type} (d : Dict Str V) (hne : sender ≠ name) :
    (d.delete sender).get? name = d.get? name := by
  rw [Dict.get?_delete, if_neg (by simpa using hne)]

theorem moves_muted {f : List Str → List Str}
    (hf : ∀ name l, sender ≠ name → (name ∈ f l ↔ name ∈ l)) :
    Act.Moves (Spares (Foreign server sender content))
      (.update fun s => { s with mutedPeers := f s.mutedPeers } :
        Act Effect (Manager Leg Stream) Unit) :=
  moves_foreign fun _ hs => hs.of_sender (fun _ _ => rfl) (fun _ _ => rfl) (fun _ _ => rfl)
    (fun _ _ => rfl) fun name hne => hf name _ hne

theorem moves_greet (rtc : Rtc Leg) (joins : Bool) :
    Act.Moves (Spares (Foreign server sender content))
      (greet rtc server sender content joins : Act Effect (Manager Leg Stream) Unit) := by
  refine Act.moves_bind (moves_muted (f := fun l => if (content.get (lit "muted")).truthy then
    insertNew l sender else if joins then l.filter (· ≠ sender) else l) ?_) fun _ =>
    Act.moves_read_bind fun s hs => ?_
  · intro name l hne
    split
    · exact mem_insertNew_of_ne hne l
    · split
      · exact mem_filter_of_ne hne l
      · rfl
  · rw [hs.room]
    exact ⟨hs, .refl s⟩

theorem moves_handlePresent (rtc : Rtc Leg) (joins : Bool) :
    Act.Moves (Spares (Foreign server sender content))
      (handlePresent rtc server sender content joins : Act Effect (Manager Leg Stream) Unit) := by
  have hcamera : Act.Moves (Spares (Foreign server sender content))
      (if (content.get (lit "camera")).truthy then do
        announceCamera server sender (content.get (lit "ch")) (content.get (lit "cameraSid"))
        greet rtc server sender content joins
      else greet rtc server sender content joins : Act Effect (Manager Leg Stream) Unit) := by
    split
    · exact Act.moves_bind (moves_announceCamera (by simp) _) fun _ => moves_greet rtc joins
    · exact moves_greet rtc joins
  refine Act.moves_bind (moves_track _ _ _ _ _) fun _ => ?_
  dsimp only
  split
  · exact Act.moves_bind (moves_announceShare (by simp) _) fun _ => hcamera
  · exact hcamera

theorem moves_dropPeer :
    Act.Moves (Spares (Foreign server sender content))
      (dropPeer sender : Act Effect (Manager Leg Stream) Unit) := by
  refine Act.moves_read_bind fun s hs => ?_
  rw [if_neg (by rw [hs.leg]; exact Bool.false_ne_true)]
  exact ⟨hs, .refl s⟩

theorem moves_handleLeave (hleave : Action.ofContent content = some .leave) :
    Act.Moves (Spares (Foreign server sender content))
      (handleLeave server sender content : Act Effect (Manager Leg Stream) Unit) := by
  unfold handleLeave
  refine Act.moves_read_bind fun s hs => ?_
  rw [hs.room]
  refine (Act.moves_bind (moves_track _ _ _ _ _) fun _ => Act.moves_bind (moves_foreign ?_) fun _ =>
    Act.moves_bind moves_dropPeer fun _ => Act.moves_read_bind ?_ :
    Act.Moves (Spares (Foreign server sender content)) _) s hs
  · intro s hs
    exact hs.of_sender (fun _ => get?_delete_of_ne _) (fun _ => get?_delete_of_ne _)
      (fun _ _ => rfl) (fun _ _ => rfl) fun _ _ => Iff.rfl
  · intro s hs
    have halone := hs.alone hleave
    cases hactive : s.active with
    | none => exact ⟨hs, .refl s⟩
    | some room =>
      dsimp only
      rw [if_neg fun h => halone ⟨room, hactive, h⟩]
      exact ⟨hs, .refl s⟩

/-- The actions that are only answered, and those that are not known. -/
def Quiet (content : Value) : Prop :=
  Action.ofContent content = none ∨ Action.ofContent content = some .probe

theorem moves_handleVoice_of_quiet {R : Manager Leg Stream → Manager Leg Stream → Prop}
    [Std.Refl R] [IsTrans _ R] (rtc : Rtc Leg) (hquiet : Quiet content) :
    Act.Moves R (handleVoice rtc server sender content) := by
  unfold handleVoice
  obtain haction | haction := hquiet <;> rw [haction]
  · exact Act.moves_emit _
  · refine Act.moves_bind Act.moves_read fun s => ?_
    split
    · split
      · exact Act.moves_emit_bind fun _ => Act.moves_emit _
      · exact Act.moves_emit _
    · exact Act.moves_emit _

theorem moves_handleVoice (rtc : Rtc Leg) :
    Act.Moves (Spares (Foreign server sender content))
      (handleVoice rtc server sender content : Act Effect (Manager Leg Stream) Unit) := by
  by_cases hquiet : Quiet content
  · exact moves_handleVoice_of_quiet rtc hquiet
  unfold handleVoice
  split
  · exact Act.moves_bind (moves_handlePresent rtc true) fun _ => Act.moves_emit _
  · exact Act.moves_bind (moves_handlePresent rtc false) fun _ => Act.moves_emit _
  · exact Act.moves_bind (moves_muted fun name l hne => mem_insertNew_of_ne hne l)
      fun _ => Act.moves_emit _
  · exact Act.moves_bind (moves_muted fun name l hne => mem_filter_of_ne hne l)
      fun _ => Act.moves_emit _
  · exact Act.moves_bind (moves_announceShare (by simp) _) fun _ => Act.moves_emit _
  · refine Act.moves_bind (moves_foreign fun s hs => ?_) fun _ => Act.moves_emit _
    exact hs.of_sender (fun _ => get?_delete_of_ne _) (fun _ _ => rfl)
      (fun _ => get?_delete_of_ne _) (fun _ _ => rfl) fun _ _ => Iff.rfl
  · exact Act.moves_bind (moves_announceCamera (by simp) _) fun _ => Act.moves_emit _
  · refine Act.moves_bind (moves_foreign fun s hs => ?_) fun _ => Act.moves_emit _
    exact hs.of_sender (fun _ _ => rfl) (fun _ => get?_delete_of_ne _) (fun _ _ => rfl)
      (fun _ => get?_delete_of_ne _) fun _ _ => Iff.rfl
  · exact Act.moves_bind (moves_handleLeave ‹_›) fun _ => Act.moves_emit _
  · exact absurd (.inr ‹_›) hquiet
  · exact absurd (.inl ‹_›) hquiet

end

/-! ### Members of other circles -/

/-- Everyone in the call is among the members. -/
def Covered (members : List Str) (s : Manager Leg Stream) : Prop :=
  ∀ name, s.peers.has name = true → name ∈ members

theorem moves_membershipChanged (server : Str) (members : List Str) :
    Act.Moves (Spares (Covered members))
      (membershipChanged server members : Act Effect (Manager Leg Stream) Unit) := by
  have hlast {f : Manager Leg Stream → Manager Leg Stream}
      (hf : ∀ s, Covered members s → Undisturbed s (f s)) :
      Act.Moves (Spares (Covered members)) (Act.update f : Act Effect _ Unit) :=
    Act.moves_update fun s hs => ⟨fun name hname => hs name ((hf s hs).peers ▸ hname), hf s hs⟩
  refine Act.moves_read_bind fun s hs => ?_
  refine (Act.moves_bind (Act.moves_forM fun name hname => ?_) fun _ =>
    Act.moves_bind (hlast fun s hs => ?_) fun _ => Act.moves_emit _ :
    Act.Moves (Spares (Covered members)) _) s hs
  · rw [if_pos (List.contains_iff_mem.mpr (hs name (Dict.has_iff_mem_keys.mpr hname)))]
    exact Act.moves_pure _
  · have hkept : ∀ (d : Dict Str Str) (here : Str → Bool) (name : Str), s.peers.has name = true →
        (d.filter fun name key => !here key || members.contains name).get? name = d.get? name := by
      intro d here name hname
      have hmem : members.contains name = true := List.contains_iff_mem.mpr (hs name hname)
      rw [Dict.get?_filter]
      cases d.get? name with
      | none => rfl
      | some key => rw [Option.filter_some, if_pos (by rw [hmem, Bool.or_true])]
    exact ⟨⟨rfl, rfl, fun _ _ => rfl, fun _ _ => rfl, hkept _ _, hkept _ _, fun _ _ => Iff.rfl⟩,
      rfl, rfl⟩

/-! ### Runs -/

inductive Event
  | envelope (server sender : Str) (content : Value)
  | membership (server : Str) (members : List Str)

def Event.handle (rtc : Rtc Leg) : Event → Act Effect (Manager Leg Stream) Unit
  | .envelope server sender content => handleEnvelope rtc server sender content
  | .membership server members => membershipChanged server members

def step (rtc : Rtc Leg) (s : Manager Leg Stream) (event : Event) : Manager Leg Stream :=
  (event.handle rtc s).state

/-- It is an envelope of a call in another room, or about the members of another circle. -/
def Event.Elsewhere (room : Room) : Event → Prop
  | .envelope server _ content =>
    (content.get (lit "k") = .str (lit "voice") ∨ content.get (lit "k") = .str (lit "rtc")) ∧
      (server ≠ room.server ∨ content.get (lit "ch") ≠ .str room.channel)
  | .membership server _ => server ≠ room.server

/-- It acts for nobody who has a leg. -/
def Event.Spared (s : Manager Leg Stream) : Event → Prop
  | .envelope _ sender content => sender = s.me ∨ Quiet content ∨ Stranger sender content s
  | .membership _ members => Covered members s

variable {s : Manager Leg Stream}

theorem inChannel_eq_false {room : Room} (hactive : s.active = some room)
    {server : Str} {ch : Value} (h : server ≠ room.server ∨ ch ≠ .str room.channel) :
    s.inChannel server ch = false := by
  unfold Manager.inChannel
  rw [hactive, Option.any_some, ← Bool.not_eq_true, Bool.and_eq_true, beq_iff_eq,
    Value.str_strictEq]
  rintro ⟨hserver, hch⟩
  exact h.elim (· hserver.symm) (· hch)

theorem undisturbed_handleEnvelope (rtc : Rtc Leg) {server sender : Str} {content : Value}
    (hkind : content.get (lit "k") = .str (lit "voice") ∨ content.get (lit "k") = .str (lit "rtc"))
    (hroom : s.inChannel server (content.get (lit "ch")) = false)
    (hspared : sender = s.me ∨ Quiet content ∨ Stranger sender content s) :
    Undisturbed s (handleEnvelope rtc server sender content s).state := by
  unfold handleEnvelope
  rw [Act.state_read_bind]
  by_cases hme : sender = s.me
  · rw [if_pos hme]
    exact .refl s
  rw [if_neg hme]
  obtain hkind | hkind := hkind <;> rw [hkind]
  · rw [if_neg (by decide), if_pos (by decide)]
    obtain hquiet | hstranger := hspared.resolve_left hme
    · exact (moves_handleVoice_of_quiet (R := Spares fun _ => True) rtc hquiet s trivial).2
    · exact (moves_handleVoice rtc s ⟨hstranger, hroom⟩).2
  · rw [if_neg (by decide), if_neg (by decide), if_neg (by simp [hroom])]
    exact .refl s

/-- What happens elsewhere, to nobody who has a leg here, does not reach the call. -/
theorem undisturbed_step (rtc : Rtc Leg) {room : Room}
    (hactive : s.active = some room) {event : Event} (helsewhere : event.Elsewhere room)
    (hspared : event.Spared s) : Undisturbed s (step rtc s event) := by
  cases event with
  | envelope server sender content =>
    exact undisturbed_handleEnvelope rtc helsewhere.1 (inChannel_eq_false hactive helsewhere.2)
      hspared
  | membership server members => exact (moves_membershipChanged server members s hspared).2

/-- A call is isolated from other rooms and circles as long as nobody who has a leg in it acts
there, and nobody who acts there takes up a stream that waits here. -/
theorem call_isolated (rtc : Rtc Leg) {s : Manager Leg Stream} {room : Room}
    (hactive : s.active = some room) {events : List Event}
    (helsewhere : ∀ event ∈ events, event.Elsewhere room)
    (hspared : Along (step rtc) (fun s event => event.Spared s) s events) :
    SameCall s (events.foldl (step rtc) s) := by
  have hrooms : Along (step rtc) (fun _ event => event.Elsewhere room) s events :=
    along_of_forall (fun event hevent _ => helsewhere event hevent) s
  refine (hspared.and hrooms).preserves (P := fun t => SameCall s t) ?_ (.refl s)
  rintro t event ht ⟨hspared, helsewhere⟩
  exact ht.trans (undisturbed_step rtc (ht.active.trans hactive) helsewhere hspared).toSameCall

/-- A device of alice that has a leg to bob in a room of the circle `g1`. -/
def calling (channel : String) : Manager Unit Unit :=
  { (.start (lit "alice") : Manager Unit Unit) with
    active := some ⟨lit "g1", lit channel⟩
    peers := Dict.ofList [(lit "bob", ())] }

/-- A member who is in no call with alice leaves another room, and someone joins a circle that bob
is in. -/
theorem call_isolated_from_carol :
    SameCall (calling "lounge")
      ([.envelope (lit "g1") (lit "carol") (voiceEnvelope (lit "den") "leave" []),
        .membership (lit "g2") [lit "alice", lit "bob", lit "carol"]].foldl (step noLegs)
        (calling "lounge")) := by
  have hactive : (calling "lounge").active = some ⟨lit "g1", lit "lounge"⟩ := rfl
  refine call_isolated noLegs hactive ?_ ?_
  · simp only [List.forall_mem_cons]
    refine ⟨⟨.inl rfl, .inr ?_⟩, (by decide : lit "g2" ≠ lit "g1"), by simp⟩
    exact fun h : Value.str (lit "den") = .str (lit "lounge") =>
      absurd (Value.str.inj h) (by decide)
  · refine ⟨.inr (.inr ⟨by decide +kernel, fun _ _ => rfl, fun _ h => ?_⟩), ?_, trivial⟩
    · obtain ⟨room, hroom, -, -, hsize⟩ := h
      exact absurd hsize (by decide)
    · intro name hname
      have hkeys : (step noLegs (calling "lounge") (.envelope (lit "g1") (lit "carol")
          (voiceEnvelope (lit "den") "leave" []))).peers.keys = [lit "bob"] := by decide +kernel
      rw [Dict.has_iff_mem_keys, hkeys, List.mem_singleton] at hname
      subst hname
      decide

/-- Alice is in a call with bob in the circle `g1`.  A change of the members of another circle,
where bob is none, takes away bob's leg.  So does bob leaving another room, and a direct call ends
with it. -/
theorem call_cut_from_elsewhere :
    let gone : Event := .membership (lit "g2") [lit "alice"]
    let left : Event := .envelope (lit "g2") (lit "bob") (voiceEnvelope (lit "den") "leave" [])
    (gone.Elsewhere ⟨lit "g1", lit "lounge"⟩ ∧ left.Elsewhere ⟨lit "g1", lit "lounge"⟩ ∧
      left.Elsewhere ⟨lit "g1", lit "dm:alice+bob"⟩) ∧
    (calling "lounge").peers.keys = [lit "bob"] ∧
    (step noLegs (calling "lounge") gone).peers.keys = [] ∧
    (step noLegs (calling "lounge") left).peers.keys = [] ∧
    (step noLegs (calling "dm:alice+bob") left).active = none := by
  have hserver : lit "g2" ≠ lit "g1" := by decide
  refine ⟨⟨hserver, ⟨.inl rfl, .inl hserver⟩, .inl rfl, .inl hserver⟩, ?_⟩
  decide +kernel

end Quorum.Voice
