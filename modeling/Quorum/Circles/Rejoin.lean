import Quorum.Js.Value
import Quorum.Js.Dict

/-!
# Joining a circle again

A device that was removed from a circle, or that has only the backup of it, may be added again by a
Welcome (`onWelcome`) or come back through an invite link (`redeemPendingInvite`).  Both make a new
record for the circle out of the one the device had, field by field, and park it.

The fields that ride the backup are listed elsewhere (`SHARED_FIELDS`), and eight of them are not in
the new record.  So the record keeps what it knew if it had none of the eight
(`rejoin_keeps_shared`).

Here a record is any object, as a function from fields to values, where a field that is absent is
`undefined`.
-/

namespace Quorum.Rejoin

open Js

/-! ### Records -/

/-- A field of a circle's record. -/
inductive Field
  | id | name | channels | voiceChannels | chanMeta | keys | overview | notices | offers | proposals
  | threshold | rsvps | invites | deletedChannels | deletedVoice
  | lastSeq | epoch | seen | verified | verifiedSn | mismatched | joinedAt
  | members | roles | restored | pendingMetaSync
deriving DecidableEq

/-- A circle's record. -/
def CircleRecord := Field → Value

/-- `SHARED_FIELDS`. -/
def sharedFields : List Field :=
  [.id, .name, .channels, .voiceChannels, .chanMeta, .keys, .overview, .notices, .offers,
    .proposals, .threshold, .rsvps, .invites, .deletedChannels, .deletedVoice]

/-- `pick(source, fields)`. -/
def pick (source : CircleRecord) (fields : List Field) : CircleRecord :=
  fun f => if f ∈ fields then source f else .undefined

/-- `Boolean(v?.length)`. -/
def hasLength : Value → Bool
  | .arr _ l => !l.isEmpty
  | .str s => s ≠ []
  | v => (v.get (lit "length")).truthy

/-- The channels of a record as they are parked. -/
def parkedChannels (record : CircleRecord) : Except Error (List Value) :=
  if hasLength (record .channels) then (record .channels).iterate else .ok [.str (lit "general")]

/-- The voice rooms of a record as they are parked. -/
def parkedVoice (record : CircleRecord) : Except Error (List Value) :=
  ((record .voiceChannels).orElse (.ofList [.str (lit "lounge")])).iterate

/-- A half with the lists that are parked of a record. -/
def halfWith (record : CircleRecord) (channels voiceChannels : List Value) : CircleRecord
  | .channels => .ofList channels
  | .voiceChannels => .ofList voiceChannels
  | .chanMeta => (record .chanMeta).orElse (.ofDict .empty)
  | .keys => (record .keys).orElse (.ofDict .empty)
  | .notices => (record .notices).orElse (.ofList [])
  | .rsvps => (record .rsvps).orElse (.ofDict .empty)
  | .invites => (record .invites).orElse (.ofList [])
  | .overview => (record .overview).orElse .null
  | f => pick record sharedFields f

/-- `sharedHalf(record)`. -/
def sharedHalf (record : CircleRecord) : Except Error CircleRecord := do
  let channels ← parkedChannels record
  let voiceChannels ← parkedVoice record
  return halfWith record channels voiceChannels

/-! ### Joining -/

abbrev Servers := Dict Str CircleRecord

/-- What the worker returns for a group that was joined. -/
structure Joined where
  group : Str
  epoch : Number
  members : List Str

/-- `prior?.field`. -/
def known (prior : Option CircleRecord) (f : Field) : Value :=
  match prior with
  | none => .undefined
  | some record => record f

/-- The record both ways of joining make.  They differ in the voice rooms. -/
def rejoined (prior : Option CircleRecord) (joined : Joined) (voiceChannels : Value)
    (lastSeq now : Number) : CircleRecord
  | .id => .str joined.group
  | .name => (known prior .name).orElse (.str joined.group)
  | .channels => (known prior .channels).orElse (.ofList [.str (lit "general")])
  | .voiceChannels => voiceChannels
  | .chanMeta => (known prior .chanMeta).orElse (.ofDict .empty)
  | .overview => known prior .overview
  | .notices => (known prior .notices).orElse (.ofList [])
  | .seen => (known prior .seen).orElse (.ofDict .empty)
  | .verified => known prior .verified
  | .verifiedSn => known prior .verifiedSn
  | .mismatched => known prior .mismatched
  | .members => .ofList (joined.members.map .str)
  | .epoch => .num joined.epoch
  | .lastSeq => .num lastSeq
  | .joinedAt => (known prior .joinedAt).orElse (.num now)
  | .pendingMetaSync => .bool true
  | _ => .undefined

/-- `onWelcome(msg)`, once the group is joined and its state written. -/
def onWelcome (servers : Servers) (joined : Joined) (after now : Number) : Servers :=
  let prior := servers.get? joined.group
  let voiceChannels := (known prior .voiceChannels).orElse (.ofList [.str (lit "lounge")])
  servers.set joined.group (rejoined prior joined voiceChannels after now)

/-- The circle an invite is for is one the device is a live member of. -/
def isLive (servers : Servers) (group : Str) : Bool :=
  match servers.get? group with
  | none => false
  | some record => !(record .restored).truthy

/-- `redeemPendingInvite()`: the relay has named the group of the invite when the circles were
`asked`, and the commit has got the number `seq` when they were `servers`.  `none` if nothing is
done. -/
def redeemPendingInvite (asked : Servers) (invited : Str) (servers : Servers) (joined : Joined)
    (seq now : Number) : Option Servers :=
  if isLive asked invited then none
  else
    let prior := servers.get? joined.group
    some (servers.set joined.group
      (rejoined prior joined (known prior .voiceChannels) seq now))

inductive Path
  | welcome (after : Number)
  | invite (asked : Servers) (invited : Str) (seq : Number)

def Path.join (path : Path) (servers : Servers) (joined : Joined) (now : Number) : Option Servers :=
  match path with
  | .welcome after => some (onWelcome servers joined after now)
  | .invite asked invited seq => redeemPendingInvite asked invited servers joined seq now

def Path.voiceChannels (path : Path) (prior : CircleRecord) : Value :=
  match path with
  | .welcome _ => (prior .voiceChannels).orElse (.ofList [.str (lit "lounge")])
  | .invite _ _ _ => prior .voiceChannels

/-- The record that is installed for a circle the device knew. -/
theorem join_installs {path : Path} {servers servers' : Servers} {joined : Joined} {now : Number}
    {prior : CircleRecord} (hprior : servers.get? joined.group = some prior)
    (h : path.join servers joined now = some servers') :
    ∃ seq, servers'.get? joined.group =
      some (rejoined (some prior) joined (path.voiceChannels prior) seq now) := by
  cases path with
  | welcome after =>
    cases h
    refine ⟨after, ?_⟩
    unfold onWelcome
    rw [hprior, Dict.get?_set_self]
    rfl
  | invite asked invited seq =>
    change redeemPendingInvite asked invited servers joined seq now = some servers' at h
    unfold redeemPendingInvite at h
    split at h
    · cases h
    · cases h
      refine ⟨seq, ?_⟩
      rw [hprior, Dict.get?_set_self]
      rfl

/-! ### What is kept -/

/-- The shared fields that no new record has. -/
def dropped : List Field :=
  [.keys, .offers, .proposals, .threshold, .rsvps, .invites, .deletedChannels, .deletedVoice]

/-- The fields that are filled with a default if they are `null`. -/
def Path.defaulted : Path → List Field
  | .welcome _ => [.name, .channels, .chanMeta, .notices, .voiceChannels]
  | .invite _ _ _ => [.name, .channels, .chanMeta, .notices]

/-- A record that has nothing a new one would lose. -/
structure Path.Covers (path : Path) (group : Str) (prior : CircleRecord) : Prop where
  id : prior .id ≠ .undefined → prior .id = .str group
  notNull : ∀ f ∈ path.defaulted, prior f ≠ .null
  absent : ∀ f ∈ dropped, prior f = .undefined

/-- The new record has what the old one had of the shared fields. -/
def Keeps (prior record : CircleRecord) : Prop :=
  ∀ f ∈ sharedFields, prior f ≠ .undefined → record f = prior f

theorem orElse_eq_self_iff {v d : Value} (hd : d.isNullish = false) (hv : v ≠ .undefined) :
    v.orElse d = v ↔ v ≠ .null := by
  constructor
  · rintro h rfl
    have hd' : d = .null := h
    simp [hd', Value.isNullish] at hd
  · intro hnull
    cases v with
    | undefined => exact absurd rfl hv
    | null => exact absurd rfl hnull
    | bool | num | str | arr | obj | native => rfl

section

variable (path : Path) (prior : CircleRecord) (joined : Joined) (seq now : Number)

/-- The new record of a circle the device knew. -/
def Path.record : CircleRecord :=
  rejoined (some prior) joined (path.voiceChannels prior) seq now

theorem record_dropped {f : Field} (h : f ∈ dropped) :
    path.record prior joined seq now f = .undefined := by
  simp only [dropped, List.mem_cons, List.not_mem_nil, or_false] at h
  rcases h with rfl | rfl | rfl | rfl | rfl | rfl | rfl | rfl <;> rfl

theorem record_defaulted {f : Field} (h : f ∈ path.defaulted) :
    ∃ d, d.isNullish = false ∧ path.record prior joined seq now f = (prior f).orElse d := by
  cases path with
  | welcome after =>
    simp only [Path.defaulted, List.mem_cons, List.not_mem_nil, or_false] at h
    rcases h with rfl | rfl | rfl | rfl | rfl <;> exact ⟨_, rfl, rfl⟩
  | invite asked invited seq =>
    simp only [Path.defaulted, List.mem_cons, List.not_mem_nil, or_false] at h
    rcases h with rfl | rfl | rfl | rfl <;> exact ⟨_, rfl, rfl⟩

theorem shared_of_dropped {f : Field} (h : f ∈ dropped) : f ∈ sharedFields := by
  revert f
  decide

theorem Path.shared_of_defaulted {f : Field} (h : f ∈ path.defaulted) : f ∈ sharedFields := by
  cases path with
  | welcome after => exact (by decide : Path.defaulted (.welcome 0) ⊆ sharedFields) h
  | invite asked invited seq =>
    exact (by decide : Path.defaulted (.invite .empty [] 0) ⊆ sharedFields) h

/-- Every other shared field is copied. -/
theorem record_of_shared {f : Field} (h : f ∈ sharedFields) :
    f = .id ∨ f ∈ path.defaulted ∨ f ∈ dropped ∨ path.record prior joined seq now f = prior f := by
  cases path with
  | welcome after | invite asked invited seq =>
    cases f <;> first | simp [Path.defaulted, dropped]; done | exact .inr (.inr (.inr rfl)) |
      simp [sharedFields] at h

theorem keeps_iff :
    Keeps prior (path.record prior joined seq now) ↔ path.Covers joined.group prior := by
  constructor
  · intro h
    refine ⟨fun hid => (h .id (by decide) hid).symm, ?_, ?_⟩
    · intro f hf hnull
      obtain ⟨d, hd, hrecord⟩ := record_defaulted path prior joined seq now hf
      have hne : prior f ≠ .undefined := fun hu => by cases hnull.symm.trans hu
      have hkept := h f (path.shared_of_defaulted hf) hne
      rw [hrecord, orElse_eq_self_iff hd hne] at hkept
      exact hkept hnull
    · intro f hf
      by_contra hne
      have hkept := h f (shared_of_dropped hf) hne
      rw [record_dropped path prior joined seq now hf] at hkept
      exact hne hkept.symm
  · intro h f hf hne
    rcases record_of_shared path prior joined seq now hf with rfl | hf | hf | hrecord
    · exact (h.id hne).symm
    · obtain ⟨d, hd, hrecord⟩ := record_defaulted path prior joined seq now hf
      rw [hrecord, orElse_eq_self_iff hd hne]
      exact h.notNull f hf
    · exact absurd (h.absent f hf) hne
    · exact hrecord

end

/-! ### What is parked -/

/-- The other device of the account finds in the new blob what the old one had. -/
def Parks (prior record : CircleRecord) : Prop :=
  ∀ half, sharedHalf prior = .ok half → ∃ half', sharedHalf record = .ok half' ∧
    ∀ f ∈ sharedFields, prior f ≠ .undefined → half' f = half f

variable {path : Path} {prior : CircleRecord} {joined : Joined} {seq now : Number}

theorem parkedChannels_eq (h : Keeps prior (path.record prior joined seq now)) :
    parkedChannels (path.record prior joined seq now) = parkedChannels prior := by
  unfold parkedChannels
  by_cases hne : prior .channels = .undefined
  · have hrecord : path.record prior joined seq now .channels = .ofList [.str (lit "general")] := by
      change (prior .channels).orElse _ = _
      rw [hne]
      rfl
    rw [hrecord, hne]
    rfl
  · rw [h .channels (by decide) hne]

theorem parkedVoice_eq (h : Keeps prior (path.record prior joined seq now)) :
    parkedVoice (path.record prior joined seq now) = parkedVoice prior := by
  unfold parkedVoice
  by_cases hne : prior .voiceChannels = .undefined
  · cases path with
    | welcome after =>
      have hrecord : (Path.welcome after).record prior joined seq now .voiceChannels =
          .ofList [.str (lit "lounge")] := by
        change (prior .voiceChannels).orElse _ = _
        rw [hne]
        rfl
      rw [hrecord, hne]
      rfl
    | invite asked invited n => rfl
  · rw [h .voiceChannels (by decide) hne]

/-- What is parked of a field depends on that field alone, except for the two lists. -/
theorem parks_of_keeps (h : Keeps prior (path.record prior joined seq now)) :
    Parks prior (path.record prior joined seq now) := by
  intro half hhalf
  unfold sharedHalf at hhalf ⊢
  rw [parkedChannels_eq h, parkedVoice_eq h]
  cases hchannels : parkedChannels prior with
  | error e => simp [hchannels, bind, Except.bind] at hhalf
  | ok channels =>
    cases hvoice : parkedVoice prior with
    | error e => simp [hchannels, hvoice, bind, Except.bind] at hhalf
    | ok voiceChannels =>
      simp only [hchannels, hvoice] at hhalf ⊢
      refine ⟨_, rfl, fun f hf hne => ?_⟩
      cases hhalf
      have hkept := h f hf hne
      cases f <;> first | rfl | simp only [halfWith, pick, hkept]

/-- **Being added again keeps the shared fields if there are none of the eight that a new record
lacks**, and then the blob parked afterwards has them as well. -/
theorem rejoin_keeps_shared {path : Path} {servers servers' : Servers} {joined : Joined}
    {now : Number} {prior : CircleRecord} (hprior : servers.get? joined.group = some prior)
    (h : path.join servers joined now = some servers') :
    ∃ record, servers'.get? joined.group = some record ∧
      (Keeps prior record ↔ path.Covers joined.group prior) ∧
      (path.Covers joined.group prior → Parks prior record) := by
  obtain ⟨seq, hrecord⟩ := join_installs hprior h
  have hiff := keeps_iff path prior joined seq now
  exact ⟨_, hrecord, hiff, fun hcovers => parks_of_keeps (hiff.mpr hcovers)⟩

/-- A group that is joined. -/
def team : Joined := ⟨lit "team", .ofRat 3, [lit "alice", lit "bob"]⟩

/-- A device that was added to the group for the first time. -/
def addedOnce : Servers := onWelcome .empty team (.ofRat 7) (.ofRat 0)

theorem second_welcome_keeps :
    ∃ prior record, addedOnce.get? (lit "team") = some prior ∧
      (onWelcome addedOnce team (.ofRat 9) (.ofRat 1)).get? (lit "team") = some record ∧
      Keeps prior record ∧ Parks prior record := by
  have hprior : addedOnce.get? team.group =
      some (rejoined none team (.ofList [.str (lit "lounge")]) (.ofRat 7) (.ofRat 0)) := by
    rfl
  obtain ⟨record, hrecord, hiff, hparks⟩ := rejoin_keeps_shared hprior
    (show (Path.welcome (.ofRat 9)).join addedOnce team (.ofRat 1) = some _ from rfl)
  have hcovers : (Path.welcome (.ofRat 9)).Covers team.group
      (rejoined none team (.ofList [.str (lit "lounge")]) (.ofRat 7) (.ofRat 0)) := by
    refine ⟨fun _ => rfl, ?_, ?_⟩
    · intro f hf hnull
      simp only [Path.defaulted, List.mem_cons, List.not_mem_nil, or_false] at hf
      rcases hf with rfl | rfl | rfl | rfl | rfl <;> cases hnull
    · intro f hf
      simp only [dropped, List.mem_cons, List.not_mem_nil, or_false] at hf
      rcases hf with rfl | rfl | rfl | rfl | rfl | rfl | rfl | rfl <;> rfl
  exact ⟨_, record, hprior, hrecord, hiff.mpr hcovers, hparks hcovers⟩

/-- What the backup has of the group: two signatures are needed, and a room was deleted. -/
def restoredTeam : CircleRecord
  | .id => .str (lit "team")
  | .name => .str (lit "Team")
  | .threshold => .num (.ofRat 2)
  | .deletedChannels => .ofList [.str (lit "plans")]
  | .restored => .bool true
  | _ => .undefined

/-- A device restored from the backup. -/
def restoredDevice : Servers := Dict.empty.set (lit "team") restoredTeam

/-- The record of the group on a device. -/
def teamOn (servers : Servers) (f : Field) : Value := known (servers.get? (lit "team")) f

/-- What a device parks of the group. -/
def parkedBy (servers : Servers) (f : Field) : Except Error Value :=
  (sharedHalf (teamOn servers)).map (· f)

/-- Either way of coming back loses both, in the record and in the blob. -/
theorem threshold_lost :
    teamOn restoredDevice .threshold = .num (.ofRat 2) ∧
      parkedBy restoredDevice .deletedChannels = .ok (.ofList [.str (lit "plans")]) ∧
      (∀ servers ∈ [(Path.welcome (.ofRat 9)).join restoredDevice team (.ofRat 1),
          (Path.invite restoredDevice (lit "team") (.ofRat 9)).join restoredDevice team (.ofRat 1)],
        servers.map (teamOn · .threshold) = some .undefined ∧
        servers.map (parkedBy · .threshold) = some (.ok .undefined) ∧
        servers.map (parkedBy · .deletedChannels) = some (.ok .undefined)) := by
  refine ⟨rfl, rfl, ?_⟩
  intro servers h
  simp only [List.mem_cons, List.not_mem_nil, or_false] at h
  rcases h with rfl | rfl
  · exact ⟨rfl, rfl, rfl⟩
  · exact ⟨rfl, rfl, rfl⟩

end Quorum.Rejoin
