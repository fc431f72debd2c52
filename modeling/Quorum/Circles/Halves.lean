import Quorum.Circles.Rejoin
import Quorum.Envelope.Rebroadcast

/-!
# The halves of a record

One half of a record is parked on the relay for every device of the account (`sharedHalf`), the
other never leaves the device (`deviceHalf`).  The record is put together again from both
(`hydrate`): what it had is there again, and nothing of one half gets into the other
(`halves_faithful`).

An array is copied on the way, so a list is the same by its elements only.  A field that is `null`
counts as absent, as it does for `??`.
-/

namespace Quorum.Rejoin

open Js

/-! ### Taking a record apart -/

/-- `DEVICE_FIELDS`. -/
def deviceFields : List Field :=
  [.lastSeq, .epoch, .seen, .verified, .verifiedSn, .mismatched, .joinedAt]

/-- `deviceHalf(record)`. -/
def deviceHalf (record : CircleRecord) : CircleRecord
  | .lastSeq => (record .lastSeq).orElse (.num 0)
  | .epoch => (record .epoch).orElse (.num 0)
  | f => pick record deviceFields f

/-! ### Putting it together -/

/-- `hydrate(shared, device, { now, live })`. -/
def hydrate (shared : CircleRecord) (device : Option CircleRecord) (now : Number) (live : Bool) :
    Except Error CircleRecord := do
  let half ← sharedHalf shared
  return fun
    | .id => shared .id
    | .name => (shared .name).orElse (shared .id)
    | .lastSeq => (known device .lastSeq).orElse (.num 0)
    | .epoch => (known device .epoch).orElse (.num 0)
    | .seen => (known device .seen).orElse (.ofDict .empty)
    | .verified => (known device .verified).orElse (.ofList [])
    | .verifiedSn => (known device .verifiedSn).orElse (.ofDict .empty)
    | .mismatched => (known device .mismatched).orElse (.ofDict .empty)
    | .joinedAt => (known device .joinedAt).orElse (.num now)
    | .members => .ofList []
    | .roles => .ofDict .empty
    | .restored => if live then .undefined else .bool true
    | f => half f

/-- `s?.id`, if it is one that counts. -/
def blobId (s : Option CircleRecord) : Option Str :=
  match known s .id with
  | .str id => if id = [] then none else some id
  | _ => none

/-- `adoptCircles` under way: the records the device holds, and those of them that are new. -/
structure Adopting where
  servers : Servers
  fresh : List CircleRecord

/-- The record `adoptCircles` makes of a blob: what is on the boards is normalized on the way in. -/
def adopted (platform : Platform) (s : CircleRecord) (device : Option CircleRecord) (now : Number)
    (live : Bool) : Except Error CircleRecord := do
  let record ← hydrate s device now live
  let overview ← normalizeOverview platform (s .overview) now
  let notices ← normalizeNotices (arrayOrEmpty (s .notices)) now
  return fun
    | .overview => (overview.map Overview.toValue).getD .null
    | .notices => .ofList (notices.map Notice.toValue)
    | f => record f

/-- One turn of `adoptCircles`. -/
def adopt (platform : Platform) (deviceState : Str → Option CircleRecord) (mlsGroups : Str → Bool)
    (now : Number) (a : Adopting) (s : Option CircleRecord) : Except Error Adopting :=
  match s, blobId s with
  | some blob, some id =>
    if a.servers.has id then .ok a
    else do
      let record ← adopted platform blob (deviceState id) now (mlsGroups id)
      return ⟨a.servers.set id record, a.fresh ++ [record]⟩
  | _, _ => .ok a

/-- `adoptCircles(servers)`. -/
def adoptCircles (platform : Platform) (deviceState : Str → Option CircleRecord)
    (mlsGroups : Str → Bool) (now : Number) (servers : Servers)
    (circles : List (Option CircleRecord)) : Except Error Adopting :=
  circles.foldlM (adopt platform deviceState mlsGroups now) ⟨servers, []⟩

/-! ### What a record gets back -/

/-- The same value, or a copy of the same array. -/
def SameContents (v w : Value) : Prop := v = w ∨ ∃ ref ref' l, v = .arr ref l ∧ w = .arr ref' l

/-- A record with a channel: it has an array of them, and one of voice rooms if it has any. -/
structure Listed (record : CircleRecord) : Prop where
  channels : ∃ ref l, record .channels = .arr ref l ∧ l ≠ []
  voiceChannels : (record .voiceChannels).isNullish = false →
    ∃ ref l, record .voiceChannels = .arr ref l

/-- What a field is that the record does not define. -/
def fallback (record : CircleRecord) (now : Number) : Field → Value
  | .name => record .id
  | .voiceChannels => .ofList [.str (lit "lounge")]
  | .chanMeta => .ofDict .empty
  | .keys => .ofDict .empty
  | .notices => .ofList []
  | .rsvps => .ofDict .empty
  | .invites => .ofList []
  | .overview => .null
  | .lastSeq => .num 0
  | .epoch => .num 0
  | .seen => .ofDict .empty
  | .verified => .ofList []
  | .verifiedSn => .ofDict .empty
  | .mismatched => .ofDict .empty
  | .joinedAt => .num now
  | f => record f

/-- A field is what it was if the record defines it, and its default if not. -/
structure Regained (record record' : CircleRecord) (now : Number) (f : Field) : Prop where
  defined : (record f).isNullish = false → SameContents (record' f) (record f)
  absent : (record f).isNullish = true → record' f = fallback record now f

theorem orElse_of_nullish {v : Value} (h : v.isNullish = true) (d : Value) : v.orElse d = d :=
  if_pos h

theorem orElse_of_defined {v : Value} (h : v.isNullish = false) (d : Value) : v.orElse d = v :=
  if_neg (by rw [h]; exact Bool.false_ne_true)

theorem orElse_orElse (v d : Value) : (v.orElse d).orElse d = v.orElse d := by
  by_cases h : v.isNullish = true
  · rw [orElse_of_nullish h]
    unfold Value.orElse
    split <;> rfl
  · have h : v.isNullish = false := by simpa using h
    rw [orElse_of_defined h, orElse_of_defined h]

variable {ref : ℕ} {l : List Value} {record : CircleRecord}

theorem hasLength_arr (h : l ≠ []) : hasLength (.arr ref l) = true := by
  cases l with
  | nil => exact absurd rfl h
  | cons v l => rfl

/-! ### The parked lists -/

theorem codePoints_ne_nil {s : Str} (h : s ≠ []) : codePoints s ≠ [] := by
  match s with
  | [] => exact absurd rfl h
  | [u] => exact List.cons_ne_nil _ _
  | u :: v :: t =>
    unfold codePoints
    split <;> exact List.cons_ne_nil _ _

theorem parkedChannels_ne_nil (h : parkedChannels record = .ok l) : l ≠ [] := by
  unfold parkedChannels at h
  split at h
  case isTrue hlength =>
    cases hchannels : record .channels with
    | arr ref elems =>
      rw [hchannels] at h hlength
      cases h
      simpa [hasLength] using hlength
    | str s =>
      rw [hchannels] at h hlength
      cases h
      have hs : s ≠ [] := by simpa [hasLength] using hlength
      exact mt List.map_eq_nil_iff.mp (codePoints_ne_nil hs)
    | undefined | null | bool _ | num _ | obj _ _ | native _ =>
      rw [hchannels] at h
      cases h
  case isFalse =>
    cases h
    exact List.cons_ne_nil _ _

theorem parkedChannels_arr
    (h : record .channels = .arr ref l) (hl : l ≠ []) : parkedChannels record = .ok l := by
  unfold parkedChannels
  rw [h, hasLength_arr hl]
  rfl

theorem parkedVoice_arr (h : record .voiceChannels = .arr ref l) : parkedVoice record = .ok l := by
  unfold parkedVoice
  rw [h]
  rfl

/-- The voice rooms are parked as a list. -/
theorem exists_parkedVoice (h : Listed record) :
    ∃ l, parkedVoice record = .ok l ∧
      ((record .voiceChannels).isNullish = false →
        SameContents (.ofList l) (record .voiceChannels)) ∧
      ((record .voiceChannels).isNullish = true → l = [.str (lit "lounge")]) := by
  cases hnull : (record .voiceChannels).isNullish with
  | true =>
    refine ⟨_, ?_, by simp, fun _ => rfl⟩
    unfold parkedVoice
    rw [orElse_of_nullish hnull]
    rfl
  | false =>
    obtain ⟨ref, l, hl⟩ := h.voiceChannels hnull
    exact ⟨l, parkedVoice_arr hl, fun _ => .inr ⟨0, ref, l, rfl, hl⟩, by simp⟩

section

variable {record record' : CircleRecord} {now : Number} {f : Field}

theorem regained_of_eq (h : record' f = record f) (hf : fallback record now f = record f) :
    Regained record record' now f :=
  ⟨fun _ => .inl h, fun _ => h.trans hf.symm⟩

theorem regained_of_orElse (h : record' f = (record f).orElse (fallback record now f)) :
    Regained record record' now f := by
  refine ⟨fun hdefined => .inl ?_, fun hnull => ?_⟩
  · rw [h, orElse_of_defined hdefined]
  · rw [h, orElse_of_nullish hnull]

/-- **What a record defines is there after it was taken apart and put together.** -/
theorem hydrate_halves (h : Listed record) (now : Number) (live : Bool) :
    ∃ half record', sharedHalf record = .ok half ∧
      hydrate half (some (deviceHalf record)) now live = .ok record' ∧
      ∀ f ∈ sharedFields ++ deviceFields, Regained record record' now f := by
  obtain ⟨ref, channels, hchannels, hne⟩ := h.channels
  obtain ⟨voice, hvoice, hsame, hlounge⟩ := exists_parkedVoice h
  have hhalf : sharedHalf record = .ok (halfWith record channels voice) := by
    unfold sharedHalf
    rw [parkedChannels_arr hchannels hne, hvoice]
    rfl
  have hagain : sharedHalf (halfWith record channels voice) =
      .ok (halfWith (halfWith record channels voice) channels voice) := by
    unfold sharedHalf
    rw [parkedChannels_arr (show _ = Value.arr 0 channels from rfl) hne,
      parkedVoice_arr (show _ = Value.arr 0 voice from rfl)]
    rfl
  refine ⟨_, _, hhalf, by unfold hydrate; rw [hagain]; rfl, ?_⟩
  intro f hf
  cases f with
  | channels =>
    exact ⟨fun _ => .inr ⟨0, ref, channels, rfl, hchannels⟩, by simp [hchannels, Value.isNullish]⟩
  | voiceChannels => exact ⟨hsame, fun hnull => congrArg Value.ofList (hlounge hnull)⟩
  | id | offers | proposals | threshold | deletedChannels | deletedVoice =>
    exact regained_of_eq rfl rfl
  | name | seen | verified | verifiedSn | mismatched | joinedAt => exact regained_of_orElse rfl
  | chanMeta | keys | notices | rsvps | invites | overview | lastSeq | epoch =>
    exact regained_of_orElse (orElse_orElse _ _)
  | members | roles | restored | pendingMetaSync => simp [sharedFields, deviceFields] at hf

/-- What is parked again is what was parked. -/
theorem sharedHalf_idempotent {half : CircleRecord} (h : sharedHalf record = .ok half) :
    sharedHalf half = .ok half := by
  obtain ⟨channels, hchannels, h⟩ := bind_eq_ok.mp h
  obtain ⟨voice, hvoice, h⟩ := bind_eq_ok.mp h
  cases h
  rw [sharedHalf, parkedChannels_arr (show _ = Value.arr 0 channels from rfl)
    (parkedChannels_ne_nil hchannels), parkedVoice_arr (show _ = Value.arr 0 voice from rfl)]
  refine congrArg Except.ok (funext fun f => ?_)
  cases f with
  | chanMeta | keys | notices | rsvps | invites | overview => exact orElse_orElse _ _
  | _ => rfl

/-- What is parked depends on the shared fields only. -/
theorem sharedHalf_congr (h : ∀ f ∈ sharedFields, record f = record' f) :
    sharedHalf record = sharedHalf record' := by
  have hhalf (channels voice : List Value) :
      halfWith record channels voice = halfWith record' channels voice := by
    funext f
    by_cases hf : f ∈ sharedFields
    · have hfield := h f hf
      cases f <;> first | rfl | simp only [halfWith, pick, hfield]
    · cases f <;> first | rfl | exact absurd (by decide) hf
  unfold sharedHalf parkedChannels parkedVoice
  simp only [h .channels (by decide), h .voiceChannels (by decide), hhalf]

/-! ### What a blob cannot change -/

/-- The fields of a record that come from the device alone. -/
def ownHalf (device : Option CircleRecord) (now : Number) (live : Bool) : CircleRecord
  | .lastSeq => (known device .lastSeq).orElse (.num 0)
  | .epoch => (known device .epoch).orElse (.num 0)
  | .seen => (known device .seen).orElse (.ofDict .empty)
  | .verified => (known device .verified).orElse (.ofList [])
  | .verifiedSn => (known device .verifiedSn).orElse (.ofDict .empty)
  | .mismatched => (known device .mismatched).orElse (.ofDict .empty)
  | .joinedAt => (known device .joinedAt).orElse (.num now)
  | .members => .ofList []
  | .roles => .ofDict .empty
  | .restored => if live then .undefined else .bool true
  | _ => .undefined

variable {device : Option CircleRecord} {live : Bool} {s : CircleRecord}

theorem hydrate_own {shared : CircleRecord}
    (h : hydrate shared device now live = .ok record) (hf : f ∉ sharedFields) :
    record f = ownHalf device now live f := by
  unfold hydrate at h
  obtain ⟨half, hhalf, h⟩ := bind_eq_ok.mp h
  obtain ⟨channels, -, hhalf⟩ := bind_eq_ok.mp hhalf
  obtain ⟨voice, -, hhalf⟩ := bind_eq_ok.mp hhalf
  cases hhalf
  cases h
  cases f with
  | lastSeq | epoch | seen | verified | verifiedSn | mismatched | joinedAt | members | roles |
    restored | pendingMetaSync => rfl
  | _ => exact absurd (by decide) hf

theorem adopted_own {platform : Platform} (h : adopted platform s device now live = .ok record)
    (hf : f ∉ sharedFields) :
    record f = ownHalf device now live f := by
  obtain ⟨hydrated, hhydrated, h⟩ := bind_eq_ok.mp h
  obtain ⟨overview, -, h⟩ := bind_eq_ok.mp h
  obtain ⟨notices, -, h⟩ := bind_eq_ok.mp h
  cases h
  rw [← hydrate_own hhydrated hf]
  cases f with
  | overview | notices => exact absurd (by decide) hf
  | _ => rfl

theorem id_adopted {platform : Platform} (h : adopted platform s device now live = .ok record) :
    record .id = s .id := by
  obtain ⟨hydrated, hhydrated, h⟩ := bind_eq_ok.mp h
  obtain ⟨half, -, hhydrated⟩ := bind_eq_ok.mp hhydrated
  obtain ⟨overview, -, h⟩ := bind_eq_ok.mp h
  obtain ⟨notices, -, h⟩ := bind_eq_ok.mp h
  cases hhydrated
  cases h
  rfl

theorem blobId_eq_some {id : Str} (h : blobId (some s) = some id) :
    s .id = .str id := by
  unfold blobId known at h
  dsimp only at h
  split at h
  case h_1 id' hid =>
    split at h
    · cases h
    · rw [hid, Option.some.inj h]
  case h_2 => cases h

section

variable {platform : Platform} {deviceState : Str → Option CircleRecord} {mlsGroups : Str → Bool}
  {servers : Servers}

/-- What `adoptCircles` keeps: the records the device held, and in the new ones what the device
knows. -/
structure Adopted (deviceState : Str → Option CircleRecord) (mlsGroups : Str → Bool) (now : Number)
    (servers : Servers) (a : Adopting) : Prop where
  held : ∀ id record, servers.get? id = some record → a.servers.get? id = some record
  own : ∀ record ∈ a.fresh, ∃ id, record .id = .str id ∧
    ∀ f ∉ sharedFields, record f = ownHalf (deviceState id) now (mlsGroups id) f

theorem adopted_adopt {a a' : Adopting} {s : Option CircleRecord}
    (h : Adopted deviceState mlsGroups now servers a)
    (hadopt : adopt platform deviceState mlsGroups now a s = .ok a') :
    Adopted deviceState mlsGroups now servers a' := by
  unfold adopt at hadopt
  split at hadopt
  case h_1 blob id hid =>
    split at hadopt
    · cases hadopt
      exact h
    case isFalse hhas =>
      obtain ⟨record, hrecord, hadopt⟩ := bind_eq_ok.mp hadopt
      cases hadopt
      refine ⟨?_, ?_⟩
      · intro id' record' hget
        have hheld := h.held id' record' hget
        rw [Dict.get?_set_of_ne, hheld]
        rintro rfl
        rw [Dict.has_eq_isSome, hheld] at hhas
        exact hhas rfl
      · intro record' hmem
        obtain hmem | hmem := List.mem_append.mp hmem
        · exact h.own record' hmem
        · obtain rfl := List.mem_singleton.mp hmem
          exact ⟨id, (id_adopted hrecord).trans (blobId_eq_some hid),
            fun f hf => adopted_own hrecord hf⟩
  case h_2 =>
    cases hadopt
    exact h

theorem adopted_adoptCircles {circles : List (Option CircleRecord)} {a : Adopting}
    (h : adoptCircles platform deviceState mlsGroups now servers circles = .ok a) :
    Adopted deviceState mlsGroups now servers a := by
  refine foldlM_invariant (P := Adopted deviceState mlsGroups now servers)
    (fun _ _ _ _ ha hstep => adopted_adopt ha hstep) ⟨fun _ _ => id, ?_⟩ h
  intro record hmem
  cases hmem

end

/-- **The halves of a record are faithful and apart.**  Taken apart and put together a record has
what it had; what is parked of it is parked again unchanged, and is the same for any record with the
same shared fields; and what a blob says is never taken for what the device knows. -/
theorem halves_faithful :
    (∀ (record : CircleRecord) (now : Number) (live : Bool), Listed record →
      ∃ half record', sharedHalf record = .ok half ∧
        hydrate half (some (deviceHalf record)) now live = .ok record' ∧
        ∀ f ∈ sharedFields ++ deviceFields, Regained record record' now f) ∧
    (∀ record half : CircleRecord, sharedHalf record = .ok half → sharedHalf half = .ok half) ∧
    (∀ record record' : CircleRecord, (∀ f ∈ sharedFields, record f = record' f) →
      sharedHalf record = sharedHalf record') ∧
    ∀ (platform : Platform) (deviceState : Str → Option CircleRecord) (mlsGroups : Str → Bool)
      (now : Number) (servers : Servers) (circles : List (Option CircleRecord)) (a : Adopting),
      adoptCircles platform deviceState mlsGroups now servers circles = .ok a →
        Adopted deviceState mlsGroups now servers a :=
  ⟨fun _ now live h => hydrate_halves h now live, fun _ _ => sharedHalf_idempotent,
    fun _ _ => sharedHalf_congr, fun _ _ _ _ _ _ _ => adopted_adoptCircles⟩

end

end Quorum.Rejoin
