import Quorum.Js.Table
import Quorum.Order.Along

/-!
# Verified members

A user who compares a safety number with another member marks them verified, or mismatched if the
numbers differ (`trust.js`).  Either is kept with the number that was compared, on the device only,
and whenever the members of the circle change it is compared with the number they have then
(`revalidateVerified`).

A device of an earlier build may have a list of verified members and no numbers.  What it then has
after a reload is the list and no number *for anybody* (`hydrate` fills in `verifiedSn`), which
`revalidateVerified` does not take for the record of an earlier build any more, so the list stays.

The numbers of a record are the same object as those of the device's state, so a number that is
cleared is gone from both, and a badge only from the record.  If another circle is written to the
device then and the page is opened again, the badge is back without a number.

In every other run a badge names a key that was compared (`badges_checked`).  A call is taken as one
step: the members and the keys do not change while one of them waits.
-/

namespace Quorum.Trust

open Js

/-! ### Records -/

/-- A safety number: twelve groups of digits, so never the empty string. -/
structure SafetyNumber where
  digits : Str
  nonempty : digits ≠ []
deriving DecidableEq

/-- The fields of a record, or of the state a device keeps, that say who is verified. -/
structure Record where
  verified : Option (List Str)
  verifiedSn : Option (Dict Str SafetyNumber)
  mismatched : Option (Dict Str SafetyNumber)

namespace Record

/-- `record.verified ?? []`. -/
def badges (record : Record) : List Str := record.verified.getD []

/-- `record.verifiedSn ?? {}`. -/
def accepted (record : Record) : Dict Str SafetyNumber := record.verifiedSn.getD .empty

/-- `record.mismatched ?? {}`. -/
def rejected (record : Record) : Dict Str SafetyNumber := record.mismatched.getD .empty

end Record

/-- `Boolean(table?.[peer])`: an own number, or something every object has. -/
def finds (table : Option (Dict Str SafetyNumber)) (peer : Str) : Bool :=
  match table with
  | none => false
  | some table => table.has peer || Value.objectProto.contains peer

/-! ### Transitions -/

/-- `applyVerified(record, peer, sn)`.  The keys come in the order in which they were set; the source
lists those that are array indices first. -/
def applyVerified (record : Record) (peer : Str) (sn : SafetyNumber) : Record :=
  let verifiedSn := record.accepted.set peer sn
  { verified := some verifiedSn.keys
    verifiedSn := some verifiedSn
    mismatched :=
      if finds record.mismatched peer then record.mismatched.map (·.delete peer)
      else record.mismatched }

/-- `applyMismatch(record, peer, sn)`. -/
def applyMismatch (record : Record) (peer : Str) (sn : SafetyNumber) : Record :=
  let mismatched := some (record.rejected.set peer sn)
  if finds record.verifiedSn peer then
    let rest := record.accepted.delete peer
    { verified := some rest.keys, verifiedSn := some rest, mismatched := mismatched }
  else { record with mismatched := mismatched }

/-- `retireMismatch(record, peer, currentSn)`, for a peer that has an own number or none. -/
def retireMismatch (record : Record) (peer : Str) (currentSn : SafetyNumber) : Bool × Record :=
  match record.rejected.get? peer with
  | none => (false, record)
  | some sn =>
    if sn = currentSn then (false, record)
    else (true, { record with mismatched := some (record.rejected.delete peer) })

/-! ### Checking again -/

/-- What a member's safety number is now, `none` if there is no view of the member. -/
abbrev Numbers := Str → Option SafetyNumber

/-- `revalidateVerified` under way: the record, whether something has changed, and the system
messages added. -/
structure Recheck where
  record : Record
  changed : Bool
  posted : List Str

/-- The message for a record of an earlier build. -/
def badgesReset : Str :=
  lit "verification badges were reset — safety numbers are now checked against the key that was " ++
    lit "verified. Please re-check the members you trust."

/-- The message for a mismatch that is over. -/
def warningCleared (peer : Str) : Str :=
  peer ++ lit "'s key changed since you found a mismatch — the warning is cleared, but nothing has " ++
    lit "been verified. Compare again before trusting them."

/-- The message for a verification that is over. -/
def verificationCleared (peer : Str) : Str :=
  peer ++ lit "'s safety number changed — verification cleared. Check it again before trusting " ++
    lit "this device."

/-- One turn of the first loop. -/
def recheckMismatch (numbers : Numbers) (r : Recheck) (peer : Str) : Recheck :=
  match numbers peer with
  | none => r
  | some now =>
    match retireMismatch r.record peer now with
    | (false, _) => r
    | (true, record) => ⟨record, true, r.posted ++ [warningCleared peer]⟩

/-- One turn of the second loop. -/
def recheckVerified (members : List Str) (numbers : Numbers) (r : Recheck)
    (entry : Str × SafetyNumber) : Recheck :=
  if members.contains entry.1 then
    match numbers entry.1 with
    | none => r
    | some now =>
      if now ≠ entry.2 then
        { record := { r.record with verifiedSn := some (r.record.accepted.delete entry.1) }
          changed := true
          posted := r.posted ++ [verificationCleared entry.1] }
      else r
  else r

/-- `revalidateVerified(record)`. -/
def revalidateVerified (members : List Str) (numbers : Numbers) (record : Record) : Recheck :=
  if record.verifiedSn.isNone && !record.badges.isEmpty then
    ⟨{ record with verifiedSn := some .empty, verified := some [] }, true, [badgesReset]⟩
  else
    let r := record.rejected.keys.foldl (recheckMismatch numbers) ⟨record, false, []⟩
    if r.record.accepted.keys.isEmpty then r
    else
      let r := r.record.accepted.entries.foldl (recheckVerified members numbers) r
      if r.changed then { r with record := { r.record with verified := some r.record.accepted.keys } }
      else r

/-! ### Runs -/

/-- What `hydrate` makes of the state the device keeps. -/
def hydrate (device : Record) : Record where
  verified := some device.badges
  verifiedSn := some device.accepted
  mismatched := some device.rejected

/-- A circle on a device: the state of the device as it was last `saved`, the same in memory, the
record, the members and their numbers. -/
structure Circle where
  saved : Record
  device : Record
  record : Record
  members : List Str
  numbers : Numbers

inductive Event
  /-- The page is opened again. -/
  | hydrate
  /-- The user compares the number of a member, who has it. -/
  | markVerified (peer : Str)
  /-- The user compares the number of a member, who has another one. -/
  | markMismatch (peer : Str)
  /-- The badges are checked. -/
  | revalidateVerified
  /-- The record is written to the device. -/
  | persistDevice
  /-- Another circle's record is written to the device, and with it the state of all of them. -/
  | persistOther
  /-- The members change. -/
  | roster (members : List Str)
  /-- The keys of the members change. -/
  | rekey (numbers : Numbers)

/-- `persistDevice(record)`, which keeps every one of the fields that is there. -/
def persistDevice (c : Circle) : Circle := { c with saved := c.record, device := c.record }

/-- `markVerified` and `markMismatch`: nothing is done if there is no number. -/
def mark (apply : Record → Str → SafetyNumber → Record) (c : Circle) (peer : Str) : Circle :=
  match c.numbers peer with
  | none => c
  | some sn => persistDevice { c with record := apply c.record peer sn }

/-- The state of the device after the record's tables were changed in place: where it has them, they
are the record's. -/
def inPlace (device record : Record) : Record :=
  { device with
    verifiedSn := device.verifiedSn.map fun _ => record.accepted
    mismatched := device.mismatched.map fun _ => record.rejected }

def step (c : Circle) : Event → Circle
  | .hydrate => { c with device := c.saved, record := hydrate c.saved, members := [] }
  | .markVerified peer => mark applyVerified c peer
  | .markMismatch peer => mark applyMismatch c peer
  | .revalidateVerified =>
    let record := (Trust.revalidateVerified c.members c.numbers c.record).record
    { c with device := inPlace c.device record, record }
  | .persistDevice => persistDevice c
  | .persistOther => { c with saved := c.device }
  | .roster members => { c with members }
  | .rekey numbers => { c with numbers }

def opened (device : Record) (numbers : Numbers) : Circle :=
  ⟨device, device, hydrate device, [], numbers⟩

def run (c : Circle) (events : List Event) : Circle := events.foldl step c

/-! ### What the transitions keep -/

/-- The badges are those of the accepted numbers, and nobody's number was both accepted and
rejected. -/
structure Record.Consistent (record : Record) : Prop where
  badges : record.badges = record.accepted.keys
  apart : ∀ peer, ¬(record.accepted.has peer = true ∧ record.rejected.has peer = true)

theorem Consistent.of_eq {record record' : Record} (h : record.Consistent)
    (hbadges : record'.badges = record.badges) (haccepted : record'.accepted = record.accepted)
    (hrejected : record'.rejected = record.rejected) : record'.Consistent := by
  refine ⟨?_, ?_⟩
  · rw [hbadges, haccepted]
    exact h.badges
  · rw [haccepted, hrejected]
    exact h.apart

theorem consistent_hydrate {device : Record} (h : device.Consistent) : (hydrate device).Consistent :=
  Consistent.of_eq h rfl rfl rfl

theorem has_delete (d : Dict Str SafetyNumber) (k k' : Str) :
    (d.delete k).has k' = true ↔ k ≠ k' ∧ d.has k' = true := by
  rw [Dict.has_eq_isSome, Dict.has_eq_isSome, Dict.get?_delete]
  by_cases h : k = k' <;> simp [h]

theorem has_set (d : Dict Str SafetyNumber) (k k' : Str) (sn : SafetyNumber) :
    (d.set k sn).has k' = true ↔ k = k' ∨ d.has k' = true := by
  rw [Dict.has_eq_isSome, Dict.has_eq_isSome, Dict.get?_set]
  by_cases h : k = k' <;> simp [h]

/-- What is rejected after a member was verified. -/
theorem has_rejected_applyVerified (record : Record) (peer peer' : Str) (sn : SafetyNumber) :
    (applyVerified record peer sn).rejected.has peer' = true ↔
      peer ≠ peer' ∧ record.rejected.has peer' = true := by
  unfold applyVerified Record.rejected
  cases record.mismatched with
  | none => simp [finds, Dict.has, Dict.empty]
  | some table =>
    by_cases hfinds : finds (some table) peer
    · rw [if_pos hfinds]
      exact has_delete table peer peer'
    · rw [if_neg hfinds]
      have hhas : ¬table.has peer = true := by
        unfold finds at hfinds
        simp only [Bool.or_eq_true, not_or] at hfinds
        exact hfinds.1
      constructor
      · intro h
        refine ⟨?_, h⟩
        rintro rfl
        exact hhas h
      · exact And.right

theorem consistent_applyVerified {record : Record} (h : record.Consistent) (peer : Str)
    (sn : SafetyNumber) : (applyVerified record peer sn).Consistent := by
  refine ⟨rfl, ?_⟩
  rintro peer' ⟨haccepted, hrejected⟩
  rw [has_rejected_applyVerified] at hrejected
  obtain hpeer | haccepted := (has_set record.accepted peer peer' sn).mp haccepted
  · exact hrejected.1 hpeer
  · exact h.apart peer' ⟨haccepted, hrejected.2⟩

theorem rejected_applyMismatch (record : Record) (peer : Str) (sn : SafetyNumber) :
    (applyMismatch record peer sn).rejected = record.rejected.set peer sn := by
  unfold applyMismatch
  split <;> rfl

/-- What is accepted after a member was found to have another number. -/
theorem has_accepted_applyMismatch (record : Record) (peer peer' : Str) (sn : SafetyNumber) :
    (applyMismatch record peer sn).accepted.has peer' = true ↔
      peer ≠ peer' ∧ record.accepted.has peer' = true := by
  unfold applyMismatch
  split
  case isTrue => exact has_delete record.accepted peer peer'
  case isFalse hfinds =>
    refine ⟨fun h => ⟨?_, h⟩, And.right⟩
    rintro rfl
    change record.accepted.has peer = true at h
    unfold Record.accepted at h
    cases htable : record.verifiedSn with
    | none => simp [htable, Dict.has, Dict.empty] at h
    | some table =>
      rw [htable] at h
      exact hfinds (by simpa [finds, htable] using .inl h)

theorem consistent_applyMismatch {record : Record} (h : record.Consistent) (peer : Str)
    (sn : SafetyNumber) : (applyMismatch record peer sn).Consistent := by
  refine ⟨?_, ?_⟩
  · unfold applyMismatch
    split
    · rfl
    · exact h.badges
  · rintro peer' ⟨haccepted, hrejected⟩
    rw [rejected_applyMismatch, has_set] at hrejected
    rw [has_accepted_applyMismatch] at haccepted
    obtain hpeer | hrejected := hrejected
    · exact haccepted.1 hpeer
    · exact h.apart peer' ⟨haccepted.2, hrejected⟩

/-! ### What checking again keeps -/

/-- A table with some of the entries of another. -/
def Within (d d' : Dict Str SafetyNumber) : Prop :=
  ∀ peer sn, d.get? peer = some sn → d'.get? peer = some sn

theorem Within.refl (d : Dict Str SafetyNumber) : Within d d := fun _ _ => id

theorem Within.delete {d d' : Dict Str SafetyNumber} (h : Within d d') (peer : Str) :
    Within (d.delete peer) d' := fun peer' sn hget => h peer' sn (Dict.get?_of_delete hget)

theorem Within.has {d d' : Dict Str SafetyNumber} (h : Within d d') {peer : Str}
    (hhas : d.has peer = true) : d'.has peer = true := by
  rw [Dict.has_eq_isSome] at hhas ⊢
  obtain ⟨sn, hsn⟩ := Option.isSome_iff_exists.mp hhas
  rw [h peer sn hsn]
  rfl

/-- What the first loop keeps of a record: it only clears warnings. -/
structure Retired (record record' : Record) : Prop where
  verified : record'.verified = record.verified
  verifiedSn : record'.verifiedSn = record.verifiedSn
  rejected : Within record'.rejected record.rejected

theorem retired_recheckMismatch {numbers : Numbers} {record : Record} {r : Recheck}
    (h : Retired record r.record) (peer : Str) :
    Retired record (recheckMismatch numbers r peer).record := by
  unfold recheckMismatch
  cases numbers peer with
  | none => exact h
  | some now =>
    unfold retireMismatch
    cases r.record.rejected.get? peer with
    | none => exact h
    | some sn =>
      by_cases hsn : sn = now
      · simp only [hsn, if_true]
        exact h
      · simp only [hsn, if_false]
        exact ⟨h.verified, h.verifiedSn, h.rejected.delete peer⟩

/-- What the second loop keeps of a record: it only clears accepted numbers, and says so. -/
structure Cleared (record : Record) (r : Recheck) : Prop where
  badges : r.record.badges = record.badges
  rejected : r.record.rejected = record.rejected
  accepted : Within r.record.accepted record.accepted
  unchanged : r.changed = false → r.record.accepted = record.accepted

section

variable {members : List Str} {numbers : Numbers} {record : Record} {r : Recheck}

/-- One turn of the second loop: the number was compared, or nothing is done. -/
theorem recheckVerified_cases (members : List Str) (numbers : Numbers) (r : Recheck)
    (entry : Str × SafetyNumber) :
    (recheckVerified members numbers r entry = r ∧
      ∀ now, entry.1 ∈ members → numbers entry.1 = some now → now = entry.2) ∨
    recheckVerified members numbers r entry =
      { record := { r.record with verifiedSn := some (r.record.accepted.delete entry.1) }
        changed := true
        posted := r.posted ++ [verificationCleared entry.1] } := by
  unfold recheckVerified
  by_cases hmember : members.contains entry.1
  · rw [if_pos hmember]
    cases hnumber : numbers entry.1 with
    | none => exact .inl ⟨rfl, fun now _ h => by cases h⟩
    | some now =>
      by_cases hnow : now = entry.2
      · refine .inl ⟨if_neg (by simpa using hnow), ?_⟩
        rintro _ - hsome
        rw [← Option.some.inj hsome]
        exact hnow
      · exact .inr (if_pos hnow)
  · rw [if_neg hmember]
    exact .inl ⟨rfl, fun now hmem => absurd (List.contains_iff_mem.mpr hmem) hmember⟩

theorem cleared_recheckVerified (h : Cleared record r) (entry : Str × SafetyNumber) :
    Cleared record (recheckVerified members numbers r entry) := by
  obtain ⟨heq, -⟩ | heq := recheckVerified_cases members numbers r entry
  · rw [heq]
    exact h
  · rw [heq]
    exact ⟨h.badges, h.rejected, h.accepted.delete entry.1, fun hfalse => by cases hfalse⟩

theorem cleared_foldl (h : Cleared record r) (entries : List (Str × SafetyNumber)) :
    Cleared record (entries.foldl (recheckVerified members numbers) r) :=
  foldl_preserves (P := Cleared record) (fun _ entry h => cleared_recheckVerified h entry)
    entries h

theorem cleared_self (r : Recheck) : Cleared r.record r :=
  ⟨rfl, rfl, Within.refl _, fun _ => rfl⟩

/-- Whoever is left after the second loop has the number they were verified with. -/
theorem compared_foldl {entries : List (Str × SafetyNumber)} {entry : Str × SafetyNumber}
    (hentry : entry ∈ entries) {now : SafetyNumber} (hmember : entry.1 ∈ members)
    (hnow : numbers entry.1 = some now)
    (hhas : (entries.foldl (recheckVerified members numbers) r).record.accepted.has entry.1 =
      true) : now = entry.2 := by
  induction entries generalizing r with
  | nil => cases hentry
  | cons first entries ih =>
    rw [List.foldl_cons] at hhas
    obtain rfl | hentry := List.mem_cons.mp hentry
    · obtain ⟨-, hcompared⟩ | heq := recheckVerified_cases members numbers r entry
      · exact hcompared now hmember hnow
      · -- the entry was cleared, and nothing brings it back
        have hcleared : Cleared _ (entries.foldl (recheckVerified members numbers) _) :=
          cleared_foldl (cleared_self (recheckVerified members numbers r entry)) entries
        have hhas := hcleared.accepted.has hhas
        rw [heq] at hhas
        exact absurd rfl ((has_delete r.record.accepted entry.1 entry.1).mp hhas).1
    · exact ih hentry hhas

end

/-- What a check leaves. -/
structure Checked (members : List Str) (numbers : Numbers) (record : Record) : Prop where
  consistent : record.Consistent
  compared : ∀ peer now, peer ∈ record.badges → peer ∈ members → numbers peer = some now →
    record.accepted.get? peer = some now

/-- The record after a check of one that is consistent, with no other numbers than before. -/
theorem checked_revalidateVerified (members : List Str) (numbers : Numbers) {record : Record}
    (h : record.Consistent) :
    Checked members numbers (revalidateVerified members numbers record).record ∧
      Within (revalidateVerified members numbers record).record.accepted record.accepted ∧
      Within (revalidateVerified members numbers record).record.rejected record.rejected := by
  -- badges without numbers are from before numbers were kept, and not consistent
  have hlegacy : (record.verifiedSn.isNone && !record.badges.isEmpty) = false := by
    cases hsn : record.verifiedSn with
    | some table => rfl
    | none =>
      have hnil : record.badges = [] := by
        rw [h.badges, Record.accepted, hsn]
        rfl
      rw [hnil]
      rfl
  unfold revalidateVerified
  rw [hlegacy, if_neg Bool.false_ne_true]
  -- the first loop retires mismatches and leaves what is accepted alone
  set r := record.rejected.keys.foldl (recheckMismatch numbers) ⟨record, false, []⟩ with hr
  have hretired : Retired record r.record :=
    foldl_preserves (P := fun r : Recheck => Retired record r.record)
      (fun _ peer h => retired_recheckMismatch h peer) _ ⟨rfl, rfl, Within.refl _⟩
  have haccepted : r.record.accepted = record.accepted :=
    congrArg (·.getD .empty) hretired.verifiedSn
  have hconsistent : r.record.Consistent := by
    have hbadges : r.record.badges = record.badges := congrArg (·.getD []) hretired.verified
    refine ⟨by rw [hbadges, haccepted, h.badges], ?_⟩
    rintro peer ⟨haccept, hreject⟩
    rw [haccepted] at haccept
    exact h.apart peer ⟨haccept, hretired.rejected.has hreject⟩
  by_cases hempty : r.record.accepted.keys.isEmpty
  · rw [if_pos hempty]
    refine ⟨⟨hconsistent, ?_⟩, haccepted ▸ Within.refl _, hretired.rejected⟩
    intro peer now hpeer
    rw [hconsistent.badges, List.isEmpty_iff.mp hempty] at hpeer
    cases hpeer
  · rw [if_neg hempty]
    -- the second loop drops what is accepted and no longer current
    set r' := r.record.accepted.entries.foldl (recheckVerified members numbers) r with hr'
    have hcleared : Cleared r.record r' := cleared_foldl (cleared_self r) _
    have hcompared (peer : Str) (now : SafetyNumber) (hpeer : peer ∈ r'.record.accepted.keys)
        (hmember : peer ∈ members) (hnow : numbers peer = some now) :
        r'.record.accepted.get? peer = some now := by
      have hhas := Dict.has_iff_mem_keys.mpr hpeer
      rw [Dict.has_eq_isSome] at hhas
      obtain ⟨sn, hsn⟩ := Option.isSome_iff_exists.mp hhas
      have hentry : (peer, sn) ∈ r.record.accepted.entries :=
        Dict.mem_entries_iff.mpr (hcleared.accepted peer sn hsn)
      rw [compared_foldl hentry hmember hnow (Dict.has_iff_mem_keys.mpr hpeer), hsn]
    have hapart (peer : Str) :
        ¬(r'.record.accepted.has peer = true ∧ r'.record.rejected.has peer = true) := by
      rintro ⟨haccept, hreject⟩
      rw [hcleared.rejected] at hreject
      exact hconsistent.apart peer ⟨hcleared.accepted.has haccept, hreject⟩
    have hwithin : Within r'.record.accepted record.accepted := haccepted ▸ hcleared.accepted
    have hwithin' : Within r'.record.rejected record.rejected :=
      hcleared.rejected ▸ hretired.rejected
    by_cases hchanged : r'.changed = true
    · rw [if_pos hchanged]
      exact ⟨⟨⟨rfl, hapart⟩, hcompared⟩, hwithin, hwithin'⟩
    · rw [if_neg hchanged]
      -- the badges are written again only after a change
      have hbadges : r'.record.badges = r'.record.accepted.keys := by
        rw [hcleared.badges, hcleared.unchanged (by simpa using hchanged), hconsistent.badges]
      refine ⟨⟨⟨hbadges, hapart⟩, ?_⟩, hwithin, hwithin'⟩
      rw [hbadges]
      exact hcompared

/-! ### What a run keeps -/

/-- What holds of a circle while all goes well: the record and the saved state are consistent, and
the tables in memory are the same. -/
structure Tidy (c : Circle) : Prop where
  saved : c.saved.Consistent
  record : c.record.Consistent
  accepted : c.device.accepted = c.record.accepted
  rejected : c.device.rejected = c.record.rejected

/-- Another circle is written to the device only while the device's badges are those of the
record. -/
def Settled (c : Circle) : Event → Prop
  | .persistOther => c.device.badges = c.record.badges
  | _ => True

theorem tidy_persistDevice {c : Circle} (h : c.record.Consistent) : Tidy (persistDevice c) :=
  ⟨h, h, rfl, rfl⟩

theorem tidy_mark {apply : Record → Str → SafetyNumber → Record}
    (happly : ∀ {record : Record}, record.Consistent → ∀ peer sn, (apply record peer sn).Consistent)
    {c : Circle} (h : Tidy c) (peer : Str) : Tidy (mark apply c peer) := by
  unfold mark
  cases c.numbers peer with
  | none => exact h
  | some sn => exact tidy_persistDevice (happly h.record peer sn)

theorem Within.eq_empty {d : Dict Str SafetyNumber} (h : Within d .empty) : d = .empty := by
  apply Dict.ext
  apply List.eq_nil_iff_forall_not_mem.mpr
  intro entry hentry
  exact absurd (h entry.1 entry.2 (Dict.mem_entries_iff.mp hentry)) (by simp)

/-- A table the device may not have, after the record's was changed in place.  Where the device has
none the record's is empty, and nothing is added to it. -/
theorem getD_inPlace {table : Option (Dict Str SafetyNumber)} {d : Dict Str SafetyNumber}
    (hwithin : Within d (table.getD .empty)) : (table.map fun _ => d).getD .empty = d := by
  cases table with
  | none => exact hwithin.eq_empty.symm
  | some _ => rfl

theorem tidy_step {c : Circle} {e : Event} (h : Tidy c) (hsettled : Settled c e) :
    Tidy (step c e) := by
  cases e with
  | hydrate => exact ⟨h.saved, consistent_hydrate h.saved, rfl, rfl⟩
  | markVerified peer => exact tidy_mark consistent_applyVerified h peer
  | markMismatch peer => exact tidy_mark consistent_applyMismatch h peer
  | revalidateVerified =>
    obtain ⟨hchecked, haccepted, hrejected⟩ :=
      checked_revalidateVerified c.members c.numbers h.record
    rw [← h.accepted] at haccepted
    rw [← h.rejected] at hrejected
    exact ⟨h.saved, hchecked.consistent, getD_inPlace haccepted, getD_inPlace hrejected⟩
  | persistDevice => exact tidy_persistDevice h.record
  | persistOther => exact ⟨Consistent.of_eq h.record hsettled h.accepted h.rejected, h.record,
      h.accepted, h.rejected⟩
  | roster members | rekey numbers => exact ⟨h.saved, h.record, h.accepted, h.rejected⟩

/-- A circle in which every badge names a key that was compared, and that the member still has as
far as it can be told. -/
def Circle.Checked (c : Circle) : Prop := Trust.Checked c.members c.numbers c.record

/-- After every check of a run, every badge names a key that was compared, if the device's list of
badges was that of its numbers at first and no other circle is written to the device while a cleared
badge is not. -/
theorem badges_checked {device : Record} {numbers : Numbers} {events : List Event}
    (hdevice : device.Consistent) (hevents : Along step Settled (opened device numbers) events) :
    (run (opened device numbers) (events ++ [.revalidateVerified])).Checked := by
  have htidy : Tidy (run (opened device numbers) events) :=
    hevents.preserves (fun _ _ => tidy_step) ⟨hdevice, consistent_hydrate hdevice, rfl, rfl⟩
  unfold run
  rw [List.foldl_append]
  exact (checked_revalidateVerified _ _ htidy.record).1

def someNumber : SafetyNumber := ⟨lit "12345", by decide⟩

def otherNumber : SafetyNumber := ⟨lit "54321", by decide⟩

def newDevice : Record := ⟨none, none, none⟩

/-- A device that has a list of an earlier build. -/
def earlierDevice : Record := ⟨some [lit "bob"], none, none⟩

/-- Bob is verified, and then their key changes. -/
def bobRekeyed : List Event :=
  [.rekey fun _ => some someNumber, .markVerified (lit "bob"), .rekey fun _ => some otherNumber,
    .roster [lit "bob"]]

theorem consistent_newDevice : newDevice.Consistent := by
  refine ⟨rfl, ?_⟩
  rintro peer ⟨h, -⟩
  cases h

theorem badges_checked_bob :
    (run (opened newDevice fun _ => none) (bobRekeyed ++ [.revalidateVerified])).Checked :=
  badges_checked consistent_newDevice (by simp [bobRekeyed, Along, Settled])

/-- A device of an earlier build after a check. -/
def earlierChecked : Circle := run (opened earlierDevice fun _ => none) [.revalidateVerified]

/-- A device that was saved, for another circle, before a cleared badge was, and opened again. -/
def openedAgain : Circle :=
  run (opened newDevice fun _ => none)
    (bobRekeyed ++ [.revalidateVerified, .persistOther, .hydrate, .revalidateVerified])

/-- Both have a badge without a number. -/
theorem badge_without_number :
    earlierChecked.record.badges = [lit "bob"] ∧ earlierChecked.record.accepted.keys = [] ∧
      openedAgain.record.badges = [lit "bob"] ∧ openedAgain.record.accepted.keys = [] := by
  decide +kernel

end Quorum.Trust
