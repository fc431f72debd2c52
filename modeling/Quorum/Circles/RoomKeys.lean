import Quorum.Circles
import Quorum.Envelope.RoomKeys

/-!
# Room keys across a merge of backups

Room keys are merged channel by channel wherever envelopes carry them.  A device that loses the
swap merges circle by circle: of a circle that both devices hold it keeps its own copy, as it is,
and with it only the keys that are in that copy.  The parked blob is the account's only copy of a
key for rooms whose other readers have moved on.

`keysKept_iff` says when nothing is lost: exactly if every key of every listed circle is in the
circle that is listed last under its id, or the channel is tombstoned there.
-/

namespace Quorum

open Js

/-- A channel was removed on purpose. -/
def Rooms.Tombstoned (rooms : Rooms) (c : Str) : Prop := .str c ∈ rooms.deletedChannels.getD []

/-- The copy of a circle that holds a key of a channel, or says that the channel is gone. -/
def SharedHalf.Accounts (circle : SharedHalf) (c k : Str) : Prop :=
  circle.rooms.Holds c k ∨ circle.rooms.Tombstoned c

section

variable (mine theirs : Option (List (Option SharedHalf)))

/-- The merge loses no key of either list. -/
def KeysKept : Prop :=
  ∀ circle, some circle ∈ mine.getD [] ++ theirs.getD [] → ∀ c k, circle.rooms.Holds c k →
    ∃ merged ∈ mergeBackups mine theirs, merged.id = circle.id ∧ merged.Accounts c k

/-- Every circle with a key has an id, and the copy that is listed last under that id, one's own
after the other device's, accounts for the key. -/
def LastAccounts : Prop :=
  ∀ circle, some circle ∈ mine.getD [] ++ theirs.getD [] → ∀ c k, circle.rooms.Holds c k →
    ∃ id last, circle.key = some id ∧
      lastListed (theirs.getD [] ++ mine.getD []) id = some last ∧ last.Accounts c k

variable {mine theirs}

theorem SharedHalf.id_of_key {circle : SharedHalf} {id : Str} (h : circle.key = some id) :
    circle.id = some id :=
  (Option.filter_eq_some_iff.mp h).1

/-- Circles of one id count alike. -/
theorem SharedHalf.key_congr {circle circle' : SharedHalf} (h : circle.id = circle'.id) :
    circle.key = circle'.key := by
  unfold SharedHalf.key
  rw [h]

/-- **The merge keeps every key exactly if the last listed copies account for them.** -/
theorem keysKept_iff : KeysKept mine theirs ↔ LastAccounts mine theirs := by
  refine forall_congr' fun circle => forall_congr' fun _ => forall_congr' fun c =>
    forall_congr' fun k => forall_congr' fun _ => ⟨?_, ?_⟩
  · rintro ⟨merged, hmerged, hid, haccounts⟩
    obtain ⟨id, hkey, hlast⟩ := mem_mergeBackups.mp hmerged
    exact ⟨id, merged, SharedHalf.key_congr hid ▸ hkey, hlast, haccounts⟩
  · rintro ⟨id, last, hkey, hlast, haccounts⟩
    have hlastKey := key_of_lastListed hlast
    refine ⟨last, mem_mergeBackups.mpr ⟨id, hlastKey, hlast⟩, ?_, haccounts⟩
    rw [SharedHalf.id_of_key hlastKey, SharedHalf.id_of_key hkey]

end

/-! ### A rotation that is undone -/

instance (rooms : Rooms) (c : Str) : Decidable (rooms.Tombstoned c) :=
  decidable_of_iff ((rooms.deletedChannels.getD []).any (·.strictEq (.str c)) = true) (by
    simp [Rooms.Tombstoned, Value.strictEq_str])

instance (circle : SharedHalf) (c k : Str) : Decidable (circle.Accounts c k) :=
  inferInstanceAs (Decidable (_ ∨ _))

/-- What is parked of a circle whose only channel has the given settings. -/
def parkedWith (settings : Value) : SharedHalf :=
  let record := circleWith [(lit "general", settings)] false
  { id := some record.id, name := record.name, rooms := record.rooms, board := record.board
    ledger := record.ledger }

/-- The settings of a channel whose key was rotated once. -/
def rotatedEntry : Value :=
  .obj 1 [(lit "hid", .str (lit "log")), (lit "hkey", .str (lit "new")),
    (lit "hkeys", .arr 2 [.str (lit "old")])]

/-- A device that has not seen the rotation parks its own copy, and the new key is gone. -/
theorem rotated_key_unparked :
    ¬KeysKept (some [some (parkedWith (keyEntry "log" "old"))])
      (some [some (parkedWith rotatedEntry)]) := by
  intro h
  obtain ⟨merged, hmerged, -, haccounts⟩ := h (parkedWith rotatedEntry) (by simp) (lit "general")
    (lit "new") (by decide +kernel)
  have hmerge : mergeBackups (some [some (parkedWith (keyEntry "log" "old"))])
      (some [some (parkedWith rotatedEntry)]) = [parkedWith (keyEntry "log" "old")] := rfl
  rw [hmerge, List.mem_singleton] at hmerged
  subst hmerged
  exact absurd haccounts (by decide +kernel)

end Quorum
