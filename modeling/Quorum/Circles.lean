import Quorum.Envelope

/-!
# Circles on the relay

The half of a record that every device of an account shares is parked on the relay, sealed, and read
back from there (`circles.js`; `Rejoin.sharedHalf` is how it is made).  Two devices may park at the
same time; the one that comes second folds what the other has parked into its own circles
(`mergeBackups`) and parks the result.

The key directory and the invites of a circle ride along in the same blob.  No function here looks
at them, so they are left out.
-/

namespace Quorum

open Js

/-! ### The shared half -/

/-- The half of a record that is parked.  A blob is any JSON value, so the id may be missing. -/
structure SharedHalf where
  id : Option Str
  name : Value
  rooms : Rooms
  board : Board
  ledger : Ledger

/-- `circle?.id`, if it is one that counts. -/
def SharedHalf.key (circle : SharedHalf) : Option Str := circle.id.filter (· ≠ [])

/-! ### Merging what two devices parked -/

/-- `if (circle?.id) byId.set(circle.id, circle)`. -/
def setCircle (byId : Dict Str SharedHalf) : Option SharedHalf → Dict Str SharedHalf
  | none => byId
  | some circle =>
    match circle.key with
    | none => byId
    | some id => byId.set id circle

/-- `mergeBackups(mine, theirs)`. -/
def mergeBackups (mine theirs : Option (List (Option SharedHalf))) : List SharedHalf :=
  let byId := (theirs.getD []).foldl setCircle Dict.empty
  ((mine.getD []).foldl setCircle byId).values

/-- The last circle in a list that has a given id. -/
def lastListed (l : List (Option SharedHalf)) (id : Str) : Option SharedHalf :=
  l.reverse.reduceOption.find? fun circle => circle.key = some id

section

variable {l : List (Option SharedHalf)} {id : Str} {circle : SharedHalf}

theorem lastListed_concat (l : List (Option SharedHalf)) (o : Option SharedHalf) (id : Str) :
    lastListed (l ++ [o]) id = (lastListed [o] id).or (lastListed l id) := by
  unfold lastListed
  rw [List.reverse_concat]
  cases o with
  | none => rfl
  | some circle => by_cases h : circle.key = some id <;> simp [h]

theorem get?_setCircle (byId : Dict Str SharedHalf) (o : Option SharedHalf) (id : Str) :
    (setCircle byId o).get? id = (lastListed [o] id).or (byId.get? id) := by
  unfold lastListed setCircle
  cases o with
  | none => rfl
  | some circle =>
    cases hkey : circle.key with
    | none => simp [hkey]
    | some key =>
      by_cases h : key = id
      · subst h
        simp [hkey]
      · simp [hkey, h, Dict.get?_set_of_ne]

/-- The circle that is stored for an id is the last one listed. -/
theorem get?_foldl_setCircle (byId : Dict Str SharedHalf) (l : List (Option SharedHalf)) (id : Str) :
    (l.foldl setCircle byId).get? id = (lastListed l id).or (byId.get? id) := by
  induction l using List.reverseRecOn with
  | nil => rfl
  | append_singleton l o ih =>
    rw [List.foldl_concat, get?_setCircle, ih, lastListed_concat, Option.or_assoc]

theorem key_of_lastListed (h : lastListed l id = some circle) : circle.key = some id := by
  simpa using List.find?_some h

/-- **The merge keeps of every id the circle that is listed last**, with the other device's list
before one's own. -/
theorem mem_mergeBackups {mine theirs : Option (List (Option SharedHalf))} :
    circle ∈ mergeBackups mine theirs ↔
      ∃ id, circle.key = some id ∧ lastListed (theirs.getD [] ++ mine.getD []) id = some circle := by
  have hvalues : circle ∈ mergeBackups mine theirs ↔ ∃ id,
      lastListed (theirs.getD [] ++ mine.getD []) id = some circle := by
    unfold mergeBackups
    dsimp only
    rw [← List.foldl_append, Dict.mem_values_iff]
    simp only [get?_foldl_setCircle, Dict.get?_empty, Option.or_none]
  rw [hvalues]
  constructor
  · rintro ⟨id, h⟩
    exact ⟨id, key_of_lastListed h, h⟩
  · rintro ⟨id, -, h⟩
    exact ⟨id, h⟩

end

end Quorum
