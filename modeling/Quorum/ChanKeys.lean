import Quorum.Js.Value

/-!
# Room keys

A channel's entry in the circle's record (`chanMeta[ch]`) names the log this device writes to
(`hid`), the key it writes under (`hkey`), superseded keys (`hkeys`) and other logs that still hold
messages (`alts`).  `mergeChanKeys` folds another member's view of the entry in; removing a member
rotates the write keys (`rotateHistoryKeys`).

The other view comes off the wire and may be any JSON value.  The log ids and keys in it are then
any values too, compared as the language compares map keys and sorted by their strings.
-/

namespace Quorum

open Js

/-! ### Logs and the keys that open them -/

section

variable {K : Type} [BEq K]

/-- `note(hid, keys)`: the keys are noted against a log, which is tracked even without any. -/
def note (truthy : K → Bool) (logs : Dict K (List K)) (p : K × List K) : Dict K (List K) :=
  if truthy p.1 then
    logs.set p.1 ((p.2.filter truthy).foldl insertNew ((logs.get? p.1).getD []))
  else logs

/-- The logs after a sequence of notes. -/
def noteAll (truthy : K → Bool) (notes : List (K × List K)) : Dict K (List K) :=
  notes.foldl (note truthy) Dict.empty

/-- Every key of every log but the current one. -/
def supersededKeys (truthy isCurrent : K → Bool) (logs : Dict K (List K)) : List K :=
  (unique logs.values.flatten).filter fun k => truthy k && !isCurrent k

/-- The logs that are read but not written, each with the first key noted against it. -/
def otherLogs (logs : Dict K (List K)) (hids : List K) : List (K × K) :=
  hids.filterMap fun hid => ((logs.get? hid).getD []).head?.map fun k => (hid, k)

end

/-! ### Merging two views -/

/-- The fields of an entry that are about keys. -/
def keyFields : List Str := [lit "hid", lit "hkey", lit "hkeys", lit "alts"]

/-- The settings of an entry: every other field. -/
def settingsOf (side : Value) : List (Str × Value) :=
  side.ownProps.filter fun p => p.1 ∉ keyFields

/-- A parameter with the default `{}`. -/
def orEmpty : Value → Value
  | .undefined => Value.ofDict Dict.empty
  | v => v

/-- What one side notes: its log with the current and the superseded keys, its other logs, and the
superseded keys once more. -/
def notesOf (side : Value) : Except Error (List (Value × List Value)) :=
  if !side.truthy then .ok []
  else do
    let hid := side.get (lit "hid")
    let hkeys ← (side.get (lit "hkeys")).elements
    let alts ← (side.get (lit "alts")).elements
    return (hid, side.get (lit "hkey") :: hkeys) ::
      alts.map (fun alt => (alt.get (lit "hid"), [alt.get (lit "hkey")])) ++ [(hid, hkeys)]

/-- `side?.hid === primary && side.hkey`. -/
def writeKey (side primary : Value) : Value :=
  if (side.get (lit "hid")).strictEq primary then side.get (lit "hkey") else .bool false

/-- `{ hid, hkey }`, another log of an entry. -/
def altEntry (a : Value × Value) : Value :=
  Value.ofDict (Dict.ofList [(lit "hid", a.1), (lit "hkey", a.2)])

/-- The key fields of a merged entry; a field with nothing in it is left out. -/
def keyProps (primary : Value) (hkey : Option Value) (hkeys : List Value)
    (alts : List (Value × Value)) : List (Str × Value) :=
  (lit "hid", primary) :: (hkey.map fun k => (lit "hkey", k)).toList ++
    (if hkeys.isEmpty then [] else [(lit "hkeys", Value.ofList hkeys)]) ++
    (if alts.isEmpty then [] else [(lit "alts", Value.ofList (alts.map altEntry))])

/-- The settings of both sides, those of one written over those of the other. -/
def mergedSettings (mine theirs : Value) (mineWins : Bool) : Dict Str Value :=
  if mineWins then (Dict.ofList (settingsOf theirs)).setAll (settingsOf mine)
  else (Dict.ofList (settingsOf mine)).setAll (settingsOf theirs)

/-- The key of the log written to: a current key someone is actually writing under if there is one,
else the first key noted. -/
def chosenKey (mine theirs : Value) (logs : Dict Value (List Value)) (primary : Value) :
    Except Error (Option Value) := do
  let preferred ← Value.sort
    ([writeKey mine primary, writeKey theirs primary].filter Value.truthy)
  return (preferred ++ (logs.get? primary).getD []).head?

/-- `mergeChanKeys(mine, theirs, { mineWins })`. -/
def mergeChanKeys (mine theirs : Value) (mineWins : Bool) : Except Error Value := do
  let mine := orEmpty mine
  let theirs := orEmpty theirs
  let settings := mergedSettings mine theirs mineWins
  let logs := noteAll Value.truthy ((← notesOf mine) ++ (← notesOf theirs))
  match ← Value.sort logs.keys with
  | [] => return Value.ofDict settings
  | primary :: others =>
    let hkey ← chosenKey mine theirs logs primary
    let hkeys := supersededKeys Value.truthy (fun k => hkey.any k.strictEq) logs
    return Value.ofDict (settings.setAll (keyProps primary hkey hkeys (otherLogs logs others)))

/-! ### Rotating keys -/

/-- An entry under a fresh key, or nothing for an entry without a log or a key. -/
def rotateMeta (entry : Value) (fresh : Str) : Except Error (Option Value) :=
  let hkey := entry.get (lit "hkey")
  if !(entry.get (lit "hid")).truthy || !hkey.truthy then .ok none
  else do
    let hkeys ← (entry.get (lit "hkeys")).elements
    return some (Value.ofDict
      (entry.spread.setAll
        [(lit "hkey", .str fresh), (lit "hkeys", Value.ofList (hkey :: hkeys))]))

/-- The turn of the loop for one channel: the entries so far and the channels that rotated. -/
def rotateChannel (mint : Str → Str) (acc : Dict Str Value × List Str) (p : Str × Value) :
    Except Error (Dict Str Value × List Str) := do
  match ← rotateMeta p.2 (mint p.1) with
  | none => return acc
  | some entry => return (acc.1.set p.1 entry, acc.2 ++ [p.1])

/-- `rotateHistoryKeys(record)` on the record's `chanMeta`, with the key that `generateHistoryKey`
mints for each channel: the entries afterwards and the channels that rotated. -/
def rotateHistoryKeys (chanMeta : Dict Str Value) (mint : Str → Str) :
    Except Error (Dict Str Value × List Str) :=
  chanMeta.entries.foldlM (rotateChannel mint) (chanMeta, [])

end Quorum
