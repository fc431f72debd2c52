import Quorum.Js.Value
import Quorum.Mls.Removal

/-!
# The key that is verified and the key that is used

Two members compare a safety number, which is made of the signature keys of both (`safety_number`).
An entry of a channel's log counts as signed by a member if its signature is good under the key
that the circle's directory has for them (`keys.js`); the directory is filled from the roster of
the group.

Both look a member up by name, and several leaves may have the same name.  The safety number takes
the first of them.  The worker makes an object of the roster, in which the last one is left.  So the
key that was compared is the key in the directory if the first and the last leaf have the same
(`verified_key_in_directory`).
-/

namespace Quorum.Mls

open Js (Dict)
open Store (Bytes)

variable {mls : OpenMls}

/-! ### The safety number -/

/-- A name or a key with its length before it. -/
def hashed (bytes : Bytes) : Bytes := beBytes 8 bytes.length ++ bytes

/-- `parties.sort()` for two of them. -/
def sortParties (a b : Bytes × Bytes) : List (Bytes × Bytes) :=
  if b.1 < a.1 ∨ b.1 = a.1 ∧ b.2 < a.2 then [b, a] else [a, b]

/-- What is hashed for two members and their keys. -/
def safetyInput (me peer : Credential) : Bytes :=
  asBytes "e2ee-safety-number-v1" ++
    (sortParties (asBytes me.handle, me.signatureKey) (asBytes peer.handle, peer.signatureKey)).flatMap
      fun party => hashed party.1 ++ hashed party.2

/-- `format!("{:05}", n % 100_000)`. -/
def fiveDigits (n : ℕ) : String :=
  String.ofList ([10000, 1000, 100, 10, 1].map fun unit => Char.ofNat (48 + n / unit % 10))

/-- Twelve groups of five digits of a hash. -/
def safetyDigits (hash : Bytes) : String :=
  " ".intercalate ((List.range 12).map fun i =>
    fiveDigits (ofBeBytes [hash.getD (i * 2) 0, hash.getD (i * 2 + 1) 0, hash.getD (24 + i / 2) 0]))

/-- `safety_number`. -/
def safetyNumber (sha256 : Bytes → Bytes) (c : ChatClient mls) (id peer : String) :
    Except CoreError String :=
  match c.groups.get? id with
  | none => .error (.unknownGroup id)
  | some group =>
    match findMember group peer with
    | none => .error (noMember peer)
    | some leaf =>
      .ok (safetyDigits (sha256 (safetyInput c.credential ⟨peer, leaf.signatureKey⟩)))

/-! ### The directory -/

/-- `memberKeys` of the worker: an object, in which `__proto__` is no property. -/
def rosterObject (pairs : List (String × Bytes)) : Dict String Bytes :=
  pairs.foldl (fun out p => if p.1 = "__proto__" then out else out.set p.1 p.2) .empty

/-- `b64`. -/
structure Base64 where
  enc : Bytes → String
  dec : String → Bytes
  dec_enc : ∀ bytes, dec (enc bytes) = bytes
  enc_ne : ∀ bytes, bytes ≠ [] → enc bytes ≠ ""

/-- What the directory is kept in. -/
structure KeyRecord where
  restored : Bool
  keys : Option (Dict String String)
  members : Option (List String)

/-- The loop of `mergeKeyDirectory`. -/
structure Merge where
  keys : Dict String String
  conflicts : List String
  changed : Bool

/-- `Boolean(keys[handle])`: a name that is no own property may be one of every object. -/
def knows (keys : Dict String String) (handle : String) : Bool :=
  match keys.get? handle with
  | some key => key ≠ ""
  | none => (Js.Value.inherited (Js.lit handle)).truthy

/-- A member of the roster. -/
def Merge.add (b64 : Base64) (m : Merge) (p : String × Bytes) : Merge :=
  if p.1 = "" ∨ p.2 = [] then m
  else if m.keys.get? p.1 = some (b64.enc p.2) then m
  else
    { keys := m.keys.set p.1 (b64.enc p.2)
      conflicts := if knows m.keys p.1 then m.conflicts ++ [p.1] else m.conflicts
      changed := true }

/-- `mergeKeyDirectory(record, roster)`, before the record is written. -/
def mergeKeyDirectory (b64 : Base64) (record : KeyRecord) (roster : Dict String Bytes) : Merge :=
  roster.entries.foldl (Merge.add b64) ⟨record.keys.getD .empty, [], false⟩

/-- `refreshKeyDirectory(record)` with the roster the worker has returned. -/
def refreshKeyDirectory (b64 : Base64) (record : KeyRecord) (roster : Dict String Bytes) : KeyRecord :=
  if record.restored then record
  else
    let merged := mergeKeyDirectory b64 record roster
    { record with
      keys := if merged.changed then some merged.keys else record.keys
      members := if roster.keys = [] then record.members else some roster.keys }

/-- The key that `verifyEntries` checks the entries of a sender with, if it has one. -/
def directoryKey (b64 : Base64) (record : KeyRecord) (sender : String) : Option Bytes :=
  ((record.keys.getD .empty).get? sender).bind fun key =>
    if key = "" then none else some (b64.dec key)

/-! ### Leaves of one name -/

/-- The keys of the leaves with a name, in the order of the tree. -/
def keysOf (pairs : List (String × Bytes)) (name : String) : List Bytes :=
  (pairs.filter (·.1 = name)).map Prod.snd

variable {name : String} {raw : Bytes} {l : List (String × Bytes)} {record : KeyRecord}

/-- **The object has the last leaf of a name.** -/
theorem get?_rosterObject (pairs : List (String × Bytes)) (h : name ≠ "__proto__") :
    (rosterObject pairs).get? name = (keysOf pairs name).getLast? := by
  unfold rosterObject keysOf
  induction pairs using List.reverseRecOn with
  | nil => rfl
  | append_singleton pairs p ih =>
    rw [List.foldl_concat, List.filter_append, List.map_append]
    by_cases hp : p.1 = name
    · subst hp
      simp [h]
    · have hnone : [p].filter (·.1 = name) = [] := by simp [hp]
      rw [hnone, List.map_nil, List.append_nil, ← ih]
      split
      · rfl
      · rw [Dict.get?_set_of_ne _ _ hp]

theorem get?_rosterObject_proto (pairs : List (String × Bytes)) :
    (rosterObject pairs).get? "__proto__" = none := by
  unfold rosterObject
  induction pairs using List.reverseRecOn with
  | nil => rfl
  | append_singleton pairs p ih =>
    rw [List.foldl_concat]
    split
    · exact ih
    · rename_i hp
      rw [Dict.get?_set_of_ne _ _ hp, ih]

/-- The safety number takes the first leaf of a name. -/
theorem head?_keysOf (leaves : List Member) (name : String) :
    (keysOf (leaves.filterMap fun m => m.identity.map fun n => (n, m.signatureKey)) name).head? =
      (leaves.find? fun m => m.identity = some name).map (·.signatureKey) := by
  induction leaves with
  | nil => rfl
  | cons m leaves ih =>
    unfold keysOf at ih ⊢
    cases hm : m.identity with
    | none => simpa [hm] using ih
    | some n =>
      by_cases hn : n = name
      · simp [hm, hn]
      · simpa [hm, hn] using ih

/-! ### The merge -/

theorem Merge.get?_add_of_skip (b64 : Base64) (m : Merge) {p : String × Bytes}
    (h : p.1 = name → p.1 = "" ∨ p.2 = []) : (m.add b64 p).keys.get? name = m.keys.get? name := by
  unfold Merge.add
  split
  · rfl
  · rename_i hp
    split
    · rfl
    · exact Dict.get?_set_of_ne _ _ fun hname => hp (h hname)

theorem Merge.get?_add_self (b64 : Base64) (m : Merge) (hname : name ≠ "") (hraw : raw ≠ []) :
    (m.add b64 (name, raw)).keys.get? name = some (b64.enc raw) := by
  have hp : ¬(name = "" ∨ raw = []) := by simp [hname, hraw]
  unfold Merge.add
  rw [if_neg hp]
  split
  · assumption
  · exact Dict.get?_set_self ..

theorem get?_merge_of_skip (b64 : Base64) (m : Merge)
    (h : ∀ p ∈ l, p.1 = name → p.1 = "" ∨ p.2 = []) :
    (l.foldl (Merge.add b64) m).keys.get? name = m.keys.get? name := by
  induction l generalizing m with
  | nil => rfl
  | cons p l ih =>
    rw [List.foldl_cons, ih _ fun q hq => h q (List.mem_cons_of_mem _ hq)]
    exact m.get?_add_of_skip b64 (h p List.mem_cons_self)

theorem get?_merge_of_mem (b64 : Base64) (hl : (l.map Prod.fst).Nodup) (hmem : (name, raw) ∈ l)
    (hname : name ≠ "") (hraw : raw ≠ [])
    (m : Merge) : (l.foldl (Merge.add b64) m).keys.get? name = some (b64.enc raw) := by
  induction l generalizing m with
  | nil => cases hmem
  | cons p l ih =>
    obtain ⟨hp, hl⟩ := List.nodup_cons.mp hl
    rw [List.foldl_cons]
    rcases List.mem_cons.mp hmem with rfl | hmem
    · -- no other member has the name, so what follows leaves the entry alone
      rw [get?_merge_of_skip, Merge.get?_add_self b64 m hname hraw]
      intro q hq hqname
      exact absurd (List.mem_map.mpr ⟨q, hq, hqname⟩) hp
    · exact ih hl hmem _

theorem Merge.add_of_not_changed {b64 : Base64} {m : Merge} {p : String × Bytes}
    (h : (m.add b64 p).changed = false) : m.add b64 p = m := by
  revert h
  unfold Merge.add
  split
  · exact fun _ => rfl
  · split
    · exact fun _ => rfl
    · intro h
      cases h

theorem merge_of_not_changed {b64 : Base64} {m : Merge}
    (h : (l.foldl (Merge.add b64) m).changed = false) : l.foldl (Merge.add b64) m = m := by
  induction l using List.reverseRecOn with
  | nil => rfl
  | append_singleton l p ih =>
    rw [List.foldl_concat] at h ⊢
    have hadd := Merge.add_of_not_changed h
    rw [hadd] at h ⊢
    exact ih h

/-- What the directory is after the roster was merged into it, whether it was written or not. -/
theorem keys_refresh (b64 : Base64) (h : record.restored = false) (roster : Dict String Bytes) :
    (refreshKeyDirectory b64 record roster).keys.getD .empty =
      (mergeKeyDirectory b64 record roster).keys := by
  unfold refreshKeyDirectory
  rw [h, if_neg Bool.false_ne_true]
  cases hchanged : (mergeKeyDirectory b64 record roster).changed with
  | true => simp [hchanged]
  | false =>
    have hsame : (mergeKeyDirectory b64 record roster).keys = record.keys.getD .empty :=
      congrArg Merge.keys (merge_of_not_changed hchanged)
    simp [hchanged, hsame]

theorem directoryKey_refresh (b64 : Base64) (h : record.restored = false)
    {roster : Dict String Bytes} {peer : String} (hget : roster.get? peer = some raw)
    (hpeer : peer ≠ "") (hraw : raw ≠ []) :
    directoryKey b64 (refreshKeyDirectory b64 record roster) peer = some raw := by
  have hmerged : (mergeKeyDirectory b64 record roster).keys.get? peer = some (b64.enc raw) :=
    get?_merge_of_mem b64 roster.nodup_keys (Dict.mem_entries_iff.mpr hget) hpeer hraw _
  unfold directoryKey
  rw [keys_refresh b64 h, hmerged, Option.bind_some, if_neg (b64.enc_ne raw hraw), b64.dec_enc]

theorem directoryKey_refresh_of_skip (b64 : Base64) {roster : Dict String Bytes}
    {peer : String} (h : record.restored = true ∨ ∀ raw, roster.get? peer = some raw →
      peer = "" ∨ raw = []) :
    directoryKey b64 (refreshKeyDirectory b64 record roster) peer = directoryKey b64 record peer := by
  cases hrestored : record.restored with
  | true =>
    unfold refreshKeyDirectory
    rw [hrestored, if_pos rfl]
  | false =>
    have hskip := h.resolve_left (by simp [hrestored])
    have hmerged : (mergeKeyDirectory b64 record roster).keys.get? peer =
        (record.keys.getD .empty).get? peer := by
      refine get?_merge_of_skip b64 _ fun p hp hname => ?_
      subst hname
      exact hskip p.2 (Dict.mem_entries_iff.mp hp)
    unfold directoryKey
    rw [keys_refresh b64 hrestored, hmerged]

/-! ### The two keys -/

/-- The roster has a key for the member that the directory takes over. -/
def Taken (record : KeyRecord) (pairs : List (String × Bytes)) (peer : String) : Prop :=
  record.restored = false ∧ peer ≠ "" ∧ peer ≠ "__proto__" ∧ (keysOf pairs peer).getLast? ≠ some []

/-- **The key that was compared is the one that entries are checked with if the last leaf of the
name has the key of the first.**  Where the directory takes nothing from the roster, it must have
had that key before. -/
theorem verified_key_in_directory (b64 : Base64) (sha256 : Bytes → Bytes) (record : KeyRecord)
    {c : ChatClient mls} {id peer number : String} (h : safetyNumber sha256 c id peer = .ok number) :
    ∃ pairs key, memberKeys c id = .ok pairs ∧ (keysOf pairs peer).head? = some key ∧
      number = safetyDigits (sha256 (safetyInput c.credential ⟨peer, key⟩)) ∧
      (directoryKey b64 (refreshKeyDirectory b64 record (rosterObject pairs)) peer = some key ↔
        (Taken record pairs peer → (keysOf pairs peer).getLast? = (keysOf pairs peer).head?) ∧
        (¬Taken record pairs peer → directoryKey b64 record peer = some key)) := by
  unfold safetyNumber at h
  unfold memberKeys
  cases hgroup : c.groups.get? id with
  | none => simp [hgroup] at h
  | some group =>
    cases hleaf : findMember group peer with
    | none => simp [hgroup, hleaf] at h
    | some leaf =>
      simp only [hgroup, hleaf, Except.ok.injEq] at h
      have hhead := head?_keysOf (mls.members group) peer
      rw [show (mls.members group).find? _ = some leaf from hleaf] at hhead
      refine ⟨_, leaf.signatureKey, rfl, hhead, h.symm, ?_⟩
      generalize (mls.members group).filterMap _ = pairs at hhead ⊢
      by_cases htaken : Taken record pairs peer
      · -- the roster, an object, keeps the last key of a name
        obtain ⟨hrestored, hpeer, hproto, hlast⟩ := htaken
        have hne : keysOf pairs peer ≠ [] := fun hnil => by simp [hnil] at hhead
        have hraw := List.getLast?_eq_some_getLast hne
        have hget := (get?_rosterObject pairs hproto).trans hraw
        rw [directoryKey_refresh b64 hrestored hget hpeer fun hnil => hlast (hraw.trans (by rw [hnil])),
          hraw, hhead]
        simp [Taken, hrestored, hpeer, hproto, hlast]
      · rw [directoryKey_refresh_of_skip]
        · simp [htaken]
        · by_cases hrestored : record.restored = true
          · exact .inl hrestored
          · refine .inr fun raw hget => ?_
            by_cases hproto : peer = "__proto__"
            · rw [hproto, get?_rosterObject_proto] at hget
              cases hget
            · rw [get?_rosterObject pairs hproto] at hget
              by_contra hne
              obtain ⟨hpeer, hraw⟩ := not_or.mp hne
              refine htaken ⟨by simpa using hrestored, hpeer, hproto, ?_⟩
              simpa [hget] using hraw

/-- Bytes as the characters with these numbers. -/
def latin1 : Base64 where
  enc := fun bytes => String.ofList (bytes.map fun b => Char.ofNat b.toNat)
  dec := fun s => s.toList.map fun ch => UInt8.ofNat ch.toNat
  dec_enc := by
    intro bytes
    rw [String.toList_ofList, List.map_map]
    refine (List.map_congr_left fun b _ => ?_).trans (List.map_id bytes)
    have hvalid : b.toNat.isValidChar := .inl (by have := b.toNat_lt; omega)
    simp [Char.toNat_ofNat, hvalid]
  enc_ne := by
    intro bytes hne hempty
    have hnil := congrArg String.toList hempty
    rw [String.toList_ofList] at hnil
    exact hne (List.map_eq_nil_iff.mp hnil)

/-- A record that has no key yet. -/
def newRecord : KeyRecord := ⟨false, none, none⟩

/-- The record after it was refreshed from the group of a client. -/
def refreshed (c : ChatClient clear) : Except CoreError KeyRecord :=
  (memberKeys c "team").map fun pairs => refreshKeyDirectory latin1 newRecord (rosterObject pairs)

theorem only_bob_verified :
    ∃ number, safetyNumber (fun bytes => bytes) (after teamOfTwo) "team" "bob" = .ok number ∧
      ∃ pairs, memberKeys (after teamOfTwo) "team" = .ok pairs ∧
        directoryKey latin1 (refreshKeyDirectory latin1 newRecord (rosterObject pairs)) "bob" =
          (keysOf pairs "bob").head? := by
  have hnumber : ∃ number,
      safetyNumber (fun bytes => bytes) (after teamOfTwo) "team" "bob" = .ok number := ⟨_, rfl⟩
  obtain ⟨number, hnumber⟩ := hnumber
  have hroster : memberKeys (after teamOfTwo) "team" = .ok [("alice", [0]), ("bob", [1])] := by rfl
  obtain ⟨pairs, key, hpairs, hkey, -, hiff⟩ :=
    verified_key_in_directory latin1 (fun bytes => bytes) newRecord hnumber
  cases hroster.symm.trans hpairs
  refine ⟨number, hnumber, _, hroster, ?_⟩
  rw [hkey]
  refine hiff.mpr ⟨fun _ => by decide, fun hnot => absurd ?_ hnot⟩
  exact ⟨rfl, by decide, by decide, by decide⟩

/-- The number is made of the key of the member who was added, and the entries of the one who joined
later under the same handle count as theirs. -/
theorem second_bob_signs :
    safetyNumber (fun bytes => bytes) (after twoBobs) "team" "bob" =
        .ok (safetyDigits (safetyInput ⟨"alice", [0]⟩ ⟨"bob", [1]⟩)) ∧
      (refreshed (after twoBobs)).map (directoryKey latin1 · "bob") = .ok (some [2]) := by
  constructor
  · rfl
  · rfl

end Quorum.Mls
