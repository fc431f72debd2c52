import Quorum.Js.Table
import Quorum.Js.Text
import Quorum.Log

/-!
# What the entries of a page are worth

A page of the log is opened with the keys of its channel, and the signatures on it are checked
together: `verifyEntries` (`history.js`) collects what there is to check, and reads the answers of
the worker by position.

An entry is any JSON value.  Its signature is decoded and its sender looked up before anything is
checked, and an exception there is one for the whole page.  So a page is shown if and only if every
entry on it can be decoded and none has a sender whose name is a property that all objects inherit
(`Reader.shows_iff`).
-/

namespace Quorum

open Js

/-- What reading a log needs from outside: the encoder of texts, Ed25519, and the cipher of entries
with the parser of JSON.  `verify` is false and `openLogEntry` nothing where they throw. -/
structure Reader where
  encode : Str → List UInt8
  verify : List UInt8 → List UInt8 → List UInt8 → Bool
  openLogEntry : Value → Str → Option Value

/-! ### The bytes that are signed -/

mutual

/-- `canonicalJson(value)`. -/
def canonicalJson : Value → Str
  | .undefined | .null => lit "null"
  | .bool b => if b then lit "true" else lit "false"
  | .num x => jsonNumber x
  | .str s => quote s
  | .arr _ elems => lit "[" ++ join (lit ",") (canonicalElems elems) ++ lit "]"
  | .obj _ props =>
    let listed := (canonicalProps props).insertionSort fun p q => p.1 ≤ q.1
    lit "\x7b" ++ join (lit ",") (listed.map fun p => quote p.1 ++ lit ":" ++ p.2) ++ lit "\x7d"
  -- there are no functions in JSON
  | .native _ => lit "undefined"

/-- The texts of elements. -/
def canonicalElems : List Value → List Str
  | [] => []
  | v :: elems => canonicalJson v :: canonicalElems elems

/-- The names of properties that are not undefined, with the texts of their values. -/
def canonicalProps : List (Str × Value) → List (Str × Str)
  | [] => []
  | (k, v) :: props =>
    if v.isUndefined then canonicalProps props
    else (k, canonicalJson v) :: canonicalProps props

end

/-- `const { sig: _sig, ...signed } = entry`. -/
def unsignedPart : Value → Value
  | .obj ref props => .obj ref (props.filter fun p => p.1 ≠ lit "sig")
  | v => .obj 0 v.ownProps

def SIGNING_CONTEXT : Str := lit "quorum-log-entry-v1"

/-- `entrySigningBytes(group, hid, entry)`.  A log id that is no string is converted to one. -/
def entrySigningBytes (encode : Str → List UInt8) (group : Str) (hid entry : Value) :
    Except Error (List UInt8) := do
  let hid ← hid.text
  return encode (join [0] [SIGNING_CONTEXT, group, hid, canonicalJson (unsignedPart entry)])

/-! ### Verdicts -/

/-- A signature that the worker is asked about. -/
structure Check where
  key : List UInt8
  message : List UInt8
  sig : List UInt8

namespace Reader

variable (r : Reader) (group : Str) (hid : Value) (keys : Table)

/-- The turn of an entry in `verifyEntries`: a verdict, or a check to make. -/
def ask (entry : Value) : Except Error (Verdict ⊕ Check) :=
  match entry.get (lit "sig") with
  | .str sig => do
    let name ← (entry.get (lit "sender")).toStr
    let key := keys.get name
    if !key.truthy then
      return .inl .unknown
    let key ← key.toStr >>= atob
    let message ← entrySigningBytes r.encode group hid entry
    let sig ← atob sig
    return .inr { key, message, sig }
  | _ => .ok (.inl .unsigned)

/-- `verifyBatch(items)`. -/
def verifyBatch (items : List Check) : List Bool :=
  items.map fun c => r.verify c.key c.message c.sig

/-- The answers of the worker put in place of the checks, by position.  An answer that is missing is
undefined, and so false. -/
def align : List (Verdict ⊕ Check) → List Bool → List Verdict
  | [], _ => []
  | .inl v :: asked, results => v :: align asked results
  | .inr _ :: asked, results =>
    (if results.headD false then .signed else .forged) :: align asked results.tail

/-- `verifyEntries(group, hid, entries, keys, verifyBatch)`. -/
def verifyEntries (entries : List Value) : Except Error (List Verdict) := do
  let asked ← entries.mapM (r.ask group hid keys)
  return align asked (r.verifyBatch (asked.filterMap Sum.getRight?))

end Reader

/-! ### Pages -/

/-- An entry of a page as the relay sends it. -/
structure RawEntry where
  seq : ℕ
  payload : Str

/-- `channelKeys(meta)`. -/
def channelKeys (settings : Value) : Except Error (List Value) := do
  let hkeys ← ((settings.get (lit "hkeys")).orElse (.ofList [])).iterate
  match (settings.get (lit "alts")).orElse (.ofList []) with
  | .arr _ alts =>
    return (settings.get (lit "hkey") :: (hkeys ++ alts.map (·.get (lit "hkey")))).filter
      Value.truthy
  | _ => .error .typeError

namespace Reader

variable (r : Reader)

/-- What the first key that fits makes of an entry. -/
def decrypt (keys : List Value) (e : RawEntry) : Option Value :=
  keys.findSome? (r.openLogEntry · e.payload)

/-- `openPage(record, channel, entries, hid)`, where `settings` are those of the channel and
`directory` is that of the record. -/
def openPage (group : Str) (settings : Value) (directory : Table) (entries : List RawEntry)
    (hid : Option Str) : Except Error (List Item) := do
  if !(settings.get (lit "hid")).truthy then
    return []
  let keys ← channelKeys settings
  let opened := entries.filterMap fun e =>
    ((r.decrypt keys e).filter Value.truthy).map fun entry => (e.seq, entry)
  let auths ← r.verifyEntries group ((hid.map .str).getD (settings.get (lit "hid"))) directory
    (opened.map Prod.snd)
  return opened.zipWith (fun o auth => { seq := some o.1, entry := o.2, auth }) auths

end Reader

/-! ### What the verdicts should be -/

/-- The key that a directory has of its own for a sender. -/
def ownKey (keys : Table) (sender : Value) : Option Value :=
  match sender.toStr with
  | .ok name => (keys.own.get? name).filter Value.truthy
  | .error _ => none

/-- An answer to what was asked about an entry. -/
def Reader.answer (r : Reader) : Verdict ⊕ Check → Verdict :=
  Sum.elim id fun c => if r.verify c.key c.message c.sig then .signed else .forged

/-- Every check gets its own answer. -/
theorem align_verifyBatch (r : Reader) (asked : List (Verdict ⊕ Check)) :
    Reader.align asked (r.verifyBatch (asked.filterMap Sum.getRight?)) = asked.map r.answer := by
  induction asked with
  | nil => rfl
  | cons a asked ih =>
    cases a with
    | inl v | inr c =>
      rw [List.map_cons, ← ih]
      rfl

namespace Reader

variable (r : Reader) (group : Str) (hid : Value) (keys : Table)

/-- The signature on an entry verifies under a key. -/
def verifies (key entry : Value) (sig : Str) : Bool :=
  (do
    let key ← key.toStr >>= atob
    let message ← entrySigningBytes r.encode group hid entry
    let sig ← atob sig
    return r.verify key message sig : Except Error Bool).toOption.getD false

/-- The verdict on an entry by itself: its signature counts if it verifies under a key that the
directory has of its own for the sender. -/
def verdict (entry : Value) : Verdict :=
  match entry.get (lit "sig") with
  | .str sig =>
    match ownKey keys (entry.get (lit "sender")) with
    | some key => if r.verifies group hid key entry sig then .signed else .forged
    | none => .unknown
  | _ => .unsigned

/-- A signed entry can be checked: its sender can be looked up and is either unknown or in the
directory itself, and then everything that is to be checked can be decoded. -/
def Checkable (entry : Value) : Prop :=
  ∀ sig, entry.get (lit "sig") = .str sig → ∃ name, (entry.get (lit "sender")).toStr = .ok name ∧
    ((keys.get name).truthy = true → keys.own.get? name = some (keys.get name) ∧
      ((keys.get name).toStr >>= atob).isOk = true ∧ hid.text.isOk = true ∧ (atob sig).isOk = true)

variable {r group hid keys}

variable {entry : Value}

theorem verdict_eq_signed_iff : r.verdict group hid keys entry = .signed ↔
    ∃ sig key, entry.get (lit "sig") = .str sig ∧
      ownKey keys (entry.get (lit "sender")) = some key ∧
      r.verifies group hid key entry sig = true := by
  unfold verdict
  cases entry.get (lit "sig") with
  | str sig =>
    cases ownKey keys (entry.get (lit "sender")) with
    | none => simp
    | some key =>
      cases hverifies : r.verifies group hid key entry sig <;> simp [hverifies]
  | _ => simp

theorem isOk_entrySigningBytes (encode : Str → List UInt8) (group : Str) (hid entry : Value) :
    (entrySigningBytes encode group hid entry).isOk = hid.text.isOk := by
  unfold entrySigningBytes
  cases hid.text <;> rfl

/-- What is asked about a signature that is checked: nothing, if something cannot be decoded. -/
theorem answer_ask_of_key {sig name : Str} (hsig : entry.get (lit "sig") = .str sig)
    (hname : (entry.get (lit "sender")).toStr = .ok name) (hkey : (keys.get name).truthy = true) :
    (r.ask group hid keys entry).map r.answer =
      if ((keys.get name).toStr >>= atob).isOk && (hid.text.isOk && (atob sig).isOk) then
        .ok (if r.verifies group hid (keys.get name) entry sig then .signed else .forged)
      else .error .typeError := by
  unfold ask verifies
  rw [hsig, ← isOk_entrySigningBytes r.encode group hid entry]
  dsimp only
  rw [hname, ok_bind, hkey]
  change Except.map r.answer (((keys.get name).toStr >>= atob) >>= fun key =>
    entrySigningBytes r.encode group hid entry >>= fun message => atob sig >>= fun sig =>
      pure (.inr { key, message, sig })) = _
  cases (keys.get name).toStr >>= atob with
  | error e => cases e; rfl
  | ok key =>
    cases entrySigningBytes r.encode group hid entry with
    | error e => cases e; rfl
    | ok message =>
      cases atob sig with
      | error e => cases e; rfl
      | ok sig => rfl

theorem verdict_of_ownKey {entry key : Value} {sig : Str} (hsig : entry.get (lit "sig") = .str sig)
    (hkey : ownKey keys (entry.get (lit "sender")) = some key) :
    r.verdict group hid keys entry =
      if r.verifies group hid key entry sig then .signed else .forged := by
  unfold verdict
  rw [hsig, hkey]

theorem verdict_of_no_ownKey {sig : Str} (hsig : entry.get (lit "sig") = .str sig)
    (hkey : ownKey keys (entry.get (lit "sender")) = none) :
    r.verdict group hid keys entry = .unknown := by
  unfold verdict
  rw [hsig, hkey]

theorem ownKey_eq {sender : Value} {name : Str} (hname : sender.toStr = .ok name) :
    ownKey keys sender = (keys.own.get? name).filter Value.truthy := by
  unfold ownKey
  rw [hname]

/-- **A signed entry of a sender whose name can be looked up.** -/
theorem answer_ask_eq_verdict_iff_of_name {sig name : Str} (hsig : entry.get (lit "sig") = .str sig)
    (hname : (entry.get (lit "sender")).toStr = .ok name) :
    (r.ask group hid keys entry).map r.answer = .ok (r.verdict group hid keys entry) ↔
      ((keys.get name).truthy = true → keys.own.get? name = some (keys.get name) ∧
        ((keys.get name).toStr >>= atob).isOk = true ∧ hid.text.isOk = true ∧
          (atob sig).isOk = true) := by
  cases hkey : (keys.get name).truthy with
  | false =>
    have hown : ownKey keys (entry.get (lit "sender")) = none := by
      rw [ownKey_eq hname]
      cases hget : keys.own.get? name with
      | none => rfl
      | some key =>
        rw [Table.get_of_own hget] at hkey
        exact Option.filter_eq_none_iff.mpr fun a ha => by cases ha; simp [hkey]
    refine iff_of_true ?_ fun hfalse => by cases hfalse
    rw [verdict_of_no_ownKey hsig hown]
    unfold ask
    rw [hsig]
    dsimp only
    rw [hname, ok_bind, hkey]
    rfl
  | true =>
    rw [answer_ask_of_key hsig hname hkey, forall_prop_of_true rfl]
    cases hget : keys.own.get? name with
    | none =>
      have hown : ownKey keys (entry.get (lit "sender")) = none := by
        rw [ownKey_eq hname, hget]
        rfl
      rw [verdict_of_no_ownKey hsig hown]
      refine iff_of_false (fun heq => ?_) fun hfalse => by cases hfalse.1
      -- a key that is inherited is checked, so the verdict is another one
      split at heq
      · split at heq <;> cases heq
      · cases heq
    | some key =>
      have hget' := Table.get_of_own hget
      have hown : ownKey keys (entry.get (lit "sender")) = some (keys.get name) := by
        rw [ownKey_eq hname, hget, hget', Option.filter_some, ← hget', hkey]
        rfl
      rw [verdict_of_ownKey hsig hown, hget', and_iff_right rfl, ← Bool.and_eq_true_iff,
        ← Bool.and_eq_true_iff]
      split
      next hall => exact iff_of_true rfl hall
      next hall => exact iff_of_false (fun heq => by cases heq) hall

/-- **An entry gets the verdict it should if and only if it can be checked.** -/
theorem answer_ask_eq_verdict_iff :
    (r.ask group hid keys entry).map r.answer = .ok (r.verdict group hid keys entry) ↔
      Checkable hid keys entry := by
  unfold Checkable
  cases hsig : entry.get (lit "sig") with
  | str sig =>
    cases hname : (entry.get (lit "sender")).toStr with
    | error e =>
      refine iff_of_false ?_ fun h => ?_
      · unfold ask
        rw [hsig]
        rw [hname]
        exact fun hfalse => by cases hfalse
      · obtain ⟨name, hfalse, -⟩ := h sig rfl
        cases hfalse
    | ok name =>
      rw [answer_ask_eq_verdict_iff_of_name hsig hname]
      constructor
      · rintro h sig' hsig'
        cases hsig'
        exact ⟨name, rfl, h⟩
      · intro h
        obtain ⟨name', hname', h'⟩ := h sig rfl
        cases hname'
        exact h'
  | _ =>
    refine iff_of_true ?_ fun sig hfalse => by cases hfalse
    unfold ask verdict
    rw [hsig]
    rfl

end Reader

/-! ### Pages that are shown -/

/-- A loop over a list gives what it should if every turn does. -/
theorem map_mapM_eq_ok_iff {ε α β γ : Type} {f : α → Except ε β} {g : β → γ} {h : α → γ}
    {l : List α} : (l.mapM f).map (List.map g) = .ok (l.map h) ↔
      ∀ a ∈ l, (f a).map g = .ok (h a) := by
  induction l with
  | nil => exact iff_of_true rfl (List.forall_mem_nil _)
  | cons a l ih =>
    rw [List.forall_mem_cons, ← ih, map_eq_ok, map_eq_ok, map_eq_ok, List.map_cons]
    constructor
    · rintro ⟨r, hr, heq⟩
      obtain ⟨b, hb, r', hr', rfl⟩ := mapM_cons_eq_ok.mp hr
      obtain ⟨hhead, htail⟩ := List.cons.inj heq
      exact ⟨⟨b, hb, hhead⟩, r', hr', htail⟩
    · rintro ⟨⟨b, hb, hhead⟩, r', hr', htail⟩
      refine ⟨b :: r', mapM_cons_eq_ok.mpr ⟨b, hb, r', hr', rfl⟩, ?_⟩
      rw [List.map_cons, hhead, htail]

theorem length_of_mapM {ε α β : Type} {f : α → Except ε β} {l : List α} {r : List β}
    (h : l.mapM f = .ok r) : r.length = l.length := by
  induction l generalizing r with
  | nil =>
    cases h
    rfl
  | cons a l ih =>
    obtain ⟨b, -, r', hr', rfl⟩ := mapM_cons_eq_ok.mp h
    rw [List.length_cons, List.length_cons, ih hr']

namespace Reader

variable {r : Reader} {group : Str} {hid : Value} {keys : Table}

theorem verifyEntries_eq (entries : List Value) : r.verifyEntries group hid keys entries =
    (entries.mapM (r.ask group hid keys)).map (List.map r.answer) := by
  unfold verifyEntries
  cases entries.mapM (r.ask group hid keys) with
  | error e => rfl
  | ok asked => exact congrArg Except.ok (align_verifyBatch r asked)

/-- **All entries get their verdicts if and only if every entry can be checked.** -/
theorem verifyEntries_eq_ok_iff {entries : List Value} :
    r.verifyEntries group hid keys entries = .ok (entries.map (r.verdict group hid keys)) ↔
      ∀ entry ∈ entries, Checkable hid keys entry := by
  rw [verifyEntries_eq, map_mapM_eq_ok_iff]
  exact forall₂_congr fun _ _ => answer_ask_eq_verdict_iff

theorem length_verifyEntries {entries : List Value} {auths : List Verdict}
    (h : r.verifyEntries group hid keys entries = .ok auths) : auths.length = entries.length := by
  rw [verifyEntries_eq, map_eq_ok] at h
  obtain ⟨asked, hasked, rfl⟩ := h
  rw [List.length_map]
  exact length_of_mapM hasked

/-- The entries of a page that can be decrypted. -/
def decrypted (r : Reader) (keys : List Value) (entries : List RawEntry) : List (ℕ × Value) :=
  entries.filterMap fun e => (r.decrypt keys e).map fun entry => (e.seq, entry)

def item (r : Reader) (group : Str) (hid : Value) (directory : Table) (o : ℕ × Value) : Item :=
  { seq := some o.1, entry := o.2, auth := r.verdict group hid directory o.2 }

theorem forall_mem_decrypted {keys : List Value} {entries : List RawEntry} {P : Value → Prop} :
    (∀ o ∈ r.decrypted keys entries, P o.2) ↔
      ∀ e ∈ entries, ∀ entry, r.decrypt keys e = some entry → P entry := by
  unfold decrypted
  simp only [List.mem_filterMap, Option.map_eq_some_iff]
  constructor
  · exact fun h e he entry hentry => h (e.seq, entry) ⟨e, he, entry, hentry, rfl⟩
  · rintro h o ⟨e, he, entry, hentry, rfl⟩
    exact h e he entry hentry

/-- What is pushed in the loop of `openPage` is what is decrypted and not falsy. -/
theorem filter_decrypted (keys : List Value) (entries : List RawEntry) :
    (entries.filterMap fun e =>
      ((r.decrypt keys e).filter Value.truthy).map fun entry => (e.seq, entry)) =
      (r.decrypted keys entries).filter fun o => o.2.truthy := by
  unfold decrypted
  rw [List.filter_filterMap]
  refine List.filterMap_congr fun e _ => ?_
  cases r.decrypt keys e with
  | none => rfl
  | some entry => cases hentry : entry.truthy <;> simp [Option.filter, hentry]

/-- Everything is there, with its verdict, if nothing was left out and the verdicts are right. -/
theorem zipWith_eq_map_item_iff {directory : Table} {opened : List (ℕ × Value)}
    {auths : List Verdict}
    (hlength : auths.length = (opened.filter fun o => o.2.truthy).length) :
    (opened.filter fun o => o.2.truthy).zipWith
        (fun o auth => ({ seq := some o.1, entry := o.2, auth } : Item)) auths =
      opened.map (r.item group hid directory) ↔
    (∀ o ∈ opened, o.2.truthy = true) ∧
      auths = (opened.map Prod.snd).map (r.verdict group hid directory) := by
  constructor
  · intro heq
    have hcount := congrArg List.length heq
    rw [List.length_zipWith, hlength, Nat.min_self, List.length_map] at hcount
    have hall := List.length_filter_eq_length_iff.mp hcount
    refine ⟨hall, ?_⟩
    rw [List.filter_eq_self.mpr hall] at heq hlength
    have hauths := congrArg (List.map Item.auth) heq
    rw [List.map_zipWith, List.map_map] at hauths
    rw [List.map_map]
    exact ((List.map_snd_zip hlength.le).symm.trans List.map_zip_eq_zipWith).trans hauths
  · rintro ⟨hall, rfl⟩
    rw [List.filter_eq_self.mpr hall, List.map_map, List.zipWith_map_right, List.zipWith_self]
    rfl

/-- Everything on a page that can be decrypted is shown, with the verdict on it by itself. -/
def Shows (r : Reader) (group : Str) (settings : Value) (directory : Table)
    (entries : List RawEntry) (hid : Option Str) : Prop :=
  ∃ keys, channelKeys settings = .ok keys ∧
    r.openPage group settings directory entries hid = .ok ((r.decrypted keys entries).map
      (r.item group ((hid.map .str).getD (settings.get (lit "hid"))) directory))

/-- The channel has a log whose keys can be listed, and everything on the page that can be decrypted
is something that can be checked. -/
def Legible (r : Reader) (settings : Value) (directory : Table) (entries : List RawEntry)
    (hid : Option Str) : Prop :=
  ∃ keys, channelKeys settings = .ok keys ∧
    ∀ e ∈ entries, ∀ entry, r.decrypt keys e = some entry →
      (settings.get (lit "hid")).truthy = true ∧ entry.truthy = true ∧
        Checkable ((hid.map .str).getD (settings.get (lit "hid"))) directory entry

theorem shows_iff {settings : Value} {directory : Table} {entries : List RawEntry}
    {hid : Option Str} : r.Shows group settings directory entries hid ↔
      r.Legible settings directory entries hid := by
  refine exists_congr fun keys => and_congr_right fun hkeys => ?_
  rw [← forall_mem_decrypted]
  cases hlog : (settings.get (lit "hid")).truthy with
  | false =>
    have hopen : r.openPage group settings directory entries hid = .ok [] := by
      unfold openPage
      rw [hlog]
      rfl
    -- a channel without a log shows nothing, which is right if nothing was decrypted
    rw [hopen]
    constructor
    · intro heq o ho
      have hnil := List.map_eq_nil_iff.mp (Except.ok.inj heq).symm
      rw [hnil] at ho
      cases ho
    · intro hall
      have hnil : r.decrypted keys entries = [] :=
        List.eq_nil_iff_forall_not_mem.mpr fun o ho => by cases (hall o ho).1
      rw [hnil]
      rfl
  | true =>
    have hopen : r.openPage group settings directory entries hid =
        (r.verifyEntries group ((hid.map .str).getD (settings.get (lit "hid"))) directory
          (((r.decrypted keys entries).filter fun o => o.2.truthy).map Prod.snd)).map
        (((r.decrypted keys entries).filter fun o => o.2.truthy).zipWith
          fun o auth => { seq := some o.1, entry := o.2, auth }) := by
      unfold openPage
      rw [hlog, hkeys, ← filter_decrypted]
      rfl
    rw [hopen, map_eq_ok]
    generalize r.decrypted keys entries = opened
    constructor
    · rintro ⟨auths, hauths, heq⟩ o ho
      have hlength := length_verifyEntries hauths
      rw [List.length_map] at hlength
      obtain ⟨hall, rfl⟩ := (zipWith_eq_map_item_iff hlength).mp heq
      rw [List.filter_eq_self.mpr hall, verifyEntries_eq_ok_iff] at hauths
      exact ⟨rfl, hall o ho, hauths o.2 (List.mem_map_of_mem ho)⟩
    · intro hall
      have htruthy : ∀ o ∈ opened, o.2.truthy = true := fun o ho => (hall o ho).2.1
      have hfilter := List.filter_eq_self.mpr htruthy
      refine ⟨_, ?_, (zipWith_eq_map_item_iff ?_).mpr ⟨htruthy, rfl⟩⟩
      · rw [hfilter, verifyEntries_eq_ok_iff]
        exact List.forall_mem_map.mpr fun o ho => (hall o ho).2.2
      · rw [hfilter, List.length_map, List.length_map]

/-- **One entry hides a page if and only if it cannot be checked.**  Otherwise there is one verdict
for every entry, which is about this entry only, and signed under a key that the directory has of
its own. -/
theorem page_shown_iff (r : Reader) (group : Str) (directory : Table) :
    (∀ (hid : Value) (entries : List Value),
      r.verifyEntries group hid directory entries =
          .ok (entries.map (r.verdict group hid directory)) ↔
        ∀ entry ∈ entries, Checkable hid directory entry) ∧
    (∀ (hid entry : Value), r.verdict group hid directory entry = .signed ↔
      ∃ sig key, entry.get (lit "sig") = .str sig ∧
        ownKey directory (entry.get (lit "sender")) = some key ∧
        r.verifies group hid key entry sig = true) ∧
    ∀ (settings : Value) (entries : List RawEntry) (hid : Option Str),
      r.Shows group settings directory entries hid ↔ r.Legible settings directory entries hid :=
  ⟨fun _ _ => verifyEntries_eq_ok_iff, fun _ _ => verdict_eq_signed_iff, fun _ _ _ => shows_iff⟩

/-- A reader whose payloads are not encrypted: each is the name of an entry.  All signatures
verify. -/
def plainReader (named : Str → Option Value) : Reader where
  encode _ := []
  verify _ _ _ := true
  openLogEntry _ payload := named payload

/-- A line of a member, with a signature. -/
def signedLine (sender sig : String) : Value :=
  .obj 1 [(lit "sender", .str (lit sender)), (lit "sig", .str (lit sig))]

/-- The directory has a key for alice. -/
def aliceOnly : Table := { own := Dict.ofList [(lit "alice", .str (lit "AAAA"))] }

/-- A channel with a log and a key. -/
def loggedChannel : Value :=
  .obj 1 [(lit "hid", .str (lit "h")), (lit "hkey", .str (lit "k"))]

/-- Two entries of a page: a line of alice, and another one. -/
def besides (other : Value) : Reader :=
  plainReader fun payload => if payload = lit "line" then signedLine "alice" "AAAA" else other

/-- The line of alice is shown by itself.  On a page with another entry there are no verdicts, and
nothing is shown. -/
structure HidesLine (other : Value) : Prop where
  alone : (besides other).Shows (lit "srv") loggedChannel aliceOnly [⟨1, lit "line"⟩] none
  verdicts : (besides other).verifyEntries (lit "srv") (.str (lit "h")) aliceOnly
    [signedLine "alice" "AAAA", other] = .error .typeError
  page : ¬(besides other).Shows (lit "srv") loggedChannel aliceOnly
    [⟨1, lit "line"⟩, ⟨2, lit "other"⟩] none

theorem hidesLine_of_throws {other : Value}
    (halone : (besides other).openPage (lit "srv") loggedChannel aliceOnly [⟨1, lit "line"⟩] none =
      .ok [{ seq := some 1, entry := signedLine "alice" "AAAA", auth := .signed }])
    (hverdicts : (besides other).verifyEntries (lit "srv") (.str (lit "h")) aliceOnly
      [signedLine "alice" "AAAA", other] = .error .typeError)
    (hpage : (besides other).openPage (lit "srv") loggedChannel aliceOnly
      [⟨1, lit "line"⟩, ⟨2, lit "other"⟩] none = .error .typeError) : HidesLine other where
  alone := ⟨[.str (lit "k")], rfl, halone⟩
  verdicts := hverdicts
  page := by
    rintro ⟨keys, -, hshown⟩
    cases hpage.symm.trans hshown

/-- **A signature that is no base64, or a sender named after a method, hides the line of another
member.** -/
theorem entry_hides_page :
    HidesLine (signedLine "alice" "*") ∧ HidesLine (signedLine "toString" "AAAA") :=
  ⟨hidesLine_of_throws rfl rfl rfl, hidesLine_of_throws rfl rfl rfl⟩

end Reader

end Quorum
