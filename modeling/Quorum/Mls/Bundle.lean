import Quorum.Js.Except
import Quorum.Mls.Snapshot
import Quorum.Order.Framing

/-!
# The state bundle, byte by byte

A bundle is a header under its length, the number of entries and the entries, each under the lengths
of its key and its value (`export_state`).  `import_state` takes it apart from the front.  Here the
places where the Rust code would panic are kept in: `split_at` beyond the end, and `try_into` of a
slice of another length.

Every part is read exactly (`Framing.Parse.Exact`), so the bundle is: it is read back, and whatever
is cut short of it is rejected as truncated.  And no input whatever makes the parser panic.
`importState` takes from any input what the parser takes (`importState_eq`).
-/

namespace Quorum.Mls

open Js Framing
open Store (Bytes)

/-! ### The parser -/

/-- What takes a bundle apart. -/
abbrev Parser := Parse UInt8 CoreError

/-- `x as usize` on a machine of 64 bits. -/
def asUsize (n : ℕ) : ℕ := n % 2 ^ 64

/-- `rest.split_at(n)`, which panics beyond the end. -/
def splitAt (n : ℕ) (rest : Bytes) : Option (Bytes × Bytes) :=
  if n ≤ rest.length then some (rest.splitAt n) else none

/-- `bytes.try_into().unwrap()` to an array of so many bytes. -/
def intoArray (width : ℕ) (bytes : Bytes) : Option Bytes :=
  if bytes.length = width then some bytes else none

/-- `take(n)`. -/
def takeBytes (n : ℕ) : Parser Bytes := do
  let rest ← Parse.remaining
  if rest.length < n then
    Parse.fail (.badState "truncated")
  else
    let (head, tail) ← Parse.unwrap (splitAt n rest)
    Parse.leave tail
    return head

/-- `from_be_bytes(take(width)?.try_into().unwrap())`. -/
def takeNumber (width : ℕ) : Parser ℕ := do
  let bytes ← takeBytes width
  let array ← Parse.unwrap (intoArray width bytes)
  return ofBeBytes array

/-- The key and the value of an entry. -/
def takeEntry : Parser (Bytes × Bytes) := do
  let kLen ← takeNumber 8
  let vLen ← takeNumber 8
  let k ← takeBytes (asUsize kLen)
  let v ← takeBytes (asUsize vLen)
  return (k, v)

/-- The loop over the entries. -/
def takeEntries : ℕ → Values → Parser Values
  | 0, map => return map
  | n + 1, map => do
    let (k, v) ← takeEntry
    takeEntries n (map.set k v)

/-- The header, from its bytes. -/
def readHeader (serde : Serde) (bytes : Bytes) : Parser StateHeader :=
  match serde.fromSlice bytes with
  | .error e => Parse.fail (.badState e)
  | .ok header => if header.v ≠ 1 then Parse.fail (.badState "unsupported version") else return header

/-- `import_state` up to the loading of the groups: the header and the storage. -/
def parseBundle (serde : Serde) : Parser (StateHeader × Values) := do
  let headerLen ← takeNumber 4
  let bytes ← takeBytes (asUsize headerLen)
  let header ← readHeader serde bytes
  let count ← takeNumber 8
  let values ← takeEntries count Dict.empty
  return (header, values)

/-! ### No panic -/

theorem takeBytes_eq (n : ℕ) (s : Bytes) : (takeBytes n).run s =
    if s.length < n then some (.error (.badState "truncated"))
    else some (.ok (s.take n, s.drop n)) := by
  unfold takeBytes
  rw [Parse.bind_of_ok (show Parse.remaining.run s = some (.ok (s, s)) from rfl)]
  by_cases h : s.length < n
  · rw [if_pos h, if_pos h]
    rfl
  · have hsplit : (Parse.unwrap (splitAt n s)).run s =
        some (.ok ((s.take n, s.drop n), s) : Except CoreError _) := by
      rw [splitAt, if_pos (Nat.le_of_not_lt h), List.splitAt_eq]
      rfl
    rw [if_neg h, if_neg h, Parse.bind_of_ok hsplit]
    rfl

theorem safe_takeBytes (n : ℕ) : (takeBytes n).Safe := by
  intro s
  rw [takeBytes_eq]
  split <;> exact ⟨_, rfl⟩

variable {n : ℕ} {p : Bytes × Bytes}

theorem length_of_takeBytes {s bytes rest : Bytes}
    (h : (takeBytes n).run s = some (.ok (bytes, rest))) : bytes.length = n := by
  rw [takeBytes_eq] at h
  split at h
  · cases h
  · cases h
    rw [List.length_take]
    omega

theorem safe_takeNumber (width : ℕ) : (takeNumber width).Safe := by
  refine Parse.safe_bind (safe_takeBytes width) fun s bytes rest h => ?_
  have harray : (Parse.unwrap (intoArray width bytes)).run rest =
      some (.ok (bytes, rest) : Except CoreError _) := by
    rw [intoArray, if_pos (length_of_takeBytes h)]
    rfl
  exact ⟨_, Parse.bind_of_ok harray _⟩

theorem safe_takeEntry : takeEntry.Safe :=
  Parse.safe_bind (safe_takeNumber 8) fun _ _ _ _ =>
    Parse.safe_bind (safe_takeNumber 8) (fun _ _ _ _ =>
      Parse.safe_bind (safe_takeBytes _) (fun _ _ _ _ =>
        Parse.safe_bind (safe_takeBytes _) (fun _ _ _ _ => Parse.safe_pure _ _) _) _) _

theorem safe_takeEntries (n : ℕ) (map : Values) : (takeEntries n map).Safe := by
  induction n generalizing map with
  | zero => exact Parse.safe_pure map
  | succ n ih => exact Parse.safe_bind safe_takeEntry fun _ _ rest _ => ih _ rest

theorem safe_readHeader (serde : Serde) (bytes : Bytes) : (readHeader serde bytes).Safe := by
  unfold readHeader
  split
  · exact Parse.safe_fail _
  · split
    · exact Parse.safe_fail _
    · exact Parse.safe_pure _

/-- **No input makes the parser panic.** -/
theorem safe_parseBundle (serde : Serde) : (parseBundle serde).Safe :=
  Parse.safe_bind (safe_takeNumber 4) fun _ _ _ _ =>
    Parse.safe_bind (safe_takeBytes _) (fun _ _ _ _ =>
      Parse.safe_bind (safe_readHeader serde _) (fun _ _ _ _ =>
        Parse.safe_bind (safe_takeNumber 8) (fun _ _ _ _ =>
          Parse.safe_bind (safe_takeEntries _ _) (fun _ _ _ _ => Parse.safe_pure _ _) _) _) _) _

/-! ### Exactness -/

def truncated : CoreError := .badState "truncated"

theorem exact_takeBytes (bytes : Bytes) :
    (takeBytes bytes.length).Exact truncated bytes bytes := by
  refine ⟨fun rest => ?_, fun pre hpre hne => ?_⟩
  · rw [takeBytes_eq, if_neg (by simp), List.take_left, List.drop_left]
  · have hshort : pre.length < bytes.length :=
      hpre.length_le.lt_of_ne fun hlength => hne (hpre.eq_of_length hlength)
    rw [takeBytes_eq, if_pos hshort]
    rfl

theorem exact_takeNumber {width n : ℕ} (h : n < 256 ^ width) :
    (takeNumber width).Exact truncated (beBytes width n) n := by
  have hbytes := exact_takeBytes (beBytes width n)
  rw [length_beBytes] at hbytes
  refine hbytes.bind_nil ?_
  rw [intoArray, if_pos (length_beBytes width n)]
  refine (Parse.exact_unwrap truncated _).bind_nil ?_
  rw [ofBeBytes_beBytes h]
  exact Parse.exact_pure truncated n

theorem asUsize_of_lt (h : n < 256 ^ 8) : asUsize n = n := Nat.mod_eq_of_lt h

theorem exact_takeEntry (hk : p.1.length < 256 ^ 8)
    (hv : p.2.length < 256 ^ 8) : takeEntry.Exact truncated (writeEntry p) p := by
  have h : takeEntry.Exact truncated
      (beBytes 8 p.1.length ++ (beBytes 8 p.2.length ++ (p.1 ++ p.2))) p := by
    refine (exact_takeNumber hk).bind ((exact_takeNumber hv).bind ?_)
    rw [asUsize_of_lt hk, asUsize_of_lt hv]
    exact (exact_takeBytes p.1).bind ((exact_takeBytes p.2).bind_nil (Parse.exact_pure _ _))
  rwa [← List.append_assoc, ← List.append_assoc] at h

/-- The entries are read into the map one after the other. -/
theorem exact_takeEntries {l : List (Bytes × Bytes)}
    (hl : ∀ p ∈ l, p.1.length < 256 ^ 8 ∧ p.2.length < 256 ^ 8) (map : Values) :
    (takeEntries l.length map).Exact truncated (l.flatMap writeEntry) (map.setAll l) := by
  induction l generalizing map with
  | nil => exact Parse.exact_pure truncated map
  | cons p l ih =>
    rw [List.forall_mem_cons] at hl
    exact (exact_takeEntry hl.1.1 hl.1.2).bind (ih hl.2 (map.set p.1 p.2))

theorem exact_readHeader (serde : Serde) {header : StateHeader} (hv : header.v = 1) :
    (readHeader serde (serde.toVec header)).Exact truncated [] header := by
  unfold readHeader
  rw [serde.fromSlice_toVec]
  dsimp only
  rw [if_neg (not_not_intro hv)]
  exact Parse.exact_pure truncated header

/-- **A bundle is read exactly.** -/
theorem exact_parseBundle (serde : Serde) {header : StateHeader} {values : Values}
    (hv : header.v = 1) (hheader : (serde.toVec header).length < 256 ^ 4)
    (hcount : values.size < 256 ^ 8)
    (hentries : ∀ p ∈ values.entries, p.1.length < 256 ^ 8 ∧ p.2.length < 256 ^ 8) :
    (parseBundle serde).Exact truncated (writeBundle serde header values) (header, values) := by
  have hwide : (serde.toVec header).length < 256 ^ 8 := hheader.trans (by norm_num)
  have hmap := exact_takeEntries hentries Dict.empty
  rw [Dict.setAll_entries] at hmap
  have h : (parseBundle serde).Exact truncated (beBytes 4 (serde.toVec header).length ++
      (serde.toVec header ++ ([] ++ (beBytes 8 values.size ++
        values.entries.flatMap writeEntry)))) (header, values) := by
    refine (exact_takeNumber hheader).bind ?_
    rw [asUsize_of_lt hwide]
    refine (exact_takeBytes _).bind ((exact_readHeader serde hv).bind ?_)
    exact (exact_takeNumber hcount).bind (hmap.bind_nil (Parse.exact_pure truncated _))
  rwa [List.nil_append, ← List.append_assoc, ← List.append_assoc] at h

/-! ### The whole import -/

theorem takeBytes_eq_take (n : ℕ) (s : Bytes) :
    (takeBytes n).run s = some ((take n s).map id) := by
  rw [takeBytes_eq, take, List.splitAt_eq]
  split <;> rfl

theorem length_of_take {s : Bytes} (h : take n s = .ok p) :
    p.1.length = n :=
  length_of_takeBytes (by rw [takeBytes_eq_take, h]; rfl)

theorem ofBeBytes_lt (bytes : Bytes) : ofBeBytes bytes < 256 ^ bytes.length := by
  induction bytes using List.reverseRecOn with
  | nil => exact Nat.one_pos
  | append_singleton bytes byte ih =>
    rw [ofBeBytes, List.foldl_append, List.length_append, List.length_singleton, pow_succ]
    change ofBeBytes bytes * 256 + byte.toNat < _
    have hbyte := byte.toNat_lt
    omega

theorem asUsize_ofBeBytes {s : Bytes} (h : take n s = .ok p)
    (hn : n ≤ 8) : asUsize (ofBeBytes p.1) = ofBeBytes p.1 := by
  refine asUsize_of_lt ((ofBeBytes_lt p.1).trans_le ?_)
  rw [length_of_take h]
  exact Nat.pow_le_pow_right (by norm_num) hn

theorem takeNumber_eq (width : ℕ) (s : Bytes) : (takeNumber width).run s =
    some ((take width s).map fun p => (ofBeBytes p.1, p.2)) := by
  unfold takeNumber
  have hbytes := takeBytes_eq_take width s
  cases htake : take width s with
  | error e =>
    rw [htake] at hbytes
    exact Parse.bind_of_error hbytes _
  | ok p =>
    rw [htake] at hbytes
    rw [Parse.bind_of_ok hbytes, intoArray, if_pos (length_of_take htake)]
    rfl

/-- An entry is taken here and there. -/
theorem takeEntry_agrees (n : ℕ) (map : Values) (s : Bytes) : ∃ r, takeEntry.run s = some r ∧
    readEntries (n + 1) s map = r >>= fun p => readEntries n p.2 (map.set p.1.1 p.1.2) := by
  refine Parse.bind_agrees (takeNumber_eq 8 s) fun kLen hk => ?_
  refine Parse.bind_agrees (takeNumber_eq 8 kLen.2) fun vLen hv => ?_
  rw [asUsize_ofBeBytes hk le_rfl, asUsize_ofBeBytes hv le_rfl]
  refine Parse.bind_agrees (takeBytes_eq_take _ vLen.2) fun k _ => ?_
  refine Parse.bind_agrees (takeBytes_eq_take _ k.2) fun v _ => ?_
  exact ⟨_, rfl, rfl⟩

theorem takeEntries_agrees (n : ℕ) (map : Values) (s : Bytes) :
    ∃ r, (takeEntries n map).run s = some r ∧ readEntries n s map = r >>= fun p => .ok p.1 := by
  induction n generalizing map s with
  | zero => exact ⟨_, rfl, rfl⟩
  | succ n ih =>
    obtain ⟨r, hentry, hread⟩ := takeEntry_agrees n map s
    rw [hread]
    exact Parse.bind_agrees (hentry.trans (by cases r <;> rfl)) fun p _ => ih ..

/-- The groups are loaded from what the parser makes of the bundle. -/
theorem importState_eq (mls : OpenMls) (serde : Serde) (bytes : Bytes) :
    ∃ r, (parseBundle serde).run bytes = some r ∧ importState mls serde bytes = (do
      let parsed ← r
      let groups ← loadGroups parsed.1.2 parsed.1.1.groups Dict.empty
      return { values := parsed.1.2, signer := parsed.1.1.signer, groups,
               name := parsed.1.1.name }) := by
  refine Parse.bind_agrees (takeNumber_eq 4 bytes) fun headerLen hlen => ?_
  rw [asUsize_ofBeBytes hlen (by norm_num)]
  refine Parse.bind_agrees (takeBytes_eq_take _ headerLen.2) fun header _ => ?_
  unfold readHeader
  dsimp only [id]
  cases serde.fromSlice header.1 with
  | error e => exact ⟨_, rfl, rfl⟩
  | ok parsed =>
    simp only [Except.mapError, ok_bind]
    by_cases hv : parsed.v ≠ 1
    · rw [if_pos hv, if_pos hv]
      exact ⟨_, rfl, rfl⟩
    · rw [if_neg hv, if_neg hv, Parse.bind_of_ok (show (pure parsed : Parser _).run _ = _ from rfl)]
      refine Parse.bind_agrees (takeNumber_eq 8 header.2) fun count _ => ?_
      obtain ⟨r, hentries, hread⟩ := takeEntries_agrees (ofBeBytes count.1) Dict.empty count.2
      rw [hread]
      cases r with
      | error e => exact ⟨.error e, Parse.bind_of_error hentries _, rfl⟩
      | ok p => exact ⟨_, Parse.bind_of_ok hentries _, rfl⟩

/-- Bundles are decoded to what was encoded, what is cut short is rejected, and nothing makes the
parser panic. -/
theorem bundle_decodes (serde : Serde) :
    (∀ header values, header.v = 1 → (serde.toVec header).length < 2 ^ 32 → values.size < 2 ^ 64 →
      (∀ p ∈ values.entries, p.1.length < 2 ^ 64 ∧ p.2.length < 2 ^ 64) →
      (parseBundle serde).run (writeBundle serde header values) = some (.ok ((header, values), [])) ∧
        ∀ pre, pre <+: writeBundle serde header values → pre ≠ writeBundle serde header values →
          (parseBundle serde).run pre = some (.error (.badState "truncated"))) ∧
    ∀ bytes, (parseBundle serde).run bytes ≠ none := by
  refine ⟨fun header values hv hheader hcount hentries => ?_, fun bytes hnone => ?_⟩
  · have hexact := exact_parseBundle serde hv hheader hcount hentries
    refine ⟨?_, hexact.rejects⟩
    have hreads := hexact.reads []
    rwa [List.append_nil] at hreads
  · obtain ⟨r, hr⟩ := safe_parseBundle serde bytes
    rw [hnone] at hr
    cases hr

end Quorum.Mls
