import Quorum.Order.Along
import Quorum.Store

/-!
# The files of the relay

Attachments are files in a directory of the relay, under ids that clients draw (`blobs.rs`).  Whoever
knows an id may read, and whoever has a ticket for it may write, once.  Tickets are given out over an
authenticated connection, and a client shows one in a header (`put_blob` in `lib.rs`).

A deployment may have the relay delete files of some age (`sweep_older_than`), given as a number of
days in a variable of the environment (`blob_ttl_from`).

`u64` is a number below `2 ^ 64`, with which a product wraps around.  An `Instant` is a number of
nanoseconds.
-/

namespace Quorum.Blobs

open Js Store

/-! ### Tickets -/

/-- `MAX_BLOB_BYTES`. -/
def MAX_BLOB_BYTES : ℕ := 25 * 1024 * 1024

/-- `TICKET_TTL`: five minutes. -/
def TICKET_TTL : ℕ := 300 * 10 ^ 9

/-- `MAX_OUTSTANDING_TICKETS`. -/
def MAX_OUTSTANDING_TICKETS : ℕ := 10000

/-- `UploadTickets`: for which id a ticket is, and since when. -/
structure UploadTickets where
  issued : Dict String (String × ℕ)

namespace UploadTickets

/-- `mint(id)`, with the token that is drawn. -/
def mint (token : String) (now : ℕ) (id : String) (tickets : UploadTickets) :
    String × UploadTickets :=
  let issued := tickets.issued.filter fun _ p => decide (now - p.2 < TICKET_TTL)
  (token, if issued.size < MAX_OUTSTANDING_TICKETS then ⟨issued.set token (id, now)⟩ else ⟨issued⟩)

/-- A ticket that may be spent for an id. -/
def good (tickets : UploadTickets) (now : ℕ) (token id : String) : Bool :=
  (tickets.issued.get? token).any fun p => p.1 == id && decide (now - p.2 < TICKET_TTL)

/-- `redeem(token, id)`. -/
def redeem (now : ℕ) (token id : String) (tickets : UploadTickets) : Bool × UploadTickets :=
  if tickets.good now token id then (true, ⟨tickets.issued.delete token⟩) else (false, tickets)

end UploadTickets

/-! ### The store -/

def isIdChar (c : Char) : Bool :=
  ('a' ≤ c && c ≤ 'z') || ('A' ≤ c && c ≤ 'Z') || ('0' ≤ c && c ≤ '9') || c == '-' || c == '_'

/-- The ids that `path_for` has a path for. -/
def validId (id : String) : Bool :=
  id != "" && decide (id.utf8ByteSize ≤ 64) && id.toList.all isIdChar

/-- What `put(id, data)` checks before it writes, given whether the file is there. -/
def checkPut (id : String) (data : Bytes) (present : Bool) : Except String Unit :=
  if !validId id then .error "invalid blob id"
  else if MAX_BLOB_BYTES < data.length then .error "blob too large"
  else if present then .error "blob already exists"
  else .ok ()

/-- `get(id)`, from a disk that can be read. -/
def get (files : Dict String Bytes) (id : String) : Except String (Option Bytes) :=
  if validId id then .ok (files.get? id) else .error "invalid blob id"

/-- `put(id, data)`, if nothing comes in between and the disk can be written. -/
def put (files : Dict String Bytes) (id : String) (data : Bytes) :
    Except String Unit × Dict String Bytes :=
  match checkPut id data (files.has id) with
  | .error e => (.error e, files)
  | .ok () => (.ok (), files.set id data)

/-- What the routes for files work on. -/
structure Relay where
  tickets : UploadTickets
  files : Dict String Bytes

structure Answer where
  status : ℕ
  body : Bytes ⊕ String

/-- `put_blob(id, headers, body)`, behind the limit of `DefaultBodyLimit`. -/
def putBlob (now : ℕ) (id : String) (ticket : Option String) (body : Bytes) (relay : Relay) :
    Answer × Relay :=
  if MAX_BLOB_BYTES + 1024 < body.length then (⟨413, .inr "length limit exceeded"⟩, relay)
  else
    let redeemed := relay.tickets.redeem now (ticket.getD "") id
    if !redeemed.1 then
      (⟨403, .inr "missing or invalid upload ticket"⟩, { relay with tickets := redeemed.2 })
    else
      let done := put relay.files id body
      match done.1 with
      | .ok () => (⟨201, .inr ""⟩, ⟨redeemed.2, done.2⟩)
      | .error e => (⟨400, .inr e⟩, ⟨redeemed.2, done.2⟩)

/-- `get_blob(id)`. -/
def getBlob (id : String) (relay : Relay) : Answer :=
  match get relay.files id with
  | .ok (some data) => ⟨200, .inl data⟩
  | .ok none => ⟨404, .inr ""⟩
  | .error e => ⟨500, .inr e⟩

/-! ### How long files are kept -/

/-- `char::is_whitespace`. -/
def isWhitespace (c : Char) : Bool :=
  (9 ≤ c.toNat && c.toNat ≤ 13) || c.toNat == 0x20 || c.toNat == 0x85 || c.toNat == 0xA0 ||
    c.toNat == 0x1680 || (0x2000 ≤ c.toNat && c.toNat ≤ 0x200A) || c.toNat == 0x2028 ||
    c.toNat == 0x2029 || c.toNat == 0x202F || c.toNat == 0x205F || c.toNat == 0x3000

/-- `value.trim()`. -/
def trim (value : String) : List Char := (value.toList.dropWhile isWhitespace).rdropWhile isWhitespace

/-- The digits of a `u64`, after those that were read. -/
def digits : ℕ → List Char → Option ℕ
  | n, [] => some n
  | n, c :: rest =>
    if '0' ≤ c ∧ c ≤ '9' then
      let next := n * 10 + (c.toNat - 48)
      if next < 2 ^ 64 then digits next rest else none
    else none

/-- `parse::<u64>()`: digits, after a plus sign if there is one. -/
def parseU64 : List Char → Option ℕ
  | [] => none
  | c :: rest =>
    if c = '+' then
      if rest = [] then none else digits 0 rest
    else digits 0 (c :: rest)

/-- The number of days that a text says. -/
def statedDays (value : Option String) : Option ℕ := do
  let days ← parseU64 (trim (← value))
  if 0 < days then some days else none

/-- `blob_ttl_from(value)`, in seconds. -/
def blobTtlFrom (value : Option String) : Option ℕ :=
  (statedDays value).map fun days => days * 86400 % 2 ^ 64

/-- `SystemTime`: seconds of 64 bits with a sign, and nanoseconds. -/
structure SystemTime where
  secs : ℤ
  nanos : ℕ
  lower : -2 ^ 63 ≤ secs
  upper : secs < 2 ^ 63
  small : nanos < 10 ^ 9

/-- The nanoseconds since the epoch. -/
def SystemTime.inNanos (t : SystemTime) : ℤ := t.secs * 10 ^ 9 + t.nanos

/-- `now.duration_since(m)`, in nanoseconds, unless `m` is later. -/
def durationSince (now m : SystemTime) : Option ℕ :=
  if m.inNanos ≤ now.inNanos then some (now.inNanos - m.inNanos).toNat else none

/-- `Metadata`, of which the time may not be there. -/
structure Metadata where
  isFile : Bool
  modified : Option SystemTime

/-- An entry of the directory.  Its name may be no text, its data may be out of reach, and it may not
be possible to remove it. -/
structure Entry where
  name : Option String
  metadata : Option Metadata
  removable : Bool

/-- Last modified more than so many seconds ago. -/
def Metadata.old (maxAge : ℕ) (now : SystemTime) (metadata : Metadata) : Bool :=
  (metadata.modified.bind (durationSince now)).any fun age => decide (maxAge * 10 ^ 9 < age)

/-- The entry is removed by a sweep. -/
def Entry.swept (maxAge : ℕ) (now : SystemTime) (entry : Entry) : Bool :=
  entry.name.any validId &&
    entry.metadata.any (fun metadata => metadata.isFile && metadata.old maxAge now) &&
    entry.removable

/-- The loop of `sweep_older_than(max_age, now)` over what `next_entry` yields: what is removed, and
what is returned. -/
def sweepLoop (maxAge : ℕ) (now : SystemTime) :
    List (Except String Entry) → ℕ → List Entry × Except String ℕ
  | [], removed => ([], .ok removed)
  | .error e :: _, _ => ([], .error e)
  | .ok entry :: rest, removed =>
    if entry.swept maxAge now then
      let r := sweepLoop maxAge now rest (removed + 1)
      (entry :: r.1, r.2)
    else sweepLoop maxAge now rest removed

/-- `sweep_older_than(max_age, now)`, of a directory that may not be there to read. -/
def sweepOlderThan (maxAge : ℕ) (now : SystemTime)
    (entries : Except String (List (Except String Entry))) : List Entry × Except String ℕ :=
  match entries with
  | .error e => ([], .error e)
  | .ok entries => sweepLoop maxAge now entries 0

end Quorum.Blobs
