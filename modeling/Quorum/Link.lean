import Quorum.Blobs
import Quorum.Js.Base64
import Quorum.Js.Unicode

/-!
# Linking a device

A new device shows an address with a public key and an id that it has drawn.  A device that is signed
in opens the address, seals the identity for the key and leaves it with the relay under the id, where
the new device asks for it (`link.js`, and `linkPoll` and `sendIdentityToDevice` of the controller).
Both show a code that is made from the key.

Keys and ciphers are the browser's (`WebCrypto`), as is how a field of a query is decoded.
-/

namespace Quorum.Link

open Js Store Blobs

/-! ### The browser -/

/-- Bytes that are drawn at random, so many. -/
abbrev Draw (n : ℕ) : Type := { bytes : Bytes // bytes.length = n }

/-- What the code uses of `crypto.subtle`, with `Private` for a pair of keys and `Key` for a key
of AES-GCM. -/
structure WebCrypto (Private Key : Type) where
  /-- The raw public key of a pair. -/
  exportPub : Private → Bytes
  /-- `importPub` and `deriveBits`. -/
  deriveBits : Private → Bytes → Except Error Bytes
  /-- `deriveKey` with HKDF, of the material, the salt and the info. -/
  hkdf : Bytes → Bytes → Bytes → Key
  encrypt : Key → Bytes → Bytes → Bytes
  decrypt : Key → Bytes → Bytes → Except Error Bytes
  sha256 : Bytes → Bytes

/-- `PUB_LEN`. -/
def PUB_LEN : ℕ := 65

/-- `IV_LEN`. -/
def IV_LEN : ℕ := 12

/-- What AES-GCM adds to a text. -/
def TAG_LEN : ℕ := 16

/-- ECDH over P-256 and AES-GCM do what they are for. -/
structure WebCrypto.Lawful {Private Key : Type} (subtle : WebCrypto Private Key) : Prop where
  length_exportPub : ∀ a, (subtle.exportPub a).length = PUB_LEN
  deriveBits_symm : ∀ a b, ∃ bits, subtle.deriveBits a (subtle.exportPub b) = .ok bits ∧
    subtle.deriveBits b (subtle.exportPub a) = .ok bits
  decrypt_encrypt : ∀ key iv text, subtle.decrypt key iv (subtle.encrypt key iv text) = .ok text
  length_encrypt : ∀ key iv text, (subtle.encrypt key iv text).length = text.length + TAG_LEN

/-- An origin has neither a query nor a fragment. -/
structure Origin where
  text : Str
  query_notMem : unit '?' ∉ text
  hash_notMem : unit '#' ∉ text

/-- `location.search` and `location.hash`. -/
structure Location where
  search : Str
  hash : Str

/-- What stands from a sign on, unless that is the sign alone. -/
def fromSign (u : CodeUnit) (s : Str) : Str :=
  let tail := s.dropWhile (· ≠ u)
  if tail.length ≤ 1 then [] else tail

/-- The location of a page that is opened at an address. -/
def Location.of (url : Str) : Location where
  search := fromSign (unit '?') (url.takeWhile (· ≠ unit '#'))
  hash := fromSign (unit '#') url

/-- `new URLSearchParams(search).get(name)`, given how a field is decoded. -/
def searchParam (formDecode : Str → Str) (search name : Str) : Option Str :=
  let query := if search.head? = some (unit '?') then search.tail else search
  let fields := (query.splitOn (unit '&')).filter (· ≠ [])
  (fields.find? fun f => formDecode (f.takeWhile (· ≠ unit '=')) = name).map fun f =>
    formDecode ((f.dropWhile (· ≠ unit '=')).drop 1)

/-- The group of the first match of `/k=([A-Za-z0-9_-]+)/`. -/
def keyMatch : Str → Option Str
  | u :: v :: s =>
    if u = unit 'k' ∧ v = unit '=' ∧ s.takeWhile isUrlChar ≠ [] then some (s.takeWhile isUrlChar)
    else keyMatch (v :: s)
  | _ => none

/-! ### `link.js` -/

section

variable {Private Key : Type} (subtle : WebCrypto Private Key)

/-- `INFO`. -/
def INFO : Bytes := utf8 (lit "quorum/device-link/v1")

/-- `sharedKey(privateKey, peerPubRaw)`. -/
def sharedKey (privateKey : Private) (peerPubRaw : Bytes) : Except Error Key := do
  let bits ← subtle.deriveBits privateKey peerPubRaw
  return subtle.hkdf bits [] INFO

/-- `verifyCode(pubRaw)`.  A code of zero is filled up as an empty one is. -/
def verifyCode (pubRaw : Bytes) : Str :=
  let h := subtle.sha256 pubRaw
  let n := (h.getD 0 0).toNat * 2 ^ 16 + (h.getD 1 0).toNat * 2 ^ 8 + (h.getD 2 0).toNat
  let digits := Number.digits (n % 1000000)
  List.replicate (6 - digits.length) (unit '0') ++ digits

/-- What `createLinkOffer` returns. -/
structure Offer (Private : Type) where
  url : Str
  blobId : Str
  privateKey : Private
  pub : Bytes
  code : Str

/-- `createLinkOffer(origin)`, with the pair and the bytes that are drawn. -/
def createLinkOffer (pair : Private) (drawn : Draw 18) (origin : Origin) : Offer Private :=
  let pub := subtle.exportPub pair
  let blobId := b64urlEnc drawn.val
  { url := origin.text ++ lit "/?link=" ++ blobId ++ lit "#k=" ++ b64urlEnc pub
    blobId
    privateKey := pair
    pub
    code := verifyCode subtle pub }

/-- `parseLinkUrl(loc)`. -/
def parseLinkUrl (formDecode : Str → Str) (loc : Location) : Except Error (Option (Str × Bytes)) :=
  match searchParam formDecode loc.search (lit "link"), keyMatch loc.hash with
  | some blobId, some key =>
    if blobId = [] then .ok none else (b64urlDec key).map fun pub => some (blobId, pub)
  | _, _ => .ok none

/-- `sealIdentity(pubRaw, identity)`, with the pair and the vector that are drawn. -/
def sealIdentity (pair : Private) (iv : Draw IV_LEN) (pubRaw identity : Bytes) :
    Except Error (Bytes × Str) := do
  let key ← sharedKey subtle pair pubRaw
  let ct := subtle.encrypt key iv.val identity
  return (subtle.exportPub pair ++ iv.val ++ ct, verifyCode subtle pubRaw)

/-- What goes wrong on the way. -/
inductive Failure
  | thrown (e : Error)
  /-- `link payload too short`. -/
  | tooShort
  /-- `link fetch failed: HTTP …`. -/
  | fetchFailed (status : ℕ)
  /-- `link send failed: HTTP …`. -/
  | sendFailed (status : ℕ)
deriving DecidableEq

/-- `openSealed(privateKey, payload)`. -/
def openSealed (privateKey : Private) (payload : Bytes) : Except Failure Bytes :=
  if payload.length < PUB_LEN + IV_LEN then .error .tooShort
  else Except.mapError .thrown do
    let ephPub := payload.take PUB_LEN
    let iv := (payload.drop PUB_LEN).take IV_LEN
    let ct := payload.drop (PUB_LEN + IV_LEN)
    let key ← sharedKey subtle privateKey ephPub
    subtle.decrypt key iv ct

/-! ### The controller -/

/-- The id that the relay reads from a path with `encodeURIComponent(blobId)`, which throws on half
of a surrogate pair. -/
def routeId (blobId : Str) : Except Error String :=
  if (chars blobId).flatMap unitsOf = blobId then .ok (String.ofList (chars blobId))
  else .error .typeError

/-- `res.ok`. -/
def isSuccess (res : Blobs.Answer) : Bool := 200 ≤ res.status && res.status ≤ 299

/-- `new Uint8Array(await res.arrayBuffer())`. -/
def bodyBytes (res : Blobs.Answer) : Bytes :=
  match res.body with
  | .inl data => data
  | .inr text => text.toByteArray.data.toList

/-- `linkPoll(blobId)`. -/
def linkPoll (blobId : Str) (relay : Relay) : Except Failure (Option Bytes) :=
  match routeId blobId with
  | .error e => .error (.thrown e)
  | .ok id =>
    let res := getBlob id relay
    if res.status = 404 then .ok none
    else if !isSuccess res then .error (.fetchFailed res.status)
    else .ok (some (bodyBytes res))

/-- `sendIdentityToDevice(blobId, pubRaw)`.  The request has a body and no header. -/
def sendIdentityToDevice (now : ℕ) (pair : Private) (iv : Draw IV_LEN) (identity : Bytes)
    (blobId : Str) (pubRaw : Bytes) (relay : Relay) : Except Failure Str × Relay :=
  match sealIdentity subtle pair iv pubRaw identity, routeId blobId with
  | .ok (payload, code), .ok id =>
    let done := putBlob now id none payload relay
    if isSuccess done.1 then (.ok code, done.2)
    else (.error (.sendFailed done.1.status), done.2)
  | .error e, _ => (.error (.thrown e), relay)
  | _, .error e => (.error (.thrown e), relay)

end

end Quorum.Link
