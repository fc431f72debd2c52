import Quorum.Order.Along
import Quorum.Order.Expiring
import Quorum.Store.Memory

/-!
# Signing in from a new device

The identity of an account is kept by the relay, encrypted by the client: in the vault of the account,
and once for every further device that was enrolled (`account.rs`).  The relay hands it out to whoever
answers a challenge with the passkey.  A challenge is for the account somebody names, or, without a
name, for whatever passkey answers it; then the credential id that the answer comes with says whose
it is.

What is checked by `webauthn-rs` and read by `serde_json` is a parameter, `Webauthn`, and so is
base64.  The time of a challenge is an `Instant`, here a number of nanoseconds.
-/

namespace Quorum.Account

open Js Store
open Expiring (Table)

/-! ### What the service is built on -/

/-- The functions of `webauthn-rs` and `serde_json` that the service calls to check an assertion. -/
structure Webauthn where
  /-- `DiscoverableAuthentication`. -/
  Discoverable : Type
  Passkey : Type
  /-- `PublicKeyCredential`. -/
  Assertion : Type
  parsePasskey : String → Except String Passkey
  parseAssertion : String → Except String Assertion
  credId : Passkey → Bytes
  finishDiscoverable : Assertion → Discoverable → Passkey → Except String Unit

/-- `STANDARD` and `URL_SAFE_NO_PAD`. -/
structure Base64 where
  encode : Bytes → String
  decode : String → Option Bytes
  decodeUrl : String → Option Bytes

/-! ### The service -/

/-- `STATE_TTL`: five minutes. -/
def STATE_TTL : ℕ := 300 * 10 ^ 9

/-- `AccountService`: the challenges without a name that wait for an answer. -/
structure AccountService (w : Webauthn) where
  /-- By the challenge, which the client sends back. -/
  discoStates : Table String w.Discoverable

namespace AccountService

variable {w : Webauthn}

/-- `passkey_cred_id(credential_json)`. -/
def passkeyCredId (w : Webauthn) (credentialJson : String) : Except String Bytes :=
  (w.parsePasskey credentialJson).map w.credId

/-- What an assertion of any passkey is checked for. -/
def checkDiscoverable (assertionJson credentialJson : String) (state : w.Discoverable) :
    Except String Unit := do
  let assertion ← w.parseAssertion assertionJson
  let passkey ← w.parsePasskey credentialJson
  w.finishDiscoverable assertion state passkey

/-- `finish_discoverable(session, assertion_json, credential_json)`. -/
def finishDiscoverable (session assertionJson credentialJson : String)
    (service : AccountService w) : Except String Unit × AccountService w :=
  match service.discoStates.get? session with
  | none => (.error "no authentication in progress (expired?)", service)
  | some (state, _) =>
    (checkDiscoverable assertionJson credentialJson state,
      { service with discoStates := service.discoStates.finish session })

end AccountService

/-! ### The handlers -/

/-- The codes of the answers that are errors. -/
inductive StatusCode
  | badRequest
  | forbidden
  | internalServerError
deriving DecidableEq

/-- An answer to a request over HTTP. -/
inductive Response
  | identity (user payload : String)
  | err (status : StatusCode) (message : String)
deriving DecidableEq

section

variable {w : Webauthn} (b64 : Base64)

/-- What `passkey_discover_login` answers about an identity, when its passkey was checked. -/
def answerIdentity (user : String) (wrapped : Bytes) : Except String Unit → Response
  | .ok () => .identity user (b64.encode wrapped)
  | .error e => .err .forbidden e

/-- The body of `passkey_discover_login`: the assertion as it is printed, and its `rawId` if that is
a string. -/
structure DiscoverLogin where
  session : String
  assertion : String
  rawId : Option String

/-- The credential of a vault is a passkey of that id. -/
def bears (w : Webauthn) (credId : Bytes) (credential : Option String) : Bool :=
  match credential.map (AccountService.passkeyCredId w) with
  | some (.ok id) => id == credId
  | _ => false

/-- `passkey_discover_login(body)`, with the vaults in the order in which the store lists them. -/
def passkeyDiscoverLogin (inner : MemoryInner) (vaults : List (String × VaultRecord))
    (service : AccountService w) (body : DiscoverLogin) : Response × AccountService w :=
  match body.rawId with
  | none => (.err .badRequest "assertion missing rawId", service)
  | some rawId =>
    match inner.passkeyWraps.get? rawId with
    | some wrap =>
      let checked := service.finishDiscoverable body.session body.assertion wrap.credential
      (answerIdentity b64 wrap.user wrap.wrapped checked.1, checked.2)
    | none =>
      match b64.decodeUrl rawId with
      | none => (.err .badRequest "rawId is not valid base64url", service)
      | some credId =>
        match vaults.find? fun p => bears w credId p.2.credential with
        | none => (.err .forbidden "unrecognized passkey", service)
        | some (user, vault) =>
          match vault.credential with
          | none => (.err .internalServerError "vault missing credential", service)
          | some credential =>
            let checked := service.finishDiscoverable body.session body.assertion credential
            (answerIdentity b64 user vault.wrapped checked.1, checked.2)

end

/-! ### Requests of a signed-in user -/

/-- `MAX_DEVICE_LABEL`. -/
def MAX_DEVICE_LABEL : ℕ := 64

/-- The requests that write to the vault and to the devices of an account. -/
inductive Request
  | vaultSet (kind salt verifier wrapped : String) (credential : Option String)
  | passkeyWrapAdd (credId credential salt wrapped : String) (label : Option String)
  | passkeyWrapDel (credId : String)
deriving DecidableEq

/-- What a request is answered. -/
abbrev Reply := Except String Unit

def replyOf (answer : Except StoreError Unit × MemoryInner) : Reply × MemoryInner :=
  (answer.1.mapError StoreError.message, answer.2)

/-- `handle_request` for these requests, at a time in seconds. -/
def handleRequest (b64 : Base64) (now : ℕ) (user : String) (inner : MemoryInner) :
    Request → Reply × MemoryInner
  | .vaultSet kind salt verifier wrapped credential =>
    if kind ≠ "password" ∧ kind ≠ "passkey" then
      (.error "kind must be password or passkey", inner)
    else
      match b64.decode salt, b64.decode verifier, b64.decode wrapped with
      | some salt, some verifier, some wrapped =>
        replyOf (MemoryStore.setVault user { kind, salt, verifier, wrapped, credential } inner)
      | _, _, _ => (.error "invalid base64", inner)
  | .passkeyWrapAdd credId credential salt wrapped label =>
    match b64.decode salt, b64.decode wrapped with
    | some salt, some wrapped =>
      let wrap : PasskeyWrap :=
        { user, credential, salt, wrapped
          label := String.ofList ((label.getD "").toList.take MAX_DEVICE_LABEL)
          createdAt := now }
      replyOf (MemoryStore.addPasskeyWrap credId wrap inner)
    | _, _ => (.error "invalid base64", inner)
  | .passkeyWrapDel credId =>
    match MemoryStore.deletePasskeyWrap credId user inner with
    | (.ok true, inner) => (.ok (), inner)
    | (.ok false, inner) => (.error "no such device", inner)
    | (.error e, inner) => (.error e.message, inner)

/-! ### A small library -/

/-- A passkey is its own id here, and signs a challenge by repeating it. -/
def repeating : Webauthn where
  Discoverable := String
  Passkey := String
  Assertion := String
  parsePasskey := .ok
  parseAssertion := .ok
  credId passkey := passkey.toList.map fun c => UInt8.ofNat c.toNat
  finishDiscoverable assertion state passkey :=
    if assertion = state ++ passkey then .ok () else .error "bad signature"

/-- Characters as bytes. -/
def latin : Base64 where
  encode bytes := String.ofList (bytes.map fun b => Char.ofNat b.toNat)
  decode text := some (text.toList.map fun c => UInt8.ofNat c.toNat)
  decodeUrl text := some (text.toList.map fun c => UInt8.ofNat c.toNat)

/-- The vault of somebody who has the passkey `k`. -/
def aliceVault : VaultRecord := ⟨"passkey", [], [], [1], some "k"⟩

/-- The relay keeps it. -/
def aliceStored : MemoryInner :=
  { MemoryInner.empty with vaults := MemoryInner.empty.vaults.set "alice" aliceVault }

end Quorum.Account
