import Quorum.Link.Address
import Quorum.Order.Along

/-!
# The hand-off

What is sealed for an offer its private key opens, and what the relay has taken in under the id of
the offer it hands out.  But the device that sends shows no ticket, and the relay takes in nothing
without one: linking completes exactly if the relay has a live ticket for the id under the empty
token (`linking_completes_iff`).  It never gives out such a ticket (`not_good_of_reached`).
-/

namespace Quorum.Link

open Js Store Blobs

variable {Private Key : Type} {subtle : WebCrypto Private Key} {pair eph : Private}
  {drawn : Draw 18} {iv : Draw IV_LEN} {origin : Origin} {identity payload : Bytes} {now : ℕ}
  {relay : Relay}

/-! ### Sealing -/

theorem WebCrypto.Lawful.sharedKey_symm (h : subtle.Lawful) (a b : Private) :
    ∃ key, sharedKey subtle a (subtle.exportPub b) = .ok key ∧
      sharedKey subtle b (subtle.exportPub a) = .ok key := by
  obtain ⟨bits, hab, hba⟩ := h.deriveBits_symm a b
  exact ⟨subtle.hkdf bits [] INFO, by simp [sharedKey, hab], by simp [sharedKey, hba]⟩

/-- The identity is sealed for the pair of the offer, which opens it. -/
theorem sealIdentity_spec (h : subtle.Lawful) (pair eph : Private) (iv : Draw IV_LEN)
    (identity : Bytes) :
    ∃ payload, sealIdentity subtle eph iv (subtle.exportPub pair) identity =
        .ok (payload, verifyCode subtle (subtle.exportPub pair)) ∧
      payload.length = PUB_LEN + IV_LEN + TAG_LEN + identity.length ∧
      openSealed subtle pair payload = .ok identity := by
  obtain ⟨key, hseal, hopen⟩ := h.sharedKey_symm eph pair
  have hpub := h.length_exportPub eph
  have hct := h.length_encrypt key iv.val identity
  refine ⟨subtle.exportPub eph ++ iv.val ++ subtle.encrypt key iv.val identity, ?_, ?_, ?_⟩
  · simp only [sealIdentity, hseal, ok_bind, pure_eq]
  · simp only [List.length_append, hpub, iv.property, hct]
    omega
  · have hlen : ¬ (subtle.exportPub eph ++ iv.val ++
        subtle.encrypt key iv.val identity).length < PUB_LEN + IV_LEN := by
      simp only [List.length_append, hpub, iv.property]
      omega
    have hfront : (subtle.exportPub eph ++ iv.val).length = PUB_LEN + IV_LEN := by
      rw [List.length_append, hpub, iv.property]
    rw [openSealed, if_neg hlen, List.drop_left' hfront, List.append_assoc, List.take_left' hpub,
      List.drop_left' hpub, List.take_left' iv.property]
    dsimp only
    rw [hopen, ok_bind, h.decrypt_encrypt]
    rfl

/-! ### The relay -/

theorem isIdChar_ofNat {u : CodeUnit} (h : isUrlChar u = true) :
    isIdChar (Char.ofNat u.val) = true ∧ isHigh u = false ∧ isLow u = false ∧
      (Char.ofNat u.val).utf8Size = 1 := by
  have hlt : u.val < 128 := by
    simp only [isUrlChar, Bool.or_eq_true, Bool.and_eq_true, decide_eq_true_eq, beq_iff_eq] at h
    rcases h with ((((h | h) | h) | rfl) | rfl)
    · omega
    · omega
    · omega
    · decide
    · decide
  -- what is left is said of the characters of ASCII
  have hall : ∀ n : Fin 128, isUrlChar (Fin.ofNat 65536 n.val) = true →
      isIdChar (Char.ofNat n.val) = true ∧ isHigh (Fin.ofNat 65536 n.val) = false ∧
        isLow (Fin.ofNat 65536 n.val) = false ∧ (Char.ofNat n.val).utf8Size = 1 := by
    decide
  have hu : Fin.ofNat 65536 u.val = u := ofNat_val u
  have := hall ⟨u.val, hlt⟩
  simp only [hu] at this
  exact this h

/-- A text in base64 as the relay has it. -/
def relayText (bytes : Bytes) : String := String.ofList (chars (b64urlEnc bytes))

theorem chars_of_isUrlChar {s : Str} (hs : ∀ u ∈ s, isUrlChar u = true) :
    chars s = s.map fun u => Char.ofNat u.val := by
  induction s with
  | nil => rfl
  | cons u s ih =>
    rw [List.forall_mem_cons] at hs
    obtain ⟨-, hhigh, hlow, -⟩ := isIdChar_ofNat hs.1
    rw [chars_unit hhigh hlow, ih hs.2, List.map_cons]

theorem utf8Len_of_isUrlChar {s : Str} (hs : ∀ u ∈ s, isUrlChar u = true) :
    String.utf8Len (s.map fun u => Char.ofNat u.val) = s.length := by
  induction s with
  | nil => rfl
  | cons u s ih =>
    rw [List.forall_mem_cons] at hs
    rw [List.map_cons, String.utf8Len_cons, ih hs.2, (isIdChar_ofNat hs.1).2.2.2, List.length_cons]

theorem relayText_eq (bytes : Bytes) :
    relayText bytes = String.ofList ((b64urlEnc bytes).map fun u => Char.ofNat u.val) := by
  rw [relayText, chars_of_isUrlChar fun u => isUrlChar_of_mem_b64urlEnc]

theorem relayText_ne_empty {bytes : Bytes} (h : 0 < bytes.length) : relayText bytes ≠ "" := by
  intro hempty
  rw [relayText_eq] at hempty
  have hnil := congrArg String.toList hempty
  rw [String.toList_ofList] at hnil
  exact b64urlEnc_ne_nil h (List.map_eq_nil_iff.1 hnil)

theorem routeId_b64urlEnc (bytes : Bytes) : routeId (b64urlEnc bytes) = .ok (relayText bytes) := by
  have hwell : Js.WellFormed (b64urlEnc bytes) := .of_forall fun u hu =>
    have h := isIdChar_ofNat (isUrlChar_of_mem_b64urlEnc hu)
    ⟨h.2.1, h.2.2.1⟩
  rw [routeId, if_pos (flatMap_unitsOf_chars hwell), relayText]

/-- The relay has a path for the id of an offer. -/
theorem validId_relayText (drawn : Draw 18) : validId (relayText drawn.val) = true := by
  have hurl : ∀ u ∈ b64urlEnc drawn.val, isUrlChar u = true :=
    fun u => isUrlChar_of_mem_b64urlEnc
  have hsize : (relayText drawn.val).utf8ByteSize = 24 := by
    rw [relayText_eq, String.utf8ByteSize_ofList, utf8Len_of_isUrlChar hurl, length_b64urlEnc,
      drawn.property]
  have hne : relayText drawn.val ≠ "" := relayText_ne_empty (by rw [drawn.property]; decide)
  have hchars : (relayText drawn.val).toList.all isIdChar = true := by
    rw [relayText_eq, String.toList_ofList, List.all_map, List.all_eq_true]
    exact fun u hu => (isIdChar_ofNat (hurl u hu)).1
  simp [validId, hsize, hne, hchars]

/-- An upload without a ticket is taken in exactly if there is one under the empty token. -/
theorem isSuccess_putBlob_iff {id : String} (hid : validId id = true)
    (hunused : relay.files.has id = false) (now : ℕ) (body : Bytes) :
    isSuccess (putBlob now id none body relay).1 = true ↔
      relay.tickets.good now "" id = true ∧ body.length ≤ MAX_BLOB_BYTES := by
  unfold putBlob
  by_cases hhuge : MAX_BLOB_BYTES + 1024 < body.length
  · rw [if_pos hhuge]
    exact ⟨fun h => by simp [isSuccess] at h, fun h => absurd h.2 (by omega)⟩
  · rw [if_neg hhuge]
    cases hgood : relay.tickets.good now "" id with
    | false => simp [UploadTickets.redeem, hgood, isSuccess]
    | true =>
      by_cases hlarge : MAX_BLOB_BYTES < body.length
      · simp [UploadTickets.redeem, hgood, put, checkPut, hid, hlarge, isSuccess]
      · simp [UploadTickets.redeem, hgood, put, checkPut, hid, hlarge, hunused, isSuccess]
        omega

theorem files_putBlob {id : String} {ticket : Option String} {body : Bytes}
    (h : isSuccess (putBlob now id ticket body relay).1 = true) :
    (putBlob now id ticket body relay).2.files = relay.files.set id body := by
  unfold putBlob at h ⊢
  by_cases hhuge : MAX_BLOB_BYTES + 1024 < body.length
  · rw [if_pos hhuge] at h
    simp [isSuccess] at h
  · rw [if_neg hhuge] at h ⊢
    cases hredeem : (relay.tickets.redeem now (ticket.getD "") id).1 with
    | false => simp [hredeem, isSuccess] at h
    | true =>
      simp only [hredeem, Bool.not_true, Bool.false_eq_true, if_false] at h ⊢
      cases hcheck : checkPut id body (relay.files.has id) with
      | error e => simp [put, hcheck, isSuccess] at h
      | ok => simp [put, hcheck]

theorem linkPoll_of_get? {bytes data : Bytes} (hid : validId (relayText bytes) = true)
    (h : relay.files.get? (relayText bytes) = some data) :
    linkPoll (b64urlEnc bytes) relay = .ok (some data) := by
  simp [linkPoll, routeId_b64urlEnc, getBlob, Blobs.get, hid, h, isSuccess, bodyBytes]

/-! ### Linking -/

/-- A device that has opened the address of an offer sends its identity, and the device with the
offer asks for it and opens it. -/
def Completes (subtle : WebCrypto Private Key) (formDecode : Str → Str) (offer : Offer Private)
    (now : ℕ) (eph : Private) (iv : Draw IV_LEN) (identity : Bytes) (relay : Relay) : Prop :=
  parseLinkUrl formDecode (Location.of offer.url) = .ok (some (offer.blobId, offer.pub)) ∧
  ∃ payload relay',
    sealIdentity subtle eph iv offer.pub identity = .ok (payload, offer.code) ∧
    sendIdentityToDevice subtle now eph iv identity offer.blobId offer.pub relay =
      (.ok offer.code, relay') ∧
    linkPoll offer.blobId relay' = .ok (some payload) ∧
    openSealed subtle offer.privateKey payload = .ok identity ∧
    verifyCode subtle offer.pub = offer.code

/-- **Linking completes exactly if the relay has a live ticket for the id under the empty token**, and
the sealed identity is not too large. -/
theorem linking_completes_iff {formDecode : Str → Str} (h : subtle.Lawful)
    (hform : ∀ s, (∀ u ∈ s, isUrlChar u = true) → formDecode s = s)
    (hunused : relay.files.has (relayText drawn.val) = false) :
    Completes subtle formDecode (createLinkOffer subtle pair drawn origin) now eph iv identity
        relay ↔
      relay.tickets.good now "" (relayText drawn.val) = true ∧
        PUB_LEN + IV_LEN + TAG_LEN + identity.length ≤ MAX_BLOB_BYTES := by
  obtain ⟨payload, hseal, hlen, hopen⟩ := sealIdentity_spec h pair eph iv identity
  have hid := validId_relayText drawn
  have hput := isSuccess_putBlob_iff hid hunused now payload
  rw [hlen] at hput
  rw [← hput]
  have hroute : routeId (createLinkOffer subtle pair drawn origin).blobId =
      .ok (relayText drawn.val) := routeId_b64urlEnc drawn.val
  have hseal' : sealIdentity subtle eph iv (createLinkOffer subtle pair drawn origin).pub identity =
      .ok (payload, (createLinkOffer subtle pair drawn origin).code) := hseal
  constructor
  · rintro ⟨-, -, relay', -, hsend, -⟩
    by_contra hfail
    simp [sendIdentityToDevice, hseal', hroute, hfail] at hsend
  · intro hok
    have hpub : 0 < (subtle.exportPub pair).length := by rw [h.length_exportPub]; decide
    refine ⟨parseLinkUrl_createLinkOffer hform hpub, payload,
      (putBlob now (relayText drawn.val) none payload relay).2, hseal', ?_, ?_, hopen, rfl⟩
    · simp [sendIdentityToDevice, hseal', hroute, hok]
    · refine linkPoll_of_get? hid ?_
      rw [files_putBlob hok, Dict.get?_set_self]

/-! ### The tickets of a relay -/

/-- What changes the tickets or the files of a relay. -/
inductive Request
  /-- `blob_ticket` over a connection, with the token that is drawn. -/
  | ticket (token : Draw 24) (now : ℕ) (id : String)
  /-- `PUT /blobs/:id`. -/
  | upload (now : ℕ) (id : String) (ticket : Option String) (body : Bytes)

def serve (relay : Relay) : Request → Relay
  | .ticket token now id =>
    { relay with tickets := (relay.tickets.mint (relayText token.val) now id).2 }
  | .upload now id ticket body => (putBlob now id ticket body relay).2

/-- An upload is refused and leaves the tickets alone, or it spends a good one. -/
theorem tickets_putBlob (relay : Relay) (now : ℕ) (id : String) (ticket : Option String)
    (body : Bytes) :
    isSuccess (putBlob now id ticket body relay).1 = false ∧
        (putBlob now id ticket body relay).2.tickets = relay.tickets ∨
      relay.tickets.good now (ticket.getD "") id = true ∧
        (putBlob now id ticket body relay).2.tickets =
          ⟨relay.tickets.issued.delete (ticket.getD "")⟩ := by
  unfold putBlob
  by_cases hhuge : MAX_BLOB_BYTES + 1024 < body.length
  · exact .inl (by simp [hhuge, isSuccess])
  · cases hgood : relay.tickets.good now (ticket.getD "") id with
    | false => exact .inl (by simp [hhuge, UploadTickets.redeem, hgood, isSuccess])
    | true =>
      refine .inr ⟨rfl, ?_⟩
      simp only [hhuge, if_false, UploadTickets.redeem, hgood, if_true, Bool.not_true]
      cases (put relay.files id body).1 <;> simp

/-- A ticket that is held after a request was held before, or asked for by it. -/
theorem asked_of_get?_serve {request : Request} {token id : String} {since : ℕ}
    (h : (serve relay request).tickets.issued.get? token = some (id, since)) :
    relay.tickets.issued.get? token = some (id, since) ∨
      ∃ drawn, relayText drawn.val = token ∧ request = .ticket drawn since id := by
  cases request with
  | ticket drawn now id' =>
    simp only [serve, UploadTickets.mint] at h
    split at h
    · rcases Dict.get?_set_cases h with ⟨hsame, hnew⟩ | ⟨-, h⟩
      · obtain ⟨rfl, rfl⟩ := Prod.mk.inj hnew
        exact .inr ⟨drawn, hsame, rfl⟩
      · exact .inl (Dict.get?_of_filter h)
    · exact .inl (Dict.get?_of_filter h)
  | upload now id' ticket body =>
    refine .inl ?_
    rcases tickets_putBlob relay now id' ticket body with ⟨-, hsame⟩ | ⟨-, hspent⟩
    · rwa [serve, hsame] at h
    · rw [serve, hspent] at h
      exact Dict.get?_of_delete h

theorem asked_of_get? {files : Dict String Bytes} {requests : List Request} {token id : String}
    {since : ℕ}
    (h : (requests.foldl serve ⟨⟨.empty⟩, files⟩).tickets.issued.get? token = some (id, since)) :
    ∃ drawn, relayText drawn.val = token ∧ .ticket drawn since id ∈ requests := by
  obtain ⟨_, hmem, drawn, htoken, rfl⟩ := exists_step_of_foldl
    (Q := fun relay : Relay => relay.tickets.issued.get? token = some (id, since))
    h (by simp [Dict.get?_empty]) fun _ _ => asked_of_get?_serve
  exact ⟨drawn, htoken, hmem⟩

/-- No relay ever has a ticket under the empty token. -/
theorem not_good_of_reached (files : Dict String Bytes) (requests : List Request) (now : ℕ)
    (id : String) :
    (requests.foldl serve ⟨⟨.empty⟩, files⟩).tickets.good now "" id = false := by
  cases hfound : (requests.foldl serve ⟨⟨.empty⟩, files⟩).tickets.issued.get? "" with
  | none => rw [UploadTickets.good, hfound]; rfl
  | some p =>
    obtain ⟨drawn, htoken, -⟩ := asked_of_get? hfound
    exact absurd htoken (relayText_ne_empty (by rw [drawn.property]; decide))

/-- A ticket for an id was asked for less than five minutes ago. -/
def Asked (requests : List Request) (now : ℕ) (id : String) (ticket : Option String) : Prop :=
  ∃ drawn since, ticket = some (relayText drawn.val) ∧ .ticket drawn since id ∈ requests ∧
    now - since < TICKET_TTL

theorem asked_of_isSuccess {files : Dict String Bytes} {requests : List Request} {id : String}
    {ticket : Option String} {body : Bytes}
    (h : isSuccess (putBlob now id ticket body (requests.foldl serve ⟨⟨.empty⟩, files⟩)).1 = true) :
    Asked requests now id ticket := by
  obtain ⟨hno, -⟩ | ⟨hgood, -⟩ := tickets_putBlob (requests.foldl serve ⟨⟨.empty⟩, files⟩) now id
    ticket body
  · simp [h] at hno
  cases ticket with
  | none => simp [not_good_of_reached] at hgood
  | some token =>
    obtain ⟨⟨id', since⟩, hfound, hp⟩ := (Option.any_eq_true _ _).mp hgood
    simp only [Bool.and_eq_true, beq_iff_eq, decide_eq_true_eq] at hp
    obtain ⟨drawn, rfl, hmem⟩ := asked_of_get? hfound
    exact ⟨drawn, since, rfl, hp.1 ▸ hmem, hp.2⟩

/-- **An upload is taken in only with a ticket of its own**, asked for over a connection for the
same id, and good for no other upload after it. -/
theorem uploads_by_ticket (files : Dict String Bytes) (requests : List Request) (now : ℕ)
    (id : String) (ticket : Option String) (body : Bytes)
    (h : isSuccess (putBlob now id ticket body (requests.foldl serve ⟨⟨.empty⟩, files⟩)).1 = true) :
    Asked requests now id ticket ∧
      ∀ now' id', ((requests ++ [Request.upload now id ticket body]).foldl serve
        ⟨⟨.empty⟩, files⟩).tickets.good now' (ticket.getD "") id' = false := by
  obtain ⟨hno, -⟩ | ⟨-, hspent⟩ := tickets_putBlob (requests.foldl serve ⟨⟨.empty⟩, files⟩) now id
    ticket body
  · simp [h] at hno
  refine ⟨asked_of_isSuccess h, fun now' id' => ?_⟩
  rw [List.foldl_append, List.foldl_cons, serve, List.foldl_nil, hspent]
  simp [UploadTickets.good, Dict.get?_delete]

/-- **The identity is never taken in**, whatever the relay has served: it is sent without a
ticket. -/
theorem linking_refused (files : Dict String Bytes) (requests : List Request)
    (subtle : WebCrypto Private Key) (now : ℕ) (pair : Private) (iv : Draw IV_LEN)
    (identity pubRaw : Bytes) (blobId code : Str) :
    (sendIdentityToDevice subtle now pair iv identity blobId pubRaw
      (requests.foldl serve ⟨⟨.empty⟩, files⟩)).1 ≠ .ok code := by
  intro hsent
  unfold sendIdentityToDevice at hsent
  split at hsent
  · dsimp only at hsent
    split at hsent
    · rename_i hok
      obtain ⟨drawn, since, hnone, -⟩ := asked_of_isSuccess hok
      exact nomatch hnone
    · exact nomatch hsent
  · exact nomatch hsent
  · exact nomatch hsent

/-! ### A browser with plain ciphers -/

/-- Keys that are all alike, and a cipher that only adds a tag. -/
def plainCrypto : WebCrypto Unit Unit where
  exportPub _ := List.replicate PUB_LEN 4
  deriveBits _ _ := .ok []
  hkdf _ _ _ := ()
  encrypt _ _ text := text ++ List.replicate TAG_LEN 0
  decrypt _ _ ct := .ok (ct.take (ct.length - TAG_LEN))
  sha256 bytes := bytes.take 32

theorem lawful_plainCrypto : plainCrypto.Lawful where
  length_exportPub _ := List.length_replicate
  deriveBits_symm _ _ := ⟨[], rfl, rfl⟩
  decrypt_encrypt _ _ text := by simp [plainCrypto]
  length_encrypt _ _ text := by simp [plainCrypto]

def someOrigin : Origin := ⟨lit "https://quorum.example", by decide, by decide⟩

def zeros (n : ℕ) : Draw n := ⟨List.replicate n 0, List.length_replicate⟩

/-- With its ticket a file is taken in. -/
theorem upload_after_ticket :
    Asked [.ticket (zeros 24) 0 "a"] 5 "a" (some (relayText (zeros 24).val)) :=
  (uploads_by_ticket .empty [.ticket (zeros 24) 0 "a"] 5 "a" _ [1] (by decide +kernel)).1

/-- A relay that had a ticket under the empty token would let the hand-off through. -/
theorem linking_completes_emptyToken :
    Completes plainCrypto id (createLinkOffer plainCrypto () (zeros 18) someOrigin) 0 ()
      (zeros IV_LEN) [1, 2, 3] ⟨⟨Dict.empty.set "" (relayText (zeros 18).val, 0)⟩, .empty⟩ := by
  refine (linking_completes_iff lawful_plainCrypto (fun _ _ => rfl) rfl).2 ⟨?_, by decide⟩
  simp [UploadTickets.good, TICKET_TTL]

/-- On a relay that has just started, the hand-off is refused for want of a ticket. -/
theorem handoff_refused :
    (sendIdentityToDevice plainCrypto 0 () (zeros IV_LEN) [1, 2, 3]
      (createLinkOffer plainCrypto () (zeros 18) someOrigin).blobId
      (createLinkOffer plainCrypto () (zeros 18) someOrigin).pub ⟨⟨.empty⟩, .empty⟩).1 =
        .error (.sendFailed 403) ∧
    ¬ Completes plainCrypto id (createLinkOffer plainCrypto () (zeros 18) someOrigin) 0 ()
      (zeros IV_LEN) [1, 2, 3] ⟨⟨.empty⟩, .empty⟩ := by
  have hrefused : (sendIdentityToDevice plainCrypto 0 () (zeros IV_LEN) [1, 2, 3]
      (createLinkOffer plainCrypto () (zeros 18) someOrigin).blobId
      (createLinkOffer plainCrypto () (zeros 18) someOrigin).pub ⟨⟨.empty⟩, .empty⟩).1 =
        .error (.sendFailed 403) := by
    decide +kernel
  refine ⟨hrefused, ?_⟩
  rintro ⟨-, -, relay', -, hsend, -⟩
  rw [hsend] at hrefused
  cases hrefused

end Quorum.Link
