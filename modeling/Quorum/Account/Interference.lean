import Quorum.Account

/-!
# Signing in while others write

An assertion without a name is matched with an account by the credential id it comes with, which is
no secret.  The relay looks for it among the devices first, and then among the vaults.

Whoever signs in with a device that they have enrolled is safe from others: only the account that
has enrolled a device may enrol it again.  The vaults have no such guard, and neither has a device
that is enrolled under the id of the passkey of a vault.  So with the passkey of their vault somebody
signs in for as long as no other account writes either under its id, and no longer
(`signs_in_iff`).
-/

namespace Quorum.Account

open Js Store

variable {w : Webauthn} {b64 : Base64} {service : AccountService w} {body : DiscoverLogin}
  {inner : MemoryInner} {user rawId credential : String} {wrapped credId : Bytes}

/-! ### An answer -/

/-- A fresh assertion: the challenge of its session waits, and it was signed with the passkey. -/
structure Signed (service : AccountService w) (body : DiscoverLogin) (rawId credential : String) :
    Prop where
  rawId : body.rawId = some rawId
  fresh : ∃ state started, service.discoStates.get? body.session = some (state, started) ∧
    AccountService.checkDiscoverable body.assertion credential state = .ok ()

theorem Signed.finishes (h : Signed service body rawId credential) :
    (service.finishDiscoverable body.session body.assertion credential).1 = .ok () := by
  obtain ⟨state, started, hstate, hcheck⟩ := h.fresh
  unfold AccountService.finishDiscoverable
  rw [hstate]
  exact hcheck

/-- Whoever signs in so gets an identity, in whatever order the vaults are listed. -/
def SignsIn (b64 : Base64) (inner : MemoryInner) (service : AccountService w)
    (body : DiscoverLogin) (user : String) (wrapped : Bytes) : Prop :=
  ∀ vaults, vaults.Perm (inner.vaults.entries.filter fun p => p.2.kind == "passkey") →
    (passkeyDiscoverLogin b64 inner vaults service body).1 = .identity user (b64.encode wrapped)

/-- The user has enrolled a device with that passkey. -/
structure Enrolled (inner : MemoryInner) (user rawId credential : String) (wrapped : Bytes) :
    Prop where
  found : ∃ wrap, inner.passkeyWraps.get? rawId = some wrap ∧ wrap.user = user ∧
    wrap.credential = credential ∧ wrap.wrapped = wrapped

/-- The user has a vault with that passkey, and has not enrolled it as a device as well. -/
structure Primary (w : Webauthn) (b64 : Base64) (inner : MemoryInner)
    (user rawId credential : String) (wrapped credId : Bytes) : Prop where
  notEnrolled : ∀ wrap, inner.passkeyWraps.get? rawId = some wrap → wrap.user ≠ user
  found : ∃ vault, inner.vaults.get? user = some vault ∧ vault.kind = "passkey" ∧
    vault.credential = some credential ∧ vault.wrapped = wrapped
  decodes : b64.decodeUrl rawId = some credId
  bears : bears w credId (some credential) = true

theorem Enrolled.signsIn (h : Enrolled inner user rawId credential wrapped)
    (hsigned : Signed service body rawId credential) :
    SignsIn b64 inner service body user wrapped := by
  obtain ⟨wrap, hwrap, rfl, rfl, rfl⟩ := h.found
  intro vaults _
  unfold passkeyDiscoverLogin
  rw [hsigned.rawId]
  simp only [hwrap, hsigned.finishes]
  rfl

/-- No other account has anything under the id. -/
structure Undisturbed (w : Webauthn) (inner : MemoryInner) (user rawId : String) (credId : Bytes) :
    Prop where
  wraps : inner.passkeyWraps.get? rawId = none
  vaults : ∀ other vault, other ≠ user → inner.vaults.get? other = some vault →
    vault.kind = "passkey" → Account.bears w credId vault.credential = false

/-- What is found under the id is then the vault of the user. -/
theorem Undisturbed.find? (h : Undisturbed w inner user rawId credId)
    (hprimary : Primary w b64 inner user rawId credential wrapped credId)
    {vaults : List (String × VaultRecord)}
    (hlisted : vaults.Perm (inner.vaults.entries.filter fun p => p.2.kind == "passkey")) :
    ∃ vault, (vaults.find? fun p => bears w credId p.2.credential) = some (user, vault) ∧
      vault.credential = some credential ∧ vault.wrapped = wrapped := by
  obtain ⟨vault, hvault, hkind, hcredential, hwrapped⟩ := hprimary.found
  have hmem : (user, vault) ∈ vaults := by
    rw [hlisted.mem_iff, List.mem_filter]
    exact ⟨Dict.mem_entries_iff.mpr hvault, by simpa using hkind⟩
  cases hfind : vaults.find? fun p => bears w credId p.2.credential with
  | none =>
    rw [List.find?_eq_none] at hfind
    exact absurd (hcredential ▸ hprimary.bears) (hfind _ hmem)
  | some p =>
    have hbears : bears w credId p.2.credential = true := by simpa using List.find?_some hfind
    have hp := List.mem_filter.mp (hlisted.mem_iff.mp (List.mem_of_find?_eq_some hfind))
    have hget : inner.vaults.get? p.1 = some p.2 := Dict.mem_entries_iff.mp hp.1
    have huser : p.1 = user := by
      by_contra hne
      rw [h.vaults p.1 p.2 hne hget (by simpa using hp.2)] at hbears
      cases hbears
    have hpair : p = (user, vault) := by
      rw [huser, hvault] at hget
      exact Prod.ext huser (Option.some.inj hget).symm
    exact ⟨vault, by rw [hpair], hcredential, hwrapped⟩

theorem Undisturbed.signsIn (h : Undisturbed w inner user rawId credId)
    (hprimary : Primary w b64 inner user rawId credential wrapped credId)
    (hsigned : Signed service body rawId credential) :
    SignsIn b64 inner service body user wrapped := by
  intro vaults hlisted
  obtain ⟨vault, hfind, hcredential, rfl⟩ := h.find? hprimary hlisted
  unfold passkeyDiscoverLogin
  rw [hsigned.rawId]
  simp only [h.wraps, hprimary.decodes, hfind, hcredential, hsigned.finishes]
  rfl

theorem answerIdentity_ne {other : String} (hne : other ≠ user) (payload wrapped : Bytes)
    (checked : Except String Unit) :
    answerIdentity b64 other payload checked ≠ .identity user (b64.encode wrapped) := by
  cases checked with
  | error e => simp [answerIdentity]
  | ok u => simp [answerIdentity, hne]

/-- With the passkey of a vault the user signs in exactly if no other account is in the way. -/
theorem signsIn_iff_undisturbed
    (hprimary : Primary w b64 inner user rawId credential wrapped credId)
    (hsigned : Signed service body rawId credential) :
    SignsIn b64 inner service body user wrapped ↔ Undisturbed w inner user rawId credId := by
  refine ⟨fun h => ?_, fun h => h.signsIn hprimary hsigned⟩
  have hwraps : inner.passkeyWraps.get? rawId = none := by
    cases hwrap : inner.passkeyWraps.get? rawId with
    | none => rfl
    | some wrap =>
      have hanswer := h _ (List.Perm.refl _)
      unfold passkeyDiscoverLogin at hanswer
      rw [hsigned.rawId] at hanswer
      simp only [hwrap] at hanswer
      exact absurd hanswer (answerIdentity_ne (hprimary.notEnrolled wrap hwrap) _ _ _)
  refine ⟨hwraps, fun other vault hne hvault hkind => ?_⟩
  by_contra hbears
  rw [Bool.not_eq_false] at hbears
  -- the other vault may be the first that is listed
  have hmem : (other, vault) ∈ inner.vaults.entries.filter fun p => p.2.kind == "passkey" :=
    List.mem_filter.mpr ⟨Dict.mem_entries_iff.mpr hvault, by simpa using hkind⟩
  have hanswer := h _ (List.perm_cons_erase hmem).symm
  unfold passkeyDiscoverLogin at hanswer
  rw [hsigned.rawId] at hanswer
  simp only [hwraps, hprimary.decodes, List.find?_cons, hbears] at hanswer
  cases hcredential : vault.credential with
  | none =>
    rw [hcredential] at hbears
    cases hbears
  | some c =>
    simp only [hcredential] at hanswer
    exact absurd hanswer (answerIdentity_ne hne _ _ _)

/-! ### Requests of others -/

/-- A request with its sender and its time. -/
structure Sent where
  user : String
  now : ℕ
  request : Request

def after (b64 : Base64) (inner : MemoryInner) (sent : Sent) : MemoryInner :=
  (handleRequest b64 sent.now sent.user inner sent.request).2

/-- Texts that are accepted as base64. -/
def Decodes (b64 : Base64) (texts : List String) : Prop :=
  ∀ text ∈ texts, (b64.decode text).isSome = true

/-- What a request writes, if anything. -/
inductive Wrote (b64 : Base64) (inner : MemoryInner) (user : String) :
    Request → MemoryInner → Prop
  | nothing (request : Request) : Wrote b64 inner user request inner
  | vault {kind salt verifier wrapped : String} {credential : Option String} {vault : VaultRecord}
      (hdecodes : Decodes b64 [salt, verifier, wrapped]) (hkind : vault.kind = kind)
      (hcredential : vault.credential = credential) :
      Wrote b64 inner user (.vaultSet kind salt verifier wrapped credential)
        { inner with vaults := inner.vaults.set user vault }
  | wrap {credId credential salt wrapped : String} {label : Option String} {wrap : PasskeyWrap}
      (hdecodes : Decodes b64 [salt, wrapped])
      (hfree : ∀ row, inner.passkeyWraps.get? credId = some row → row.user = user)
      (hwrap : wrap.user = user) :
      Wrote b64 inner user (.passkeyWrapAdd credId credential salt wrapped label)
        { inner with passkeyWraps := inner.passkeyWraps.set credId wrap }
  | unwrap {credId : String}
      (hrow : ∃ row, inner.passkeyWraps.get? credId = some row ∧ row.user = user) :
      Wrote b64 inner user (.passkeyWrapDel credId)
        { inner with passkeyWraps := inner.passkeyWraps.delete credId }

theorem wrote (b64 : Base64) (inner : MemoryInner) (sent : Sent) :
    Wrote b64 inner sent.user sent.request (after b64 inner sent) := by
  obtain ⟨user, now, request⟩ := sent
  unfold after
  cases request with
  | vaultSet kind salt verifier wrapped credential =>
    unfold handleRequest
    dsimp only
    split
    · exact .nothing _
    · split
      case h_1 hsalt hverifier hwrapped =>
        exact .vault (by simp [Decodes, hsalt, hverifier, hwrapped]) rfl rfl
      case h_2 => exact .nothing _
  | passkeyWrapAdd credId credential salt wrapped label =>
    unfold handleRequest
    dsimp only
    split
    case h_1 hsalt hwrapped =>
      unfold replyOf MemoryStore.addPasskeyWrap
      split
      · exact .nothing _
      case isFalse hfree =>
        refine .wrap (by simp [Decodes, hsalt, hwrapped]) (fun row hrow => ?_) rfl
        rw [hrow] at hfree
        simpa using hfree
    case h_2 => exact .nothing _
  | passkeyWrapDel credId =>
    unfold handleRequest MemoryStore.deletePasskeyWrap
    dsimp only
    by_cases hall : (inner.passkeyWraps.get? credId).all (·.user != user) = true
    · rw [if_pos hall]
      exact .nothing _
    · rw [if_neg hall]
      refine .unwrap ?_
      cases hrow : inner.passkeyWraps.get? credId with
      | none => rw [hrow] at hall; exact absurd rfl hall
      | some row => exact ⟨row, rfl, by simpa [hrow] using hall⟩

/-- A request by which another account gets in the way of a passkey. -/
def Claims (w : Webauthn) (b64 : Base64) (rawId : String) (credId : Bytes) : Request → Prop
  | .vaultSet kind salt verifier wrapped credential =>
    kind = "passkey" ∧ bears w credId credential = true ∧ Decodes b64 [salt, verifier, wrapped]
  | .passkeyWrapAdd id _ salt wrapped _ => id = rawId ∧ Decodes b64 [salt, wrapped]
  | .passkeyWrapDel _ => False

section

variable {other : String} {request : Request} {next : MemoryInner}

/-- A device that somebody has enrolled stays as it is. -/
theorem Enrolled.of_wrote (h : Enrolled inner user rawId credential wrapped)
    (hwrote : Wrote b64 inner other request next) (hother : other ≠ user) :
    Enrolled next user rawId credential wrapped := by
  obtain ⟨row, hrow, huser, hrest⟩ := h.found
  refine ⟨row, ?_, huser, hrest⟩
  cases hwrote with
  | nothing => exact hrow
  | vault => exact hrow
  | @wrap credId _ _ _ _ _ _ hfree _ =>
    refine (Dict.get?_set_of_ne _ _ ?_).trans hrow
    rintro rfl
    exact hother ((hfree row hrow).symm.trans huser)
  | @unwrap credId hrow' =>
    have hne : credId ≠ rawId := by
      rintro rfl
      obtain ⟨row', hrow', huser'⟩ := hrow'
      rw [hrow] at hrow'
      exact hother (huser'.symm.trans ((congrArg PasskeyWrap.user (Option.some.inj hrow')).symm.trans
        huser))
    exact (Dict.get?_delete _ _ _).trans (by rw [if_neg (by simpa using hne), hrow])

/-- So does a vault, and nobody else enrols a device in the name of its owner. -/
theorem Primary.of_wrote (h : Primary w b64 inner user rawId credential wrapped credId)
    (hwrote : Wrote b64 inner other request next) (hother : other ≠ user) :
    Primary w b64 next user rawId credential wrapped credId := by
  obtain ⟨vault, hvault, hrest⟩ := h.found
  cases hwrote with
  | nothing => exact h
  | vault =>
    exact ⟨h.notEnrolled, ⟨vault, (Dict.get?_set_of_ne _ _ hother).trans hvault, hrest⟩, h.decodes,
      h.bears⟩
  | @wrap _ _ _ _ _ wrap _ _ hwrap =>
    refine ⟨fun row hrow => ?_, ⟨vault, hvault, hrest⟩, h.decodes, h.bears⟩
    rcases Dict.get?_set_cases hrow with ⟨-, rfl⟩ | ⟨-, hrow⟩
    · rw [hwrap]
      exact hother
    · exact h.notEnrolled row hrow
  | unwrap =>
    exact ⟨fun row hrow => h.notEnrolled row (Dict.get?_of_delete hrow), ⟨vault, hvault, hrest⟩,
      h.decodes, h.bears⟩

/-- A request that does not claim the passkey is not in its way. -/
theorem Undisturbed.of_wrote (h : Undisturbed w inner user rawId credId)
    (hwrote : Wrote b64 inner other request next) (hclaims : ¬Claims w b64 rawId credId request) :
    Undisturbed w next user rawId credId := by
  cases hwrote with
  | nothing => exact h
  | @vault kind salt verifier wrapped credential vault hdecodes hkind hcredential =>
    refine ⟨h.wraps, fun name stored hne hget hpasskey => ?_⟩
    rcases Dict.get?_set_cases hget with ⟨-, rfl⟩ | ⟨-, hget⟩
    · by_contra hbears
      rw [Bool.not_eq_false, hcredential] at hbears
      exact hclaims ⟨hkind.symm.trans hpasskey, hbears, hdecodes⟩
    · exact h.vaults name stored hne hget hpasskey
  | @wrap id _ _ _ _ _ hdecodes _ _ =>
    refine ⟨?_, h.vaults⟩
    have hne : id ≠ rawId := fun heq => hclaims ⟨heq, hdecodes⟩
    exact (Dict.get?_set_of_ne _ _ hne).trans h.wraps
  | unwrap =>
    refine ⟨?_, h.vaults⟩
    rw [Dict.get?_delete, h.wraps]
    split <;> rfl

end

/-- A request that claims the passkey is. -/
theorem not_undisturbed_of_claims (h : Undisturbed w inner user rawId credId) {sent : Sent}
    (hother : sent.user ≠ user) (hclaims : Claims w b64 rawId credId sent.request) :
    ¬Undisturbed w (after b64 inner sent) user rawId credId := by
  obtain ⟨other, now, request⟩ := sent
  cases request with
  | vaultSet kind salt verifier wrapped credential =>
    obtain ⟨rfl, hbears, hdecodes⟩ := hclaims
    obtain ⟨salt', hsalt⟩ := Option.isSome_iff_exists.mp (hdecodes salt (by simp))
    obtain ⟨verifier', hverifier⟩ := Option.isSome_iff_exists.mp (hdecodes verifier (by simp))
    obtain ⟨wrapped', hwrapped⟩ := Option.isSome_iff_exists.mp (hdecodes wrapped (by simp))
    intro hundisturbed
    have hget : (after b64 inner ⟨other, now, .vaultSet "passkey" salt verifier wrapped
        credential⟩).vaults.get? other = some ⟨"passkey", salt', verifier', wrapped', credential⟩ := by
      unfold after handleRequest
      simp [hsalt, hverifier, hwrapped, replyOf, MemoryStore.setVault]
    have := hundisturbed.vaults other _ hother hget rfl
    rw [hbears] at this
    cases this
  | passkeyWrapAdd id credential salt wrapped label =>
    obtain ⟨rfl, hdecodes⟩ := hclaims
    obtain ⟨salt', hsalt⟩ := Option.isSome_iff_exists.mp (hdecodes salt (by simp))
    obtain ⟨wrapped', hwrapped⟩ := Option.isSome_iff_exists.mp (hdecodes wrapped (by simp))
    intro hundisturbed
    have hget := hundisturbed.wraps
    unfold after handleRequest at hget
    simp [hsalt, hwrapped, replyOf, MemoryStore.addPasskeyWrap, h.wraps] at hget
  | passkeyWrapDel id => exact hclaims.elim

/-! ### Whole sequences -/

/-- Nobody is in the way after any part of the requests of others, if and only if nobody is at first
and no request claims the passkey. -/
theorem undisturbed_along_iff (requests : List Sent) (hothers : ∀ q ∈ requests, q.user ≠ user)
    (inner : MemoryInner) :
    (∀ done rest, requests = done ++ rest →
      Undisturbed w (done.foldl (after b64) inner) user rawId credId) ↔
    Undisturbed w inner user rawId credId ∧ ∀ q ∈ requests, ¬Claims w b64 rawId credId q.request := by
  induction requests generalizing inner with
  | nil =>
    constructor
    · intro h
      exact ⟨h [] [] rfl, by simp⟩
    · rintro ⟨h, -⟩ done rest hsplit
      obtain ⟨rfl, -⟩ := List.append_eq_nil_iff.mp hsplit.symm
      exact h
  | cons q requests ih =>
    rw [List.forall_mem_cons] at hothers
    have hparts : (∀ done rest, q :: requests = done ++ rest →
        Undisturbed w (done.foldl (after b64) inner) user rawId credId) ↔
        Undisturbed w inner user rawId credId ∧ ∀ done rest, requests = done ++ rest →
          Undisturbed w (done.foldl (after b64) (after b64 inner q)) user rawId credId := by
      constructor
      · intro h
        exact ⟨h [] _ rfl, fun done rest hsplit => h (q :: done) rest (by rw [hsplit]; rfl)⟩
      · rintro ⟨hnow, hlater⟩ done rest hsplit
        cases done with
        | nil => exact hnow
        | cons q' done =>
          obtain ⟨rfl, htail⟩ := List.cons.inj hsplit
          exact hlater done rest htail
    rw [hparts, ih hothers.2, List.forall_mem_cons]
    constructor
    · rintro ⟨hnow, hnext, hlater⟩
      exact ⟨hnow, fun hclaims => not_undisturbed_of_claims hnow hothers.1 hclaims hnext, hlater⟩
    · rintro ⟨hnow, hclaims, hlater⟩
      exact ⟨hnow, hnow.of_wrote (wrote b64 inner q) hclaims, hlater⟩

theorem mem_of_append {α : Type} {l done rest : List α} {p : α → Prop} (h : ∀ a ∈ l, p a)
    (hsplit : l = done ++ rest) : ∀ a ∈ done, p a :=
  fun a ha => h a (hsplit ▸ List.mem_append_left _ ha)

theorem Enrolled.run (h : Enrolled inner user rawId credential wrapped) {requests : List Sent}
    (hothers : ∀ q ∈ requests, q.user ≠ user) :
    Enrolled (requests.foldl (after b64) inner) user rawId credential wrapped := by
  have halong : Along (after b64) (fun _ q => q.user ≠ user) inner requests :=
    along_of_forall (fun q hq _ => hothers q hq) inner
  exact halong.preserves (P := fun inner => Enrolled inner user rawId credential wrapped)
    (fun inner q h hother => h.of_wrote (wrote b64 inner q) hother) h

theorem Primary.run (h : Primary w b64 inner user rawId credential wrapped credId)
    {requests : List Sent} (hothers : ∀ q ∈ requests, q.user ≠ user) :
    Primary w b64 (requests.foldl (after b64) inner) user rawId credential wrapped credId := by
  have halong : Along (after b64) (fun _ q => q.user ≠ user) inner requests :=
    along_of_forall (fun q hq _ => hothers q hq) inner
  exact halong.preserves
    (P := fun inner => Primary w b64 inner user rawId credential wrapped credId)
    (fun inner q h hother => h.of_wrote (wrote b64 inner q) hother) h

/-- A user who signs in with a passkey gets their own identity, after any part of the requests that
others send, if and only if they have enrolled the passkey as a device, or no other account has
anything under its id and none of the requests claims it. -/
theorem signs_in_iff
    (hholds : Enrolled inner user rawId credential wrapped ∨
      Primary w b64 inner user rawId credential wrapped credId)
    (hsigned : Signed service body rawId credential) (requests : List Sent)
    (hothers : ∀ q ∈ requests, q.user ≠ user) :
    (∀ done rest, requests = done ++ rest →
      SignsIn b64 (done.foldl (after b64) inner) service body user wrapped) ↔
    (∃ wrap, inner.passkeyWraps.get? rawId = some wrap ∧ wrap.user = user) ∨
      Undisturbed w inner user rawId credId ∧
        ∀ q ∈ requests, ¬Claims w b64 rawId credId q.request := by
  obtain henrolled | hprimary := hholds
  · obtain ⟨wrap, hwrap, huser, -⟩ := henrolled.found
    refine iff_of_true (fun done rest hsplit => ?_) (.inl ⟨wrap, hwrap, huser⟩)
    exact (henrolled.run (mem_of_append hothers hsplit)).signsIn hsigned
  · have hnot : ¬∃ wrap, inner.passkeyWraps.get? rawId = some wrap ∧ wrap.user = user :=
      fun ⟨wrap, hwrap, huser⟩ => hprimary.notEnrolled wrap hwrap huser
    rw [or_iff_right hnot, ← undisturbed_along_iff requests hothers inner]
    refine forall_congr' fun done => forall_congr' fun rest => forall_congr' fun hsplit => ?_
    exact signsIn_iff_undisturbed (hprimary.run (mem_of_append hothers hsplit)) hsigned

/-! ### A device in the name of somebody else -/

/-- The challenge `c` waits. -/
def waiting : AccountService repeating :=
  ⟨Expiring.Table.start STATE_TTL 0 "s" "c" .empty⟩

/-- It is answered with the passkey. -/
def signedBody : DiscoverLogin := ⟨"s", "ck", some "k"⟩

theorem primary_alice : Primary repeating latin aliceStored "alice" "k" "k" [1] [107] where
  notEnrolled wrap hwrap := by cases hwrap
  found := ⟨aliceVault, rfl, rfl, rfl, rfl⟩
  decodes := by decide
  bears := by decide

theorem signed_alice : Signed waiting signedBody "k" "k" where
  rawId := rfl
  fresh := ⟨"c", 0, rfl, by decide⟩

theorem signs_in_alice : Primary repeating latin aliceStored "alice" "k" "k" [1] [107] ∧
    Signed waiting signedBody "k" "k" ∧
    SignsIn latin (after latin aliceStored ⟨"mallory", 7, .passkeyWrapDel "k"⟩) waiting signedBody
      "alice" [1] := by
  have hundisturbed : Undisturbed repeating aliceStored "alice" "k" [107] := by
    refine ⟨rfl, fun other vault hne hvault _ => ?_⟩
    rw [aliceStored, Dict.get?_set_of_ne _ _ hne.symm] at hvault
    cases hvault
  have hiff := signs_in_iff (.inr primary_alice) signed_alice
    [⟨"mallory", 7, .passkeyWrapDel "k"⟩] (by simp)
  refine ⟨primary_alice, signed_alice, ?_⟩
  exact hiff.mpr (.inr ⟨hundisturbed, by simp [Claims]⟩) [_] [] rfl

/-- Somebody else enrols a device under the id, or sets a vault with it, and alice does not sign in
any more. -/
theorem mallory_interferes :
    (passkeyDiscoverLogin latin aliceStored aliceStored.vaults.entries waiting signedBody).1 =
      .identity "alice" (latin.encode [1]) ∧
    (passkeyDiscoverLogin latin
      (after latin aliceStored ⟨"mallory", 7, .passkeyWrapAdd "k" "mine" "" "" none⟩)
      aliceStored.vaults.entries waiting signedBody).1 = .err .forbidden "bad signature" ∧
    (passkeyDiscoverLogin latin
      (after latin aliceStored ⟨"mallory", 7, .vaultSet "passkey" "" "" "x" (some "k")⟩)
      (after latin aliceStored
        ⟨"mallory", 7, .vaultSet "passkey" "" "" "x" (some "k")⟩).vaults.entries.reverse
      waiting signedBody).1 = .identity "mallory" "x" := by
  decide +kernel

end Quorum.Account
