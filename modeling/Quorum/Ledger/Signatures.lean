import Quorum.Ledger.Voices

/-!
# Signatures belong to the person they admit

A signature on the ledger should mean that its signer backed the very handle the proposal names.
That holds as long as nobody proposes a standing id again under another handle
(`signers_backed_handle`).  A re-proposal keeps the signatures already on the id and replaces the
handle beneath them, so whoever re-proposes turns the circle's signatures to a person it never saw
(`signatures_carried_over`).
-/

namespace Quorum

open Js

/-! ### Backing a handle -/

/-- An envelope by `who`, applied to a record, signs the proposal `id` while it names `handle`, or
proposes it for that handle. -/
def Backs (record : Record) (e : Delivery) (who id handle : Str) : Prop :=
  e.sender = who ∧ Kind.ofContent e.content = some .quorum ∧
    (isOp (e.content.get (lit "op")) "sign" = true ∧ e.content.get (lit "id") = .str id ∧
        (∃ p ∈ record.ledger.list, p.id = id ∧ p.handle = handle) ∨
      isOp (e.content.get (lit "op")) "propose" = true ∧
        ∃ p, (e.envelope record.id).proposal = .ok (some p) ∧ p.id = id ∧ p.handle = handle)

/-- Some envelope of a run backs a handle. -/
def BackedIn (record : Record) (envelopes : List Delivery) (who id handle : Str) : Prop :=
  ∃ before e after, envelopes = before ++ e :: after ∧
    Backs (runEnvelopes record before) e who id handle

/-- An envelope proposes a standing id for another handle. -/
def Retargets (record : Record) (e : Delivery) : Prop :=
  Kind.ofContent e.content = some .quorum ∧
    isOp (e.content.get (lit "op")) "propose" = true ∧
    ∃ p, (e.envelope record.id).proposal = .ok (some p) ∧
      ∃ prior ∈ record.ledger.list, prior.id = p.id ∧ prior.handle ≠ p.handle

variable {record : Record} {envelopes : List Delivery} {e : Delivery} {who id handle : Str}

theorem BackedIn.append (h : BackedIn record envelopes who id handle) (e : Delivery) :
    BackedIn record (envelopes ++ [e]) who id handle := by
  obtain ⟨before, e', after, rfl, hb⟩ := h
  exact ⟨before, e', after ++ [e], by simp, hb⟩

theorem BackedIn.last (h : Backs (runEnvelopes record envelopes) e who id handle) :
    BackedIn record (envelopes ++ [e]) who id handle := ⟨envelopes, e, [], rfl, h⟩

theorem runEnvelopes_append (record : Record) (envelopes : List Delivery) (e : Delivery) :
    runEnvelopes record (envelopes ++ [e]) = e.apply (runEnvelopes record envelopes) := by
  rw [runEnvelopes, List.foldl_append]
  rfl

/-! ### One envelope -/

/-- Every signer of every proposal backed the handle it names. -/
def AllBacked (record : Record) (envelopes : List Delivery) (list : List Proposal) : Prop :=
  ∀ p ∈ list, ∀ w ∈ p.signers, BackedIn record envelopes w p.id p.handle

/-- The signers of a proposal over an earlier one: those of the earlier one, or the proposer. -/
theorem signers_over {proposal : Proposal} {prior : Option Proposal} {w : Str}
    (h : w ∈ (proposal.over prior).signers) :
    (∃ q, prior = some q ∧ w ∈ q.signers) ∨ prior = none ∧ w ∈ proposal.signers := by
  cases prior with
  | none => exact .inr ⟨rfl, h⟩
  | some q => exact .inl ⟨q, rfl, h⟩

/-- A quorum envelope that retargets nothing keeps every signer a backer. -/
theorem allBacked_applyQuorum (hkind : Kind.ofContent e.content = some .quorum)
    (hkeep : ¬ Retargets (runEnvelopes record envelopes) e)
    (h : AllBacked record envelopes (runEnvelopes record envelopes).ledger.list) :
    AllBacked record (envelopes ++ [e]) ((e.envelope (runEnvelopes record envelopes).id).applyQuorum
      (runEnvelopes record envelopes).ledger).state.list := by
  set r := runEnvelopes record envelopes with hr
  have hold : ∀ p ∈ r.ledger.list, ∀ w ∈ p.signers,
      BackedIn record (envelopes ++ [e]) w p.id p.handle :=
    fun p hp w hw => (h p hp w hw).append e
  intro q hq w hw
  rcases applyQuorum_cases (e.envelope r.id) r.ledger with
    heq | ⟨hop, proposal, hp, heq⟩ | ⟨hop, heq⟩ | ⟨list, hlist, heq⟩ | ⟨f, heq⟩ <;> rw [heq] at hq
  · exact hold q hq w hw
  · -- proposed, anew or over a proposal of the same id
    rcases mem_upsertProposal hq with rfl | hq
    · obtain ⟨hid, hhandle⟩ := proposal.over_id (r.ledger.list.find? (·.id == proposal.id))
      rw [hid, hhandle]
      rcases signers_over hw with ⟨prior, hprior, hw⟩ | ⟨-, hw⟩
      · -- The signatures stay, and so does the handle beneath them.
        have hmem := List.mem_of_find?_eq_some hprior
        have hsame : prior.id = proposal.id := by simpa using List.find?_some hprior
        have hhandle : prior.handle = proposal.handle := by
          by_contra hne
          exact hkeep ⟨hkind, hop, proposal, hp, prior, hmem, hsame, hne⟩
        rw [← hsame, ← hhandle]
        exact hold prior hmem w hw
      · obtain ⟨hby, hsigners, -⟩ := normalizeProposal_voices hp
        rw [hsigners, List.mem_singleton] at hw
        have hsender : e.sender = w := hw ▸ Except.ok.inj hby
        exact BackedIn.last ⟨hsender, hkind, .inr ⟨hop, proposal, hp, rfl, rfl⟩⟩
    · exact hold q hq w hw
  · -- signed: the sender backs the proposal that stands there
    rcases mem_applySignature hq with hq | ⟨p, hp, hid, rfl⟩
    · exact hold q hq w hw
    · obtain ⟨hsid, hshandle⟩ := p.sign_id e.sender e.ctx.clock
      change BackedIn record _ w (p.sign e.sender e.ctx.clock).id
        (p.sign e.sender e.ctx.clock).handle
      rw [hsid, hshandle]
      rcases p.sign_cases e.sender e.ctx.clock with hsame | ⟨-, hsigners, -⟩
      · exact hold p hp w (hsame ▸ hw)
      · change w ∈ (p.sign e.sender e.ctx.clock).signers at hw
        rw [hsigners, List.mem_append, List.mem_singleton] at hw
        rcases hw with hw | hw
        · exact hold p hp w hw
        · exact BackedIn.last ⟨hw.symm, hkind, .inl ⟨hop, hid, p, hp, rfl, rfl⟩⟩
  · -- an objection takes a signature away at most
    rcases mem_applyObjection hlist hq with hq | ⟨p, hp, reason, rfl⟩
    · exact hold q hq w hw
    · obtain ⟨hoid, hohandle⟩ := p.object_id e.sender reason e.ctx.clock
      change BackedIn record _ w (p.object e.sender reason e.ctx.clock).id
        (p.object e.sender reason e.ctx.clock).handle
      rw [hoid, hohandle]
      rcases p.object_cases e.sender reason e.ctx.clock with hsame | ⟨hsigners, -⟩
      · exact hold p hp w (hsame ▸ hw)
      · change w ∈ (p.object e.sender reason e.ctx.clock).signers at hw
        rw [hsigners] at hw
        exact hold p hp w (List.mem_of_mem_filter hw)
  · exact hold q (List.mem_of_mem_filter hq) w hw

/-! ### Runs -/

/-- The proposals after an envelope that is no rebroadcast: as before, or after a voice. -/
theorem list_apply_of_not_meta (record : Record)
    (hmeta : Kind.ofContent e.content ≠ some .meta_) :
    (e.apply record).ledger.list = record.ledger.list ∨
      Kind.ofContent e.content = some .quorum ∧ (e.apply record).ledger.list =
        ((e.envelope record.id).applyQuorum record.ledger).state.list := by
  rcases e.apply_cases record with heq | ⟨kind, hkind, -, heq⟩
  · exact .inl (by rw [heq])
  · by_cases hq : kind = .quorum
    · subst hq
      exact .inr ⟨hkind, by rw [heq]; rfl⟩
    · refine .inl ?_
      rw [heq]
      by_cases ht : kind = .threshold
      · subst ht
        exact list_applyThreshold ..
      · rw [ledger_applyKind _ hq ht fun hm => hmeta (hm ▸ hkind)]

theorem allBacked_run (hempty : record.ledger.list = [])
    (hmeta : ∀ e ∈ envelopes, Kind.ofContent e.content ≠ some .meta_)
    (hkeep : ∀ before e after, envelopes = before ++ e :: after →
      ¬ Retargets (runEnvelopes record before) e) :
    AllBacked record envelopes (runEnvelopes record envelopes).ledger.list := by
  induction envelopes using List.reverseRecOn with
  | nil =>
    intro p hp
    rw [runEnvelopes, List.foldl_nil, hempty] at hp
    cases hp
  | append_singleton envelopes e ih =>
    have ih := ih (fun e' he' => hmeta e' (List.mem_append_left _ he')) fun before e' after h =>
      hkeep before e' (after ++ [e]) (by rw [h]; simp)
    rw [runEnvelopes_append]
    rcases list_apply_of_not_meta (runEnvelopes record envelopes)
      (hmeta e (List.mem_append_right _ (List.mem_singleton.mpr rfl))) with heq | ⟨hkind, heq⟩
    · rw [heq]
      exact fun p hp w hw => (ih p hp w hw).append e
    · rw [heq]
      exact allBacked_applyQuorum hkind (hkeep envelopes e [] rfl) ih

/-- **Signatures belong to the person they admit**, where no standing id is proposed again for
another handle: whoever is listed on a proposal backed the handle it names, and a proposal that
carries was backed by as many members as the threshold asks for. -/
theorem signers_backed_handle (record : Record) (hempty : record.ledger.list = [])
    (envelopes : List Delivery)
    (hmeta : ∀ e ∈ envelopes, Kind.ofContent e.content ≠ some .meta_)
    (hkeep : ∀ before e after, envelopes = before ++ e :: after →
      ¬ Retargets (runEnvelopes record before) e) :
    ∀ p ∈ (runEnvelopes record envelopes).ledger.list,
      (∀ w ∈ p.signers, BackedIn record envelopes w p.id p.handle) ∧
      ∀ threshold members, isCarried p threshold members = true →
        ∃ backers : Finset Str, max 1 threshold ≤ backers.card ∧
          ∀ w ∈ backers, w ∈ members ∧ BackedIn record envelopes w p.id p.handle := by
  intro p hp
  have hbacked := allBacked_run hempty hmeta hkeep p hp
  refine ⟨hbacked, fun threshold members hcarried => ?_⟩
  have hfair : ∀ e ∈ envelopes, e.Fair := fun e he h => absurd h (hmeta e he)
  have hvoices : ∀ p ∈ record.ledger.list, OneVoice p := by simp [hempty]
  have hone := keepsVoices_run hfair record hvoices p hp
  refine ⟨p.signers.toFinset ∩ members.toFinset, ?_, fun w hw => ?_⟩
  · rw [← hone.length_standing]
    exact of_decide_eq_true hcarried
  · rw [Finset.mem_inter, List.mem_toFinset, List.mem_toFinset] at hw
    exact ⟨hw.2, hbacked w hw.1⟩

/-! ### A re-proposal -/

/-- Somebody put forward under the id `p1`. -/
def propose (sender handle : String) : Delivery :=
  voice sender "propose"
    [(lit "p", .obj 2 [(lit "id", .str (lit "p1")), (lit "handle", .str (lit handle))])]

/-- A signature under the id `p1`. -/
def sign (sender : String) : Delivery := voice sender "sign" [(lit "id", .str (lit "p1"))]

/-- Alice signs for bob, and mallory proposes the id again for eve. -/
def retargeted : List Delivery := [propose "mallory" "bob", sign "alice", propose "mallory" "eve"]

/-- Eve carries on a signature that alice gave for bob. -/
theorem signatures_carried_over :
    (∃ p ∈ (runEnvelopes emptyCircle retargeted).ledger.list, p.id = lit "p1" ∧
      p.handle = lit "eve" ∧ lit "alice" ∈ p.signers ∧
      isCarried p 2 [lit "alice", lit "mallory"] = true) ∧
    ¬ BackedIn emptyCircle retargeted (lit "alice") (lit "p1") (lit "eve") := by
  refine ⟨by decide +kernel, ?_⟩
  rintro ⟨before, e, after, heq, hsender, -, hback⟩
  -- Only the second envelope is alice's, and then the proposal named bob.
  rcases before with _ | ⟨b, _ | ⟨b', _ | ⟨b'', before⟩⟩⟩
  · obtain ⟨rfl, -⟩ := List.cons.inj heq
    exact absurd hsender (by decide +kernel)
  · obtain ⟨rfl, htail⟩ := List.cons.inj heq
    obtain ⟨rfl, -⟩ := List.cons.inj htail
    rcases hback with ⟨-, -, hback⟩ | ⟨hop, -⟩
    · exact absurd hback (by decide +kernel)
    · exact absurd hop (by decide +kernel)
  · obtain ⟨-, htail⟩ := List.cons.inj heq
    obtain ⟨-, htail⟩ := List.cons.inj htail
    obtain ⟨rfl, -⟩ := List.cons.inj htail
    exact absurd hsender (by decide +kernel)
  · obtain ⟨-, htail⟩ := List.cons.inj heq
    obtain ⟨-, htail⟩ := List.cons.inj htail
    obtain ⟨-, htail⟩ := List.cons.inj htail
    simp at htail

/-- A proposal and a signature for it belong together. -/
theorem signed_for_bob :
    (∃ p ∈ (runEnvelopes emptyCircle [propose "mallory" "bob", sign "alice"]).ledger.list,
      p.handle = lit "bob" ∧ lit "alice" ∈ p.signers) ∧
    ∀ p ∈ (runEnvelopes emptyCircle [propose "mallory" "bob", sign "alice"]).ledger.list,
      (∀ w ∈ p.signers,
        BackedIn emptyCircle [propose "mallory" "bob", sign "alice"] w p.id p.handle) ∧
      ∀ threshold members, isCarried p threshold members = true →
        ∃ backers : Finset Str, max 1 threshold ≤ backers.card ∧ ∀ w ∈ backers, w ∈ members ∧
          BackedIn emptyCircle [propose "mallory" "bob", sign "alice"] w p.id p.handle := by
  have hempty : emptyCircle.ledger.list = [] := rfl
  refine ⟨by decide +kernel,
    signers_backed_handle emptyCircle hempty _ (by decide +kernel) ?_⟩
  rintro (_ | ⟨b, _ | ⟨b', before⟩⟩) e after heq ⟨-, hop, p, -, prior, hprior, -⟩
  · rw [runEnvelopes, List.foldl_nil, hempty] at hprior
    cases hprior
  · obtain ⟨-, heq⟩ := List.cons.inj heq
    obtain ⟨rfl, -⟩ := List.cons.inj heq
    exact absurd hop (by decide +kernel)
  · obtain ⟨-, heq⟩ := List.cons.inj heq
    obtain ⟨-, heq⟩ := List.cons.inj heq
    simp at heq

end Quorum
