import Quorum.Envelope.Frame
import Quorum.Js.Except

/-!
# One voice per member

On a proposal where no name signs twice, objects twice, or does both (`OneVoice`), the count that
is compared with the threshold is the number of distinct members who signed.  Signing, objecting,
proposing and withdrawing all keep that.  A ledger off the wire need not have it: the listed voices
are cleaned one by one and never compared, and the proposer's signature is added even where the
proposer is listed as an objector.  Rebroadcasts whose listed names are distinct and apart
(`FairProposal`) keep it too, so along runs of such envelopes every state has it
(`oneVoice_of_fair`).
-/

namespace Quorum

open Js

/-! ### Lists of a board -/

variable {α : Type} {p : Proposal} {platform : Platform} {now : Number} {q : Proposal}
  {base : Number}

theorem mem_of_mem_newest {time : α → Number} {l : List α} {n : ℕ} {x : α}
    (h : x ∈ (newestFirst time l).take n) : x ∈ l :=
  (List.mem_insertionSort _).mp (List.mem_of_mem_take h)

/-! ### Voices on a proposal -/

def Proposal.signers (p : Proposal) : List Str := p.signatures.map Signature.who

def Proposal.objectors (p : Proposal) : List Str := p.objections.map Objection.who

/-- Every name has one voice. -/
structure OneVoice (p : Proposal) : Prop where
  signers : p.signers.Nodup
  objectors : p.objectors.Nodup
  apart : ∀ w ∈ p.signers, w ∉ p.objectors

/-- Signing is a new signature, which takes the signer's objection back, or nothing. -/
theorem Proposal.sign_cases (p : Proposal) (who : Str) (at_ : Number) :
    p.sign who at_ = p ∨ who ∉ p.signers ∧ (p.sign who at_).signers = p.signers ++ [who] ∧
      (p.sign who at_).objectors = p.objectors.filter (· ≠ who) := by
  unfold Proposal.sign
  split
  · exact .inl rfl
  next hnew =>
    split
    · exact .inl rfl
    · refine .inr ⟨by simpa [signers] using hnew, ?_, ?_⟩
      · exact List.map_append
      · rw [Proposal.objectors, Proposal.objectors, List.filter_map]
        rfl

/-- Objecting takes the place of an earlier objection and of a signature, or is nothing. -/
theorem Proposal.object_cases (p : Proposal) (who reason : Str) (at_ : Number) :
    p.object who reason at_ = p ∨
      (p.object who reason at_).signers = p.signers.filter (· ≠ who) ∧
      (p.object who reason at_).objectors = p.objectors.filter (· ≠ who) ++ [who] := by
  unfold Proposal.object
  split
  · exact .inl rfl
  · refine .inr ⟨?_, List.map_append.trans ?_⟩
    · rw [Proposal.signers, Proposal.signers, List.filter_map]
      rfl
    · rw [Proposal.objectors, List.filter_map]
      rfl

theorem Proposal.sign_id (p : Proposal) (who : Str) (at_ : Number) :
    (p.sign who at_).id = p.id ∧ (p.sign who at_).handle = p.handle := by
  unfold Proposal.sign
  split_ifs <;> exact ⟨rfl, rfl⟩

theorem Proposal.object_id (p : Proposal) (who reason : Str) (at_ : Number) :
    (p.object who reason at_).id = p.id ∧ (p.object who reason at_).handle = p.handle := by
  unfold Proposal.object
  split_ifs <;> exact ⟨rfl, rfl⟩

theorem Proposal.over_id (p : Proposal) (prior : Option Proposal) :
    (p.over prior).id = p.id ∧ (p.over prior).handle = p.handle := by
  cases prior <;> exact ⟨rfl, rfl⟩

theorem OneVoice.sign (h : OneVoice p) (who : Str) (at_ : Number) :
    OneVoice (p.sign who at_) := by
  rcases p.sign_cases who at_ with heq | ⟨hnew, hsign, hobj⟩
  · rw [heq]
    exact h
  · constructor
    · rw [hsign]
      exact List.nodup_append.mpr ⟨h.signers, List.nodup_singleton _, fun a ha b hb hab =>
        hnew (List.mem_singleton.mp hb ▸ hab ▸ ha)⟩
    · rw [hobj]
      exact h.objectors.filter _
    · intro w hw
      rw [hsign, List.mem_append, List.mem_singleton] at hw
      rw [hobj, List.mem_filter, decide_eq_true_eq]
      rintro ⟨hin, hne⟩
      exact hw.elim (fun hw => h.apart w hw hin) hne

theorem OneVoice.object (h : OneVoice p) (who reason : Str) (at_ : Number) :
    OneVoice (p.object who reason at_) := by
  rcases p.object_cases who reason at_ with heq | ⟨hsign, hobj⟩
  · rw [heq]
    exact h
  · constructor
    · rw [hsign]
      exact h.signers.filter _
    · rw [hobj]
      refine List.nodup_append.mpr ⟨h.objectors.filter _, List.nodup_singleton _, ?_⟩
      rintro a ha b hb rfl
      rw [List.mem_filter, decide_eq_true_eq] at ha
      exact ha.2 (List.mem_singleton.mp hb)
    · intro w hw
      rw [hsign, List.mem_filter, decide_eq_true_eq] at hw
      rw [hobj, List.mem_append, List.mem_filter, List.mem_singleton]
      rintro (⟨hin, -⟩ | heq)
      · exact h.apart w hw.1 hin
      · exact hw.2 heq

/-- What a normalized proposal says: it is signed by its proposer alone. -/
theorem normalizeProposal_voices {p by_ : Value}
    {proposal : Proposal} (h : normalizeProposal platform p by_ now = .ok (some proposal)) :
    by_.toStr = .ok proposal.by_ ∧ proposal.signers = [proposal.by_] ∧
      proposal.objectors = [] := by
  unfold normalizeProposal at h
  split at h
  · cases h
  obtain ⟨id, -, h⟩ := bind_eq_ok.mp h
  obtain ⟨handle, -, h⟩ := bind_eq_ok.mp h
  obtain ⟨why, -, h⟩ := bind_eq_ok.mp h
  obtain ⟨at_, -, h⟩ := bind_eq_ok.mp h
  split at h
  · cases h
  obtain ⟨name, hname, h⟩ := bind_eq_ok.mp h
  cases h
  exact ⟨hname, rfl, rfl⟩

theorem OneVoice.of_proposed (hs : p.signers = [p.by_]) (ho : p.objectors = []) :
    OneVoice p := by
  constructor
  · rw [hs]
    exact List.nodup_singleton _
  · rw [ho]
    exact List.nodup_nil
  · intro w _
    rw [ho]
    exact List.not_mem_nil

/-- Proposing an id again keeps the voices on it. -/
theorem OneVoice.over (h : OneVoice p) {prior : Option Proposal}
    (hprior : ∀ q, prior = some q → OneVoice q) : OneVoice (p.over prior) := by
  cases prior with
  | none => exact h
  | some q =>
    obtain ⟨hs, ho, ha⟩ := hprior q rfl
    exact ⟨hs, ho, ha⟩

/-! ### What a quorum envelope does -/

def Ledger.list (ledger : Ledger) : List Proposal := ledger.proposals.getD []

/-- The proposal that a `propose` envelope puts forward. -/
def Envelope.proposal (env : Envelope) : Except Error (Option Proposal) :=
  normalizeProposal env.ctx.platform (env.field "p") (.str env.sender) env.ctx.clock

/-- **What a quorum envelope can do to the ledger.** -/
theorem applyQuorum_cases (env : Envelope) (ledger : Ledger) :
    (env.applyQuorum ledger).state.list = ledger.list ∨
    (isOp (env.field "op") "propose" = true ∧ ∃ proposal, env.proposal = .ok (some proposal) ∧
      (env.applyQuorum ledger).state.list = upsertProposal ledger.list proposal) ∨
    (isOp (env.field "op") "sign" = true ∧ (env.applyQuorum ledger).state.list =
      applySignature ledger.list (env.field "id") env.sender env.ctx.clock) ∨
    (∃ list, applyObjection ledger.list (env.field "id") env.sender (env.field "why")
      env.ctx.clock = .ok list ∧ (env.applyQuorum ledger).state.list = list) ∨
    ∃ f, (env.applyQuorum ledger).state.list = ledger.list.filter f := by
  unfold Envelope.applyQuorum
  rw [Act.state_read_bind]
  dsimp only
  split_ifs with hpropose hsign hobject hwithdraw
  · cases hp : env.proposal with
    | error e =>
      rw [Envelope.proposal] at hp
      rw [hp]
      exact .inl rfl
    | ok o =>
      rw [Envelope.proposal] at hp
      rw [hp]
      cases o with
      | none => exact .inl rfl
      | some proposal => exact .inr (.inl ⟨hpropose, proposal, rfl, rfl⟩)
  · exact .inr (.inr (.inl ⟨hsign, rfl⟩))
  · change _ ∨ _ ∨ _ ∨ (∃ list, applyObjection (ledger.proposals.getD []) _ _ _ _ = _ ∧ _) ∨ _
    cases ho : applyObjection (ledger.proposals.getD []) (env.field "id") env.sender
      (env.field "why") env.ctx.clock with
    | error e => exact .inl rfl
    | ok list => exact .inr (.inr (.inr (.inl ⟨list, rfl, rfl⟩)))
  · cases (ledger.proposals.getD []).find? fun p => (Value.str p.id).strictEq (env.field "id") with
    | none => exact .inl rfl
    | some target =>
      cases hw : canWithdraw target env.sender env.ctx.admin with
      | false =>
        dsimp only
        rw [if_neg (by rw [hw]; decide)]
        exact .inl rfl
      | true =>
        dsimp only
        rw [if_pos hw]
        exact .inr (.inr (.inr (.inr ⟨_, rfl⟩)))
  · exact .inl rfl

/-! ### Ledgers where every name has one voice -/

theorem mem_upsertProposal {list : List Proposal} {proposal q : Proposal}
    (h : q ∈ upsertProposal list proposal) :
    q = proposal.over (list.find? (·.id == proposal.id)) ∨ q ∈ list :=
  (List.mem_cons.mp (mem_of_mem_newest h)).imp id List.mem_of_mem_filter

theorem mem_applySignature {list : List Proposal} {id : Value} {who : Str} {at_ : Number}
    (h : q ∈ applySignature list id who at_) :
    q ∈ list ∨ ∃ p ∈ list, id = .str p.id ∧ q = p.sign who at_ := by
  obtain ⟨p, hp, rfl⟩ := List.mem_map.mp h
  split
  next hid => exact .inr ⟨p, hp, Value.str_strictEq.mp hid, rfl⟩
  next => exact .inl hp

/-- An objection with a reason is recorded on what is under the id. -/
theorem applyObjection_eq (list : List Proposal) (id why : Value) (who : Str) (at_ : Number) :
    applyObjection list id who why at_ = why.text.map fun s =>
      if trim (slice s WHY_MAX) = [] then list
      else list.map fun p =>
        if (Value.str p.id).strictEq id then p.object who (trim (slice s WHY_MAX)) at_ else p := by
  unfold applyObjection
  cases why.text with
  | error e => rfl
  | ok s =>
    change (if trim (slice s WHY_MAX) = [] then _ else _) = Except.ok (if _ then _ else _)
    split <;> rfl

theorem mem_applyObjection {list list' : List Proposal} {id why : Value} {who : Str} {at_ : Number}
    (h : applyObjection list id who why at_ = .ok list') (hq : q ∈ list') :
    q ∈ list ∨ ∃ p ∈ list, ∃ reason, q = p.object who reason at_ := by
  obtain ⟨reason, -, h⟩ := bind_eq_ok.mp h
  dsimp only at h
  split at h
  · cases h
    exact .inl hq
  · cases h
    obtain ⟨p, hp, rfl⟩ := List.mem_map.mp hq
    split
    · exact .inr ⟨p, hp, _, rfl⟩
    · exact .inl hp

/-- A quorum envelope keeps every name to one voice, whatever it says. -/
theorem oneVoice_applyQuorum (env : Envelope) {ledger : Ledger}
    (h : ∀ p ∈ ledger.list, OneVoice p) :
    ∀ p ∈ (env.applyQuorum ledger).state.list, OneVoice p := by
  intro q hq
  rcases applyQuorum_cases env ledger with
    heq | ⟨-, proposal, hp, heq⟩ | ⟨-, heq⟩ | ⟨list, hlist, heq⟩ | ⟨f, heq⟩ <;> rw [heq] at hq
  · exact h q hq
  · obtain ⟨-, hs, ho⟩ := normalizeProposal_voices hp
    rcases mem_upsertProposal hq with rfl | hq
    · exact (OneVoice.of_proposed hs ho).over fun p hp => h p (List.mem_of_find?_eq_some hp)
    · exact h q hq
  · rcases mem_applySignature hq with hq | ⟨p, hp, -, rfl⟩
    · exact h q hq
    · exact (h p hp).sign _ _
  · rcases mem_applyObjection hlist hq with hq | ⟨p, hp, reason, rfl⟩
    · exact h q hq
    · exact (h p hp).object _ _ _
  · exact h q (List.mem_of_mem_filter hq)

/-! ### Ledgers off the wire -/

/-- The name under which a listed voice counts, if it has one. -/
def voiceName (v : Value) : Option Str :=
  match (v.get (lit "who")).text with
  | .ok who => unlessEmpty who
  | .error _ => none

/-- The name of a listed objector, who must give a reason. -/
def objectorName (v : Value) : Option Str :=
  match (v.get (lit "why")).text with
  | .ok why => if trim (slice why WHY_MAX) = [] then none else voiceName v
  | .error _ => none

/-- The names a payload lists as signers of a proposal. -/
def namedSigners (p : Value) : List Str :=
  ((arrayOrEmpty (p.get (lit "signatures"))).filterMap voiceName).take VOICES_MAX

/-- The names a payload lists as objectors to a proposal. -/
def namedObjectors (p : Value) : List Str :=
  ((arrayOrEmpty (p.get (lit "objections"))).filterMap objectorName).take VOICES_MAX

/-- A proposal of a payload lists distinct signers and distinct objectors, no name as both, and its
proposer not as an objector. -/
structure FairProposal (p : Value) : Prop where
  signers : (namedSigners p).Nodup
  objectors : (namedObjectors p).Nodup
  apart : ∀ w ∈ namedSigners p, w ∉ namedObjectors p
  proposer : ∀ name, (p.get (lit "by")).toStr = .ok name → name ∉ namedObjectors p

theorem readVoice_name {v : Value} {o : Option (Str × Number)}
    (h : readVoice v base = .ok o) : o.map Prod.fst = voiceName v := by
  obtain ⟨who, hwho, h⟩ := bind_eq_ok.mp h
  obtain ⟨at_, -, h⟩ := bind_eq_ok.mp h
  unfold voiceName unlessEmpty
  rw [hwho]
  dsimp only
  split at h
  next hempty =>
    cases h
    rw [if_pos hempty]
    rfl
  next hempty =>
    cases h
    rw [if_neg hempty]
    rfl

theorem listedSignatures_names {arr : Value} {l : List Signature}
    (h : listedSignatures arr base = .ok l) :
    l.map Signature.who = ((arrayOrEmpty arr).filterMap voiceName).take VOICES_MAX := by
  obtain ⟨voices, hvoices, h⟩ := bind_eq_ok.mp h
  cases h
  have hnames := filter_reduceOption_of_mapM (fun _ => true) Signature.who
    (h := voiceName) (fun v o ho => ?_) hvoices
  · rw [List.filter_true] at hnames
    rw [List.map_take, hnames]
  · obtain ⟨o', ho', heq⟩ := bind_eq_ok.mp ho
    cases heq
    rw [← readVoice_name ho']
    cases o' <;> rfl

theorem listedObjections_names {arr : Value} {l : List Objection}
    (h : listedObjections arr base = .ok l) :
    l.map Objection.who = ((arrayOrEmpty arr).filterMap objectorName).take VOICES_MAX := by
  obtain ⟨voices, hvoices, h⟩ := bind_eq_ok.mp h
  cases h
  have hnames := filter_reduceOption_of_mapM (fun o : Objection => o.why ≠ []) Objection.who
    (h := objectorName) (fun v o ho => ?_) hvoices
  · rw [List.map_take, hnames]
  · obtain ⟨o', ho', heq⟩ := bind_eq_ok.mp ho
    have hname := readVoice_name ho'
    cases o' with
    | none =>
      cases heq
      -- Without a name there is no voice, whatever the reason.
      unfold objectorName
      rw [← hname]
      split <;> simp
    | some p =>
      obtain ⟨why, hwhy, heq⟩ := bind_eq_ok.mp heq
      cases heq
      unfold objectorName
      rw [← hname, hwhy]
      by_cases hempty : trim (slice why WHY_MAX) = [] <;> simp [hempty, Option.filter]

/-- A fair proposal of a payload is cleaned to one where every name has one voice. -/
theorem FairProposal.oneVoice {p : Value}
    (hfair : FairProposal p) (h : normalizeListedProposal platform p now = .ok (some q)) :
    OneVoice q := by
  obtain ⟨o, ho, h⟩ := bind_eq_ok.mp h
  cases o with
  | none => cases h
  | some base =>
    obtain ⟨signatures, hsig, h⟩ := bind_eq_ok.mp h
    obtain ⟨objections, hobj, h⟩ := bind_eq_ok.mp h
    cases h
    have hby := (normalizeProposal_voices ho).1
    have hsig : signatures.map Signature.who = namedSigners p := listedSignatures_names hsig
    have hobj : objections.map Objection.who = namedObjectors p := listedObjections_names hobj
    have hmem : signatures.any (·.who == base.by_) = true ↔ base.by_ ∈ namedSigners p := by
      rw [← hsig]
      simp
    -- The proposer is added to the listed signers where missing.
    have hsigners : (withProposer base signatures).map Signature.who =
        if base.by_ ∈ namedSigners p then namedSigners p
        else namedSigners p ++ [base.by_] := by
      unfold withProposer
      split
      next hin => rw [if_pos (hmem.mp hin), hsig]
      next hin => rw [if_neg (mt hmem.mpr hin), List.map_append, hsig]; rfl
    constructor
    · change ((withProposer base signatures).map Signature.who).Nodup
      rw [hsigners]
      split
      · exact hfair.signers
      next hnot =>
        exact List.nodup_append.mpr ⟨hfair.signers, List.nodup_singleton _, fun a ha b hb hab =>
          hnot (List.mem_singleton.mp hb ▸ hab ▸ ha)⟩
    · change (objections.map Objection.who).Nodup
      rw [hobj]
      exact hfair.objectors
    · intro w hw
      change w ∈ (withProposer base signatures).map Signature.who at hw
      change w ∉ objections.map Objection.who
      rw [hobj]
      rw [hsigners] at hw
      have hcases : w ∈ namedSigners p ∨ w = base.by_ := by
        split at hw
        · exact .inl hw
        · simpa using hw
      rcases hcases with hw | rfl
      · exact hfair.apart w hw
      · exact hfair.proposer _ hby

/-- **What a rebroadcast can do to the ledger**: nothing, or add what it lists. -/
theorem fillProposals_cases (env : Envelope) (ledger : Ledger) :
    (env.fillProposals ledger).state.list = ledger.list ∨
    ∃ incoming, normalizeProposals env.ctx.platform (arrayOrEmpty (env.field "proposals"))
      env.ctx.clock = .ok incoming ∧
      (env.fillProposals ledger).state.list = mergeProposals ledger.list incoming := by
  unfold Envelope.fillProposals
  split
  · cases hp : normalizeProposals env.ctx.platform (arrayOrEmpty (env.field "proposals"))
      env.ctx.clock with
    | error e => exact .inl rfl
    | ok incoming =>
      rw [Act.state_lift_ok_bind, Act.state_read_bind]
      split
      · exact .inr ⟨incoming, rfl, rfl⟩
      · exact .inl rfl
  · exact .inl rfl

theorem mem_normalizeProposals {list : List Value}
    {incoming : List Proposal} (h : normalizeProposals platform list now = .ok incoming)
    (hq : q ∈ incoming) :
    ∃ p ∈ list, normalizeListedProposal platform p now = .ok (some q) := by
  obtain ⟨proposals, hproposals, h⟩ := bind_eq_ok.mp h
  cases h
  exact exists_of_mem_mapM hproposals (List.reduceOption_mem_iff.mp (mem_of_mem_newest hq))

theorem oneVoice_fillProposals {env : Envelope} {ledger : Ledger}
    (hfair : ∀ p ∈ arrayOrEmpty (env.field "proposals"), FairProposal p)
    (h : ∀ p ∈ ledger.list, OneVoice p) :
    ∀ p ∈ (env.fillProposals ledger).state.list, OneVoice p := by
  intro q hq
  rcases fillProposals_cases env ledger with heq | ⟨incoming, hincoming, heq⟩ <;> rw [heq] at hq
  · exact h q hq
  · rcases List.mem_append.mp (mem_of_mem_newest hq) with hq | hq
    · exact h q hq
    · obtain ⟨p, hp, hlisted⟩ := mem_normalizeProposals hincoming (List.mem_of_mem_filter hq)
      exact (hfair p hp).oneVoice hlisted

/-! ### Runs -/

/-- One record after another, with every name kept to one voice. -/
def KeepsVoices (record record' : Record) : Prop :=
  (∀ p ∈ record.ledger.list, OneVoice p) → ∀ p ∈ record'.ledger.list, OneVoice p

instance : IsTrans Record KeepsVoices := ⟨fun _ _ _ h h' => h' ∘ h⟩

theorem keepsVoices_of_eq {record record' : Record} (h : record'.ledger = record.ledger) :
    KeepsVoices record record' := by
  unfold KeepsVoices
  rw [h]
  exact id

theorem keepsVoices_onRooms (x : Act Effect Rooms α) :
    Act.Moves KeepsVoices (Record.onRooms x) := fun _ => keepsVoices_of_eq rfl

theorem keepsVoices_onBoard (x : Act Effect Board α) :
    Act.Moves KeepsVoices (Record.onBoard x) := fun _ => keepsVoices_of_eq rfl

/-- A threshold says nothing about proposals. -/
theorem list_applyThreshold (env : Envelope) (n : ℕ) (ledger : Ledger) :
    (env.applyThreshold n ledger).state.list = ledger.list := by
  unfold Envelope.applyThreshold
  cases normalizeThreshold (env.field "n") n <;> rfl

theorem list_fillThreshold (env : Envelope) (n : ℕ) (ledger : Ledger) :
    (env.fillThreshold n ledger).state.list = ledger.list := by
  unfold Envelope.fillThreshold
  rw [Act.state_read_bind]
  split
  · cases normalizeThreshold (env.field "threshold") n <;> rfl
  · rfl

theorem keepsVoices_applyMeta (env : Envelope)
    (hfair : ∀ p ∈ arrayOrEmpty (env.field "proposals"), FairProposal p) :
    Act.Moves KeepsVoices env.applyMeta := by
  refine Act.moves_bind (Act.moves_update fun _ => keepsVoices_of_eq rfl) fun _ => ?_
  refine Act.moves_read_bind fun record => ?_
  split
  · -- A snapshot that is adopted says nothing about the ledger.
    refine keepsVoices_of_eq ?_
    unfold Envelope.adoptMeta
    rw [Act.state_update_bind]
    cases env.reconcileMeta <;> rfl
  · refine Envelope.moves_fillMeta (fun x _ => keepsVoices_onRooms x)
      (fun x _ => keepsVoices_onBoard x) (fun x hx r h => ?_) record
    simp only [List.mem_cons, List.not_mem_nil, or_false] at hx
    rcases hx with rfl | rfl
    · exact oneVoice_fillProposals hfair h
    · change ∀ p ∈ (env.fillThreshold _ r.ledger).state.list, OneVoice p
      rw [list_fillThreshold]
      exact h

/-- A rebroadcast that lists fair proposals only; any other envelope will do. -/
def Delivery.Fair (e : Delivery) : Prop :=
  Kind.ofContent e.content = some .meta_ →
    ∀ p ∈ arrayOrEmpty (e.content.get (lit "proposals")), FairProposal p

/-- A fair envelope keeps every name to one voice. -/
theorem keepsVoices_apply {e : Delivery} (he : e.Fair) (record : Record) :
    KeepsVoices record (e.apply record) := by
  rcases e.apply_cases record with heq | ⟨kind, hkind, -, heq⟩ <;> rw [heq]
  · exact id
  by_cases hq : kind = .quorum
  · subst hq
    exact oneVoice_applyQuorum _
  by_cases ht : kind = .threshold
  · subst ht
    intro h
    change ∀ p ∈ ((e.envelope record.id).applyThreshold _ record.ledger).state.list, OneVoice p
    rw [list_applyThreshold]
    exact h
  by_cases hm : kind = .meta_
  · subst hm
    exact keepsVoices_applyMeta (e.envelope record.id) (he hkind) record
  exact keepsVoices_of_eq (ledger_applyKind _ hq ht hm record)

theorem keepsVoices_run {envelopes : List Delivery} (h : ∀ e ∈ envelopes, e.Fair)
    (record : Record) : KeepsVoices record (runEnvelopes record envelopes) := by
  induction envelopes generalizing record with
  | nil => exact id
  | cons e envelopes ih =>
    have hstep := keepsVoices_apply (h e (List.mem_cons_self ..)) record
    have hrest := ih (fun e' he' => h e' (List.mem_cons_of_mem _ he')) (e.apply record)
    exact hrest ∘ hstep

/-- The signatures that count are as many as the members who signed. -/
theorem OneVoice.length_standing (h : OneVoice p) (members : List Str) :
    (standingSignatures p members).length = (p.signers.toFinset ∩ members.toFinset).card := by
  have hnames : (standingSignatures p members).map Signature.who =
      p.signers.filter fun w => w ∈ members := by
    rw [standingSignatures, Proposal.signers, List.filter_map]
    rfl
  have hset : p.signers.toFinset ∩ members.toFinset =
      (p.signers.filter fun w => w ∈ members).toFinset := by
    ext w
    simp
  rw [hset, List.toFinset_card_of_nodup (h.signers.filter _), ← hnames, List.length_map]

/-- **One voice per member.**  Along envelopes whose rebroadcasts list fair proposals, no name
signs twice, objects twice or does both, and what is compared with the threshold is the number of
members who signed. -/
theorem oneVoice_of_fair (record : Record) (hrecord : ∀ p ∈ record.ledger.list, OneVoice p)
    (envelopes : List Delivery) (hfair : ∀ e ∈ envelopes, e.Fair) :
    ∀ p ∈ (runEnvelopes record envelopes).ledger.list, OneVoice p ∧
      ∀ members, (standingSignatures p members).length =
        (p.signers.toFinset ∩ members.toFinset).card := by
  intro p hp
  have hone := keepsVoices_run hfair record hrecord p hp
  exact ⟨hone, hone.length_standing⟩

def voice (sender op : String) (fields : List (Str × Value)) : Delivery where
  sender := lit sender
  content := .obj 1 ([(lit "k", .str (lit "quorum")), (lit "op", .str (lit op))] ++ fields)
  ctx := plainCtx

/-- A rebroadcast of one proposal, put forward by mallory and signed by the given names. -/
def rebroadcast (signers : List String) : Delivery where
  sender := lit "mallory"
  content := .obj 1
    [(lit "k", .str (lit "meta")), (lit "proposals", .arr 2 [.obj 3
      [(lit "id", .str (lit "p1")), (lit "handle", .str (lit "eve")),
        (lit "by", .str (lit "mallory")),
        (lit "signatures", .arr 4 (signers.map fun who =>
          .obj 5 [(lit "who", .str (lit who))]))]])]
  ctx := plainCtx

/-- A name listed twice counts twice: two members make three signatures. -/
theorem listed_twice_counts_twice :
    ∃ p ∈ (runEnvelopes emptyCircle [rebroadcast ["alice", "alice"]]).ledger.list,
      ¬ p.signers.Nodup ∧ isCarried p 3 [lit "alice", lit "mallory"] = true := by
  decide +kernel

/-- A rebroadcast without repetition is counted name by name. -/
theorem listed_once_counts_once :
    (∃ p ∈ (runEnvelopes emptyCircle [rebroadcast ["alice"]]).ledger.list,
      lit "alice" ∈ p.signers) ∧
    ∀ p ∈ (runEnvelopes emptyCircle [rebroadcast ["alice"]]).ledger.list, OneVoice p ∧
      ∀ members, (standingSignatures p members).length =
        (p.signers.toFinset ∩ members.toFinset).card := by
  have hempty : emptyCircle.ledger.list = [] := rfl
  refine ⟨by decide +kernel, oneVoice_of_fair emptyCircle (by simp [hempty]) _ fun e he => ?_⟩
  obtain rfl := List.mem_singleton.mp he
  intro _ p hp
  obtain rfl := List.mem_singleton.mp hp
  refine ⟨by decide +kernel, by decide +kernel, by decide +kernel, fun name h => ?_⟩
  obtain rfl : lit "mallory" = name := Except.ok.inj h
  decide +kernel

end Quorum
