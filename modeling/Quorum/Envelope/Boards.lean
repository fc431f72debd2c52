import Quorum.Order.Entries
import Quorum.Envelope.Frame
import Quorum.Ledger.Signatures

/-!
# Entries of the boards

The noticeboard, the offers and the ledger of proposals are lists of entries under ids, each with a
limit (`Shelf`).  Any member may put an entry there; taking one down is for its author and for
admins.  What an envelope does to such a list is a `Change` (`makes_apply`).

An entry is put in the place of whatever is under its id, whoever wrote it.  So an entry is safe from
other members only as long as nobody puts another under its id (`entries_of_author_stay`).
-/

namespace Quorum

open Js

/-! ### Changes -/

section

variable {α : Type} (key : α → Str) (may : α → Bool) (v : Value) (list : List α)

/-- Take down what is under an id, if this is allowed for the first entry that is. -/
def removalChange : Change α Str :=
  match list.find? fun x => (Value.str (key x)).strictEq v with
  | some target => if may target then .remove (key target) else .keep
  | none => .keep

variable {key may v list}

theorem filter_named {target : α}
    (h : list.find? (fun x => (Value.str (key x)).strictEq v) = some target) :
    (list.filter fun x => !(Value.str (key x)).strictEq v) =
      list.filter fun x => key x ≠ key target := by
  have hv : v = .str (key target) := Value.str_strictEq.mp
    (List.find?_some (p := fun x => (Value.str (key x)).strictEq v) h)
  refine List.filter_congr fun x _ => ?_
  rw [hv]
  by_cases hx : key x = key target
  · rw [decide_eq_false (not_not_intro hx), Value.str_strictEq.mpr (congrArg _ hx.symm)]
    rfl
  · have hne : (Value.str (key x)).strictEq (.str (key target)) = false := by
      rw [← Bool.not_eq_true, Value.str_strictEq, Value.str.injEq]
      exact fun heq => hx heq.symm
    rw [decide_eq_true hx, hne]
    rfl

/-- Only what is allowed is taken down. -/
theorem removalChange_cases (key : α → Str) (may : α → Bool) (v : Value) (list : List α) :
    removalChange key may v list = .keep ∨
      ∃ target ∈ list, removalChange key may v list = .remove (key target) ∧ may target = true := by
  unfold removalChange
  cases hfind : list.find? fun x => (Value.str (key x)).strictEq v with
  | none => exact .inl rfl
  | some target =>
    dsimp only
    split
    next hmay => exact .inr ⟨target, List.mem_of_find?_eq_some hfind, rfl, hmay⟩
    next => exact .inl rfl

end

/-- A sorted and cut list. -/
theorem isCut_newest {α : Type} (time : α → Number) (limit : ℕ) (l : List α) :
    IsCut limit l ((newestFirst time l).take limit) :=
  ⟨_, List.perm_insertionSort _ l, rfl⟩

namespace Envelope

variable (env : Envelope)

/-- What a `notice` envelope changes. -/
def noticeChange (list : List Notice) : Change Notice Str :=
  if isOp (env.field "op") "add" then
    match normalizeNotice (env.field "n") (.str env.sender) env.ctx.clock with
    | .ok (some notice) => .put notice
    | _ => .keep
  else if isOp (env.field "op") "del" then
    removalChange Notice.id (canRemoveNotice · env.sender env.ctx.admin) (env.field "id") list
  else .keep

/-- An offer in place of an earlier one under its id keeps whoever had taken a seat. -/
def overOffer (list : List Offer) (offer : Offer) : Offer :=
  match list.find? (·.id == offer.id) with
  | some prior => { offer with takers := prior.takers }
  | none => offer

/-- What an `offer` envelope changes. -/
def offerChange (list : List Offer) : Change Offer Str :=
  if isOp (env.field "op") "add" then
    match normalizeOffer (env.field "o") (.str env.sender) env.ctx.clock with
    | .ok (some offer) => .put (overOffer list offer)
    | _ => .keep
  else if isOp (env.field "op") "take" then
    .adjust fun o => if (Value.str o.id).strictEq (env.field "id") then
      o.take env.sender !(env.field "taking").strictEq (.bool false) else o
  else if isOp (env.field "op") "del" then
    removalChange Offer.id (canRemoveOffer · env.sender env.ctx.admin) (env.field "id") list
  else .keep

/-- What a `quorum` envelope changes. -/
def proposalChange (list : List Proposal) : Change Proposal Str :=
  if isOp (env.field "op") "propose" then
    match env.proposal with
    | .ok (some proposal) => .put (proposal.over (list.find? (·.id == proposal.id)))
    | _ => .keep
  else if isOp (env.field "op") "sign" then
    .adjust fun p => if (Value.str p.id).strictEq (env.field "id") then
      p.sign env.sender env.ctx.clock else p
  else if isOp (env.field "op") "object" then
    match (env.field "why").text with
    | .ok why =>
      let reason := trim (slice why WHY_MAX)
      if reason = [] then .keep
      else .adjust fun p => if (Value.str p.id).strictEq (env.field "id") then
        p.object env.sender reason env.ctx.clock else p
    | .error _ => .keep
  else if isOp (env.field "op") "withdraw" then
    removalChange Proposal.id (canWithdraw · env.sender env.ctx.admin) (env.field "id") list
  else .keep

theorem overOffer_id (list : List Offer) (offer : Offer) : (overOffer list offer).id = offer.id := by
  unfold overOffer
  split <;> rfl

theorem isCut_upsertOffer (list : List Offer) (offer : Offer) :
    IsCut OFFERS_MAX
      (overOffer list offer :: list.filter fun o => o.id ≠ (overOffer list offer).id)
      (upsertOffer list offer) := by
  rw [overOffer_id]
  exact isCut_newest ..

theorem isCut_upsertProposal (list : List Proposal) (proposal : Proposal) :
    IsCut PROPOSALS_MAX (proposal.over (list.find? (·.id == proposal.id)) :: list.filter fun p =>
        p.id ≠ (proposal.over (list.find? (·.id == proposal.id))).id)
      (upsertProposal list proposal) := by
  rw [(Proposal.over_id _ _).1]
  exact isCut_newest ..

theorem getD_map_filter {α : Type} (p : α → Bool) (o : Option (List α)) :
    (o.map (·.filter p)).getD [] = (o.getD []).filter p := by
  cases o <;> rfl

/-- A notice changes the noticeboard, and nothing of the offers. -/
theorem makes_applyNotice (board : Board) :
    (env.noticeChange (board.notices.getD [])).Makes Notice.id NOTICES_MAX (board.notices.getD [])
      ((env.applyNotice board).state.notices.getD []) ∧
    (env.applyNotice board).state.offers = board.offers := by
  unfold applyNotice noticeChange removalChange
  rw [Act.state_read_bind]
  dsimp only
  split_ifs with hadd hdel
  · cases normalizeNotice (env.field "n") (.str env.sender) env.ctx.clock with
    | error e => exact ⟨rfl, rfl⟩
    | ok o =>
      cases o with
      | none => exact ⟨rfl, rfl⟩
      | some notice => exact ⟨isCut_newest .., rfl⟩
  · cases hfind : (board.notices.getD []).find? fun n => (Value.str n.id).strictEq (env.field "id")
      with
    | none => exact ⟨rfl, rfl⟩
    | some target =>
      dsimp only
      split
      · exact ⟨(getD_map_filter ..).trans (filter_named hfind), rfl⟩
      · exact ⟨rfl, rfl⟩
  · exact ⟨rfl, rfl⟩

theorem makes_applyOffer (board : Board) :
    (env.offerChange (board.offers.getD [])).Makes Offer.id OFFERS_MAX (board.offers.getD [])
      ((env.applyOffer board).state.offers.getD []) ∧
    (env.applyOffer board).state.notices = board.notices := by
  unfold applyOffer offerChange removalChange
  rw [Act.state_read_bind]
  dsimp only
  split_ifs with hadd htake hdel
  · cases normalizeOffer (env.field "o") (.str env.sender) env.ctx.clock with
    | error e => exact ⟨rfl, rfl⟩
    | ok o =>
      cases o with
      | none => exact ⟨rfl, rfl⟩
      | some offer => exact ⟨isCut_upsertOffer .., rfl⟩
  · exact ⟨rfl, rfl⟩
  · cases hfind : (board.offers.getD []).find? fun o => (Value.str o.id).strictEq (env.field "id")
      with
    | none => exact ⟨rfl, rfl⟩
    | some target =>
      dsimp only
      split
      · exact ⟨(getD_map_filter ..).trans (filter_named hfind), rfl⟩
      · exact ⟨rfl, rfl⟩
  · exact ⟨rfl, rfl⟩

theorem makes_applyQuorum (ledger : Ledger) :
    (env.proposalChange (ledger.proposals.getD [])).Makes Proposal.id PROPOSALS_MAX
      (ledger.proposals.getD []) ((env.applyQuorum ledger).state.proposals.getD []) := by
  unfold applyQuorum proposalChange removalChange proposal
  rw [Act.state_read_bind]
  dsimp only
  split_ifs with hpropose hsign hobject hwithdraw
  · cases normalizeProposal env.ctx.platform (env.field "p") (.str env.sender) env.ctx.clock with
    | error e => rfl
    | ok o =>
      cases o with
      | none => rfl
      | some proposal => exact isCut_upsertProposal ..
  · rfl
  · rw [applyObjection_eq]
    cases (env.field "why").text with
    | error e => rfl
    | ok why =>
      dsimp only [Except.map]
      split <;> rfl
  · cases hfind : (ledger.proposals.getD []).find? fun p =>
        (Value.str p.id).strictEq (env.field "id") with
    | none => rfl
    | some target =>
      dsimp only
      split
      · exact filter_named hfind
      · rfl
  · rfl

end Envelope

theorem normalizeNotice_author {n : Value} {sender : Str} {now : Number} {notice : Notice}
    (h : normalizeNotice n (.str sender) now = .ok (some notice)) : notice.author = sender := by
  unfold normalizeNotice at h
  split at h
  · cases h
  obtain ⟨id, -, h⟩ := bind_eq_ok.mp h
  obtain ⟨text, -, h⟩ := bind_eq_ok.mp h
  obtain ⟨ts, -, h⟩ := bind_eq_ok.mp h
  split at h
  · cases h
  cases h
  rfl

theorem normalizeOffer_author {o : Value} {sender : Str} {now : Number} {offer : Offer}
    (h : normalizeOffer o (.str sender) now = .ok (some offer)) : offer.author = sender := by
  unfold normalizeOffer at h
  split at h
  · cases h
  obtain ⟨id, -, h⟩ := bind_eq_ok.mp h
  obtain ⟨text, -, h⟩ := bind_eq_ok.mp h
  obtain ⟨note, -, h⟩ := bind_eq_ok.mp h
  obtain ⟨seats, -, h⟩ := bind_eq_ok.mp h
  obtain ⟨ts, -, h⟩ := bind_eq_ok.mp h
  split at h
  · cases h
  cases h
  rfl

/-! ### What members add to entries -/

/-- An offer without its takers. -/
def Offer.fixed (o : Offer) : Offer := { o with takers := [] }

/-- A proposal without its voices. -/
def Proposal.fixed (p : Proposal) : Proposal := { p with signatures := [], objections := [] }

theorem Offer.fixed_take (o : Offer) (who : Str) (taking : Bool) :
    (o.take who taking).fixed = o.fixed := by
  unfold Offer.take
  split_ifs <;> rfl

theorem Offer.take_id (o : Offer) (who : Str) (taking : Bool) : (o.take who taking).id = o.id := by
  unfold Offer.take
  split_ifs <;> rfl

theorem Proposal.fixed_sign (p : Proposal) (who : Str) (at_ : Number) :
    (p.sign who at_).fixed = p.fixed := by
  unfold Proposal.sign
  split_ifs <;> rfl

theorem Proposal.fixed_object (p : Proposal) (who reason : Str) (at_ : Number) :
    (p.object who reason at_).fixed = p.fixed := by
  unfold Proposal.object
  split_ifs <;> rfl

/-- A change of some entries that leaves a part of them alone. -/
theorem apply_ite_eq {α β : Type} (g : α → β) {c : Prop} [Decidable c] {x y : α} (h : g y = g x) :
    g (if c then y else x) = g x := by
  split
  · exact h
  · rfl

/-! ### Shelves -/

/-- The lists of entries that members write to. -/
inductive Shelf
  | notices
  | offers
  | proposals

namespace Shelf

def Entry : Shelf → Type
  | notices => Notice
  | offers => Offer
  | proposals => Proposal

def id : (b : Shelf) → b.Entry → Str
  | notices => Notice.id
  | offers => Offer.id
  | proposals => Proposal.id

def author : (b : Shelf) → b.Entry → Str
  | notices => Notice.author
  | offers => Offer.author
  | proposals => Proposal.by_

def limit : Shelf → ℕ
  | notices => NOTICES_MAX
  | offers => OFFERS_MAX
  | proposals => PROPOSALS_MAX

def list : (b : Shelf) → Record → List b.Entry
  | notices => fun record => record.board.notices.getD []
  | offers => fun record => record.board.offers.getD []
  | proposals => fun record => record.ledger.proposals.getD []

/-- An entry without what other members may add to it: its takers, signatures and objections. -/
def fixed : (b : Shelf) → b.Entry → b.Entry
  | notices => fun n => n
  | offers => Offer.fixed
  | proposals => Proposal.fixed

def kind : Shelf → Kind
  | notices => .notice
  | offers => .offer
  | proposals => .quorum

def change (env : Envelope) : (b : Shelf) → List b.Entry → Change b.Entry Str
  | notices => env.noticeChange
  | offers => env.offerChange
  | proposals => env.proposalChange

variable (b : Shelf)

theorem id_fixed (x : b.Entry) : b.id (b.fixed x) = b.id x := by
  cases b <;> rfl

theorem fixed_fixed (x : b.Entry) : b.fixed (b.fixed x) = b.fixed x := by
  cases b <;> rfl

theorem author_fixed (x : b.Entry) : b.author (b.fixed x) = b.author x := by
  cases b <;> rfl

/-- What the envelopes of a sender may change: they put entries there as the sender's own, add to
entries, and take down what is the sender's own, or anything as an admin. -/
inductive Allowed (sender : Str) (admin : Bool) (l : List b.Entry) : Change b.Entry Str → Prop
  | keep : Allowed sender admin l .keep
  | put {entry : b.Entry} (h : b.author entry = sender) : Allowed sender admin l (.put entry)
  | adjust {f : b.Entry → b.Entry} (h : ∀ x, b.fixed (f x) = b.fixed x) :
    Allowed sender admin l (.adjust f)
  | remove {target : b.Entry} (hmem : target ∈ l) (h : b.author target = sender ∨ admin = true) :
    Allowed sender admin l (.remove (b.id target))

variable (env : Envelope)

theorem allowed_removal {may : b.Entry → Bool} {v : Value} {l : List b.Entry}
    (hmay : ∀ x, may x = true → b.author x = env.sender ∨ env.ctx.admin = true) :
    b.Allowed env.sender env.ctx.admin l (removalChange b.id may v l) := by
  rcases removalChange_cases b.id may v l with heq | ⟨target, hmem, heq, htarget⟩ <;> rw [heq]
  · exact .keep
  · exact .remove hmem (hmay target htarget)

theorem allowed_notices (l : List Notice) :
    notices.Allowed env.sender env.ctx.admin l (env.noticeChange l) := by
  unfold Envelope.noticeChange
  split_ifs
  · split
    next notice hn => exact .put (normalizeNotice_author hn)
    next => exact .keep
  · refine notices.allowed_removal env fun n hmay => ?_
    exact (Bool.or_eq_true_iff.mp hmay).imp_left fun h => (beq_iff_eq.mp h).symm
  · exact .keep

theorem allowed_offers (l : List Offer) :
    offers.Allowed env.sender env.ctx.admin l (env.offerChange l) := by
  unfold Envelope.offerChange
  split_ifs
  · split
    next offer ho =>
      refine .put (Eq.trans ?_ (normalizeOffer_author ho))
      unfold Envelope.overOffer
      split <;> rfl
    next => exact .keep
  · exact .adjust fun o => apply_ite_eq Offer.fixed (o.fixed_take ..)
  · refine offers.allowed_removal env fun o hmay => ?_
    exact (Bool.or_eq_true_iff.mp hmay).imp_left fun h => beq_iff_eq.mp h
  · exact .keep

theorem allowed_proposals (l : List Proposal) :
    proposals.Allowed env.sender env.ctx.admin l (env.proposalChange l) := by
  unfold Envelope.proposalChange
  split_ifs
  · split
    next proposal hp =>
      have hby : proposal.by_ = env.sender := (Except.ok.inj (normalizeProposal_voices hp).1).symm
      refine .put (Eq.trans ?_ hby)
      cases l.find? (·.id == proposal.id) <;> rfl
    next => exact .keep
  · exact .adjust fun p => apply_ite_eq Proposal.fixed (p.fixed_sign ..)
  · split
    · dsimp only
      split
      · exact .keep
      · exact .adjust fun p => apply_ite_eq Proposal.fixed (p.fixed_object ..)
    · exact .keep
  · refine proposals.allowed_removal env fun p hmay => ?_
    exact (Bool.or_eq_true_iff.mp hmay).imp_left fun h => beq_iff_eq.mp h
  · exact .keep

/-- **What an envelope changes is what its sender may change.** -/
theorem allowed_change (l : List b.Entry) :
    b.Allowed env.sender env.ctx.admin l (b.change env l) := by
  cases b with
  | notices => exact allowed_notices env l
  | offers => exact allowed_offers env l
  | proposals => exact allowed_proposals env l

end Shelf

/-! ### Envelopes -/

/-- An envelope of one of the kinds that write to the lists. -/
def Delivery.OnShelves (e : Delivery) : Prop :=
  ∃ b : Shelf, Kind.ofContent e.content = some b.kind

/-- What an envelope changes of a list. -/
def Delivery.change (e : Delivery) (record : Record) (b : Shelf) : Change b.Entry Str :=
  if e.reaches record.id = some b.kind then b.change (e.envelope record.id) (b.list record)
  else .keep

/-- The reducer of one list leaves the others alone, and makes its change on its own. -/
theorem makes_applyKind (env : Envelope) (record : Record) (b b' : Shelf) :
    (if b'.kind = b.kind then b.change env (b.list record) else .keep).Makes b.id b.limit
      (b.list record) (b.list (env.applyKind b'.kind record).state) := by
  cases b with
  | notices =>
    cases b' with
    | notices => exact (env.makes_applyNotice record.board).1
    | offers => exact congrArg (·.getD []) (env.makes_applyOffer record.board).2
    | proposals => exact rfl
  | offers =>
    cases b' with
    | notices => exact congrArg (·.getD []) (env.makes_applyNotice record.board).2
    | offers => exact (env.makes_applyOffer record.board).1
    | proposals => exact rfl
  | proposals =>
    cases b' with
    | notices => exact rfl
    | offers => exact rfl
    | proposals => exact env.makes_applyQuorum record.ledger

/-- **What an envelope does to a list is its change.** -/
theorem Delivery.makes_apply {e : Delivery} (he : e.OnShelves) (record : Record) (b : Shelf) :
    (e.change record b).Makes b.id b.limit (b.list record) (b.list (e.apply record)) := by
  obtain ⟨b', hkind⟩ := he
  rw [e.apply_eq]
  unfold Delivery.change
  cases hreaches : e.reaches record.id with
  | none => exact rfl
  | some kind =>
    cases hkind.symm.trans (Delivery.reaches_eq_some.mp hreaches).2
    simp only [Option.some.injEq]
    exact makes_applyKind (e.envelope record.id) record b b'

/-! ### Entries of one member -/

/-- An envelope puts nothing under an id of one member's entries. -/
def Delivery.Spares (e : Delivery) (a : Str) (record : Record) : Prop :=
  ∀ (b : Shelf) (entry : b.Entry), e.change record b = .put entry →
    ∀ x ∈ b.list record, b.author x = a → b.id x ≠ b.id entry

/-- The envelope of somebody else, who is no admin. -/
structure Delivery.Foreign (e : Delivery) (a : Str) : Prop where
  onShelves : e.OnShelves
  sender : e.sender ≠ a
  member : e.ctx.admin = false

/-- Nobody else has an entry under an id of one member's entries. -/
def Record.Sole (a : Str) (record : Record) : Prop :=
  ∀ b : Shelf, Unshared b.id b.author a (b.list record)

section

variable {e : Delivery} {a : Str} {record : Record} {b : Shelf}

theorem Delivery.allowed (e : Delivery) (record : Record) (b : Shelf) :
    b.Allowed e.sender e.ctx.admin (b.list record) (e.change record b) := by
  unfold Delivery.change
  split
  · exact b.allowed_change (e.envelope record.id) _
  · exact .keep

theorem Delivery.leaves_change {γ : Type} (e : Delivery) (record : Record) (b : Shelf)
    (part : b.Entry → γ) (hpart : ∀ x, part (b.fixed x) = part x) :
    (e.change record b).Leaves part := by
  have hallowed := e.allowed record b
  generalize e.change record b = c at hallowed
  cases hallowed with
  | keep => trivial
  | put _ => trivial
  | adjust h => exact fun x => by rw [← hpart, h, hpart]
  | remove _ _ => trivial

/-- **Nobody else names an entry of a member.** -/
theorem Delivery.Foreign.not_names (he : e.Foreign a) (hsole : record.Sole a)
    (hspares : e.Spares a record) {x : b.Entry} (hx : x ∈ b.list record) (hauthor : b.author x = a) :
    ¬ (e.change record b).Names b.id (b.id x) := by
  intro hnames
  have hallowed := e.allowed record b
  generalize hc : e.change record b = c at hallowed hnames
  cases hallowed with
  | keep => exact hnames
  | put _ => exact hspares b _ hc x hx hauthor hnames.symm
  | adjust _ => exact hnames
  | remove hmem h =>
    rcases h with hsender | hadmin
    · exact he.sender (hsender.symm.trans (hsole b x hx _ hmem hauthor hnames))
    · cases he.member.symm.trans hadmin

theorem Delivery.Foreign.sole (he : e.Foreign a) (hspares : e.Spares a record)
    (hsole : record.Sole a) : (e.apply record).Sole a := by
  intro b
  refine (hsole b).of_makes (e.makes_apply he.onShelves record b) ?_ fun y hadds => ?_
  · exact e.leaves_change record b _ fun x => by rw [b.id_fixed, b.author_fixed]
  · have hallowed := e.allowed record b
    generalize hc : e.change record b = c at hallowed hadds
    cases hallowed with
    | keep => exact hadds.elim
    | put hauthor =>
      cases hadds
      exact ⟨fun ha => he.sender (hauthor.symm.trans ha), hspares b y hc⟩
    | adjust _ => exact hadds.elim
    | remove _ _ => exact hadds.elim

/-- **An entry stays, unless it is pushed out.** -/
theorem Delivery.Foreign.stays (he : e.Foreign a) (hspares : e.Spares a record)
    (hsole : record.Sole a) {x : b.Entry} (hauthor : b.author x = a)
    (hx : ∃ y ∈ b.list record, b.fixed y = b.fixed x) :
    (∃ y ∈ b.list (e.apply record), b.fixed y = b.fixed x) ∨
      (e.change record b).Overflows b.id b.limit (b.list record) ∧
        ∀ y ∈ b.list (e.apply record), b.fixed y ≠ b.fixed x := by
  by_cases hstays : ∃ y ∈ b.list (e.apply record), b.fixed y = b.fixed x
  · exact .inl hstays
  · refine .inr ⟨?_, fun y hy heq => hstays ⟨y, hy, heq⟩⟩
    by_contra hfits
    obtain ⟨y, hy, hfixed⟩ := hx
    have hauthor' : b.author y = a := by
      rw [← b.author_fixed, hfixed, b.author_fixed, hauthor]
    have hmem := (e.makes_apply he.onShelves record b).mem_map
      (e.leaves_change record b b.fixed (b.fixed_fixed)) hy
      (he.not_names hsole hspares hy hauthor') hfits
    obtain ⟨z, hz, heq⟩ := List.mem_map.mp hmem
    exact hstays ⟨z, hz, heq.trans hfixed⟩

end

/-- **Other members leave the entries of a member alone, if they put nothing under the ids of
these**: an entry stays but for its takers and voices, or a step pushes it out of a list that is too
long. -/
theorem entries_of_author_stay {record : Record} {a : Str} {envelopes : List Delivery}
    (hforeign : ∀ e ∈ envelopes, e.Foreign a) (hsole : record.Sole a)
    (hspares : Along Delivery.apply (fun record e => e.Spares a record) record envelopes)
    (b : Shelf) {x : b.Entry} (hx : x ∈ b.list record) (hauthor : b.author x = a) :
    (∃ y ∈ b.list (runEnvelopes record envelopes), b.fixed y = b.fixed x) ∨
      Sometime Delivery.apply (fun record e =>
        (e.change record b).Overflows b.id b.limit (b.list record) ∧
          ∀ y ∈ b.list (e.apply record), b.fixed y ≠ b.fixed x) record envelopes := by
  have hboth : Along Delivery.apply (fun record e => e.Foreign a ∧ e.Spares a record) record
      envelopes := (along_of_forall (fun e he _ => hforeign e he) record).and hspares
  have hall : Along Delivery.apply
      (fun record e => (e.Foreign a ∧ e.Spares a record) ∧ record.Sole a) record envelopes :=
    hboth.carrying (fun _ _ hs hok => hok.1.sole hok.2 hs) hsole
  exact hall.preserves_or (P := fun record => ∃ y ∈ b.list record, b.fixed y = b.fixed x)
    (fun _ _ hs hok => hok.1.1.stays hok.1.2 hok.2 hauthor hs) ⟨x, hx, rfl⟩

def helloNotice : Notice where
  id := lit "n1"
  text := lit "hello"
  ts := .ofRat 5
  author := lit "alice"

def withNotice : Record :=
  { emptyCircle with board := { emptyCircle.board with notices := some [helloNotice] } }

/-- An envelope of mallory about the noticeboard. -/
def onNotices (op : String) (fields : List (Str × Value)) : Delivery where
  sender := lit "mallory"
  content := .obj 1 ([(lit "k", .str (lit "notice")), (lit "op", .str (lit op))] ++ fields)
  ctx := { plainCtx with isAdmin := some false }

/-- Mallory tries to take the notice down. -/
def unpin : Delivery := onNotices "del" [(lit "id", .str (lit "n1"))]

/-- Mallory pins a note under the id of the notice. -/
def repin : Delivery :=
  onNotices "add" [(lit "n", .obj 2 [(lit "id", .str (lit "n1")), (lit "text", .str (lit "bye"))])]

theorem notice_not_taken_down :
    ∃ y ∈ Shelf.notices.list (runEnvelopes withNotice [unpin]), y = helloNotice := by
  have hkeep : ∀ b, unpin.change withNotice b = .keep := by
    intro b
    cases b <;> rfl
  have hforeign : unpin.Foreign (lit "alice") := ⟨⟨.notices, rfl⟩, by decide, rfl⟩
  have hspares : unpin.Spares (lit "alice") withNotice := by
    intro b entry hput
    rw [hkeep b] at hput
    cases hput
  have hsole : withNotice.Sole (lit "alice") := by
    intro b x hx y hy _ _
    cases b with
    | notices =>
      cases List.mem_singleton.mp hy
      rfl
    | offers => cases hy
    | proposals => cases hy
  refine (@entries_of_author_stay withNotice _ [unpin] (by simpa using hforeign) hsole
    ⟨hspares, trivial⟩ .notices helloNotice (List.mem_singleton.mpr rfl) rfl).resolve_right ?_
  rintro (⟨hover, -⟩ | hnone)
  · rw [hkeep] at hover
    exact hover
  · exact hnone

/-- The notice of alice is mallory's, with another text. -/
theorem notice_taken_over :
    withNotice.board.notices = some [helloNotice] ∧ helloNotice.author = lit "alice" ∧
      (runEnvelopes withNotice [repin]).board.notices.map
        (·.map fun n => (n.id, n.author, n.text)) =
          some [(lit "n1", lit "mallory", lit "bye")] := by
  decide +kernel

end Quorum
