import Quorum.Ledger.Voices
import Quorum.Order.Along

/-!
# The ledger on devices with different clocks

A proposal that states no time, or one that is too far ahead, gets the time of the device that
receives it.  The ledger is sorted by these times and cut off at a length, so devices whose clocks
differ may cut off different proposals.

As long as there is place for every proposal, what the ledger says about each of them does not
depend on the clock: it is what a ledger without times says (`standings_applyQuorum`).
-/

namespace Quorum

open Js

/-! ### A ledger without times -/

/-- What a proposal says, but for its reason and its times. -/
structure Standing where
  handle : Str
  by_ : Str
  signers : List Str
  objectors : List Str

def Proposal.standing (p : Proposal) : Standing := ⟨p.handle, p.by_, p.signers, p.objectors⟩

namespace Standing

variable (s : Standing) (who : Str)

def sign : Standing :=
  if who ∈ s.signers ∨ VOICES_MAX ≤ s.signers.length then s
  else
    { s with
      signers := s.signers ++ [who]
      objectors := s.objectors.filter (· ≠ who) }

def object : Standing :=
  if VOICES_MAX ≤ s.objectors.length ∧ who ∉ s.objectors then s
  else
    { s with
      signers := s.signers.filter (· ≠ who)
      objectors := s.objectors.filter (· ≠ who) ++ [who] }

/-- The voices on what was put forward before are kept. -/
def withVoicesOf : Option Standing → Standing
  | some prior => { s with signers := prior.signers, objectors := prior.objectors }
  | none => s

end Standing

section

variable (p : Proposal) (who : Str) (at_ : Number)

theorem Proposal.standing_sign : (p.sign who at_).standing = p.standing.sign who := by
  have hsigned : p.signatures.any (·.who == who) = true ↔ who ∈ p.signers := by
    simp [Proposal.signers]
  have hlength : p.signers.length = p.signatures.length := List.length_map ..
  unfold Proposal.sign Standing.sign
  by_cases hmem : who ∈ p.signers
  · rw [if_pos (hsigned.mpr hmem), if_pos (.inl hmem)]
  · rw [if_neg (hsigned.not.mpr hmem)]
    by_cases hmany : VOICES_MAX ≤ p.signatures.length
    · rw [if_pos hmany, if_pos (.inr (hlength ▸ hmany))]
    · have hnot : ¬(who ∈ p.standing.signers ∨ VOICES_MAX ≤ p.standing.signers.length) :=
        not_or.mpr ⟨hmem, hlength ▸ hmany⟩
      rw [if_neg hmany, if_neg hnot]
      simp only [Proposal.standing, Proposal.signers, Proposal.objectors, List.map_append,
        List.map_cons, List.map_nil, List.filter_map]
      rfl

theorem Proposal.standing_object (reason : Str) :
    (p.object who reason at_).standing = p.standing.object who := by
  have hobjected : p.objections.any (·.who == who) = true ↔ who ∈ p.objectors := by
    simp [Proposal.objectors]
  have hlength : p.objectors.length = p.objections.length := List.length_map ..
  have hcond : (VOICES_MAX ≤ p.objections.length ∧ !p.objections.any (·.who == who)) ↔
      VOICES_MAX ≤ p.standing.objectors.length ∧ who ∉ p.standing.objectors := by
    rw [Bool.not_eq_true', ← Bool.not_eq_true, hobjected, ← hlength]
    rfl
  unfold Proposal.object Standing.object
  rw [if_congr hcond rfl rfl]
  split
  · rfl
  · simp only [Proposal.standing, Proposal.signers, Proposal.objectors, List.map_append,
      List.map_cons, List.map_nil, List.filter_map]
    rfl

theorem Proposal.standing_over (prior : Option Proposal) :
    (p.over prior).standing = p.standing.withVoicesOf (prior.map Proposal.standing) := by
  cases prior <;> rfl

end

/-- What a ledger says under an id. -/
def standings (list : List Proposal) (id : Str) : Option Standing :=
  (list.find? (·.id == id)).map Proposal.standing

theorem id_of_find? {list : List Proposal} {id : Str} {p : Proposal}
    (h : list.find? (·.id == id) = some p) : p.id = id := by
  have hid := List.find?_some h
  exact beq_iff_eq.mp hid

/-- What an envelope puts forward, without its time. -/
def Envelope.motion (env : Envelope) : Except Error (Option (Str × Standing)) :=
  env.proposal.map (Option.map fun p => (p.id, p.standing))

/-- What a quorum envelope does to a ledger without times. -/
def Envelope.vote (env : Envelope) (v : Str → Option Standing) : Str → Option Standing :=
  let op := env.field "op"
  let named (id : Str) : Bool := (Value.str id).strictEq (env.field "id")
  if isOp op "propose" then
    match env.motion with
    | .ok (some (id, standing)) => Function.update v id (some (standing.withVoicesOf (v id)))
    | _ => v
  else if isOp op "sign" then fun id => if named id then (v id).map (·.sign env.sender) else v id
  else if isOp op "object" then
    match (env.field "why").text with
    | .ok why =>
      if trim (slice why WHY_MAX) = [] then v
      else fun id => if named id then (v id).map (·.object env.sender) else v id
    | .error _ => v
  else if isOp op "withdraw" then
    fun id =>
      if named id then (v id).filter (fun s => !(s.by_ == env.sender || env.ctx.admin)) else v id
  else v

/-! ### Ledgers where ids are unique -/

/-- No two proposals have the same id. -/
def UniqueIds (list : List Proposal) : Prop := (list.map Proposal.id).Nodup

theorem UniqueIds.find?_eq_some_iff {list : List Proposal} (h : UniqueIds list) {id : Str}
    {p : Proposal} : list.find? (·.id == id) = some p ↔ p ∈ list ∧ p.id = id := by
  constructor
  · intro hfind
    exact ⟨List.mem_of_find?_eq_some hfind, id_of_find? hfind⟩
  · rintro ⟨hmem, rfl⟩
    cases hfind : list.find? (·.id == p.id) with
    | none => exact absurd (beq_self_eq_true p.id) (List.find?_eq_none.mp hfind p hmem)
    | some q =>
      have hq := List.mem_of_find?_eq_some hfind
      have hid : q.id = p.id := id_of_find? hfind
      rw [List.inj_on_of_nodup_map h hq hmem hid]

/-- The order of a ledger does not matter. -/
theorem UniqueIds.standings_perm {list list' : List Proposal} (h : UniqueIds list)
    (hperm : list.Perm list') : standings list = standings list' := by
  have h' : UniqueIds list' := (hperm.map Proposal.id).nodup_iff.mp h
  have hfind : ∀ id, list.find? (·.id == id) = list'.find? (·.id == id) := fun id =>
    Option.ext fun p => by rw [h.find?_eq_some_iff, h'.find?_eq_some_iff, hperm.mem_iff]
  funext id
  rw [standings, hfind, standings]

/-- A change of the proposals under some ids. -/
theorem standings_map {list : List Proposal} {f : Proposal → Proposal} {g : Standing → Standing}
    (named : Str → Bool) (h : UniqueIds list) (hid : ∀ p, (f p).id = p.id)
    (hf : ∀ p, (f p).standing = g p.standing) :
    UniqueIds (list.map fun p => if named p.id then f p else p) ∧
      standings (list.map fun p => if named p.id then f p else p) =
        fun id => if named id then (standings list id).map g else standings list id := by
  have hids : ∀ p : Proposal, (if named p.id then f p else p).id = p.id := by
    intro p
    split
    · exact hid p
    · rfl
  refine ⟨?_, ?_⟩
  · have hsame : (list.map fun p => if named p.id then f p else p).map Proposal.id =
        list.map Proposal.id := by
      rw [List.map_map]
      exact List.map_congr_left fun p _ => hids p
    unfold UniqueIds
    rw [hsame]
    exact h
  funext id
  unfold standings
  rw [List.find?_map]
  have hcomp : ((fun p : Proposal => p.id == id) ∘ fun p => if named p.id then f p else p) =
      fun p => p.id == id := by
    funext p
    exact congrArg (· == id) (hids p)
  rw [hcomp]
  cases hfind : list.find? (·.id == id) with
  | none => simp
  | some p =>
    obtain rfl : p.id = id := id_of_find? hfind
    simp only [Option.map_some]
    split
    · rw [hf]
    · rfl

theorem standings_filter (list : List Proposal) (keep : Str → Bool) :
    standings (list.filter fun p => keep p.id) =
      fun id => if keep id then standings list id else none := by
  funext id
  unfold standings
  rw [List.find?_filter]
  by_cases hkeep : keep id = true
  · rw [if_pos hkeep]
    congr 2
    funext p
    by_cases hp : p.id = id
    · simp [hp, hkeep]
    · simp [hp]
  · rw [if_neg hkeep]
    refine Option.map_eq_none_iff.mpr (List.find?_eq_none.mpr fun p _ hp => ?_)
    obtain ⟨hkept, hid⟩ := of_decide_eq_true hp
    exact hkeep (beq_iff_eq.mp hid ▸ hkept)

/-- There is place for a proposal beside those under other ids. -/
def HasPlace (list : List Proposal) (id : Str) : Prop :=
  (list.filter fun p => p.id ≠ id).length < PROPOSALS_MAX

section

variable {list : List Proposal} {proposal : Proposal}

/-- With place for it, a proposal is one more, and nothing is cut off. -/
theorem HasPlace.upsert_perm (h : HasPlace list proposal.id) :
    (upsertProposal list proposal).Perm (proposal.over (list.find? (·.id == proposal.id)) ::
      list.filter fun p => p.id ≠ proposal.id) := by
  unfold upsertProposal
  rw [List.take_of_length_le]
  · exact List.perm_insertionSort _ _
  · rw [newestFirst, List.length_insertionSort, List.length_cons]
    exact h

theorem UniqueIds.cons_filter (h : UniqueIds list) (prior : Option Proposal) :
    UniqueIds (proposal.over prior :: list.filter fun p => p.id ≠ proposal.id) := by
  refine List.nodup_cons.mpr ⟨fun hmem => ?_, h.sublist (List.filter_sublist.map _)⟩
  obtain ⟨p, hp, hid⟩ := List.mem_map.mp hmem
  rw [(proposal.over_id prior).1] at hid
  exact of_decide_eq_true (p := p.id ≠ proposal.id) (List.mem_filter.mp hp).2 hid

theorem UniqueIds.upsert (h : UniqueIds list) (hplace : HasPlace list proposal.id) :
    UniqueIds (upsertProposal list proposal) :=
  (hplace.upsert_perm.map Proposal.id).nodup_iff.mpr (h.cons_filter _)

theorem UniqueIds.standings_upsert (h : UniqueIds list) (hplace : HasPlace list proposal.id) :
    standings (upsertProposal list proposal) = Function.update (standings list) proposal.id
      (some (proposal.standing.withVoicesOf (standings list proposal.id))) := by
  rw [(h.upsert hplace).standings_perm hplace.upsert_perm]
  funext id
  by_cases hid : id = proposal.id
  · subst hid
    rw [Function.update_self, standings, List.find?_cons_of_pos, Option.map_some,
      proposal.standing_over]
    · rfl
    · rw [(proposal.over_id _).1, beq_self_eq_true]
  · have hrest := congrFun (standings_filter list fun i => i ≠ proposal.id) id
    rw [Function.update_of_ne hid, standings, List.find?_cons_of_neg]
    · refine hrest.trans (if_pos ?_)
      exact decide_eq_true hid
    · rw [(proposal.over_id _).1]
      exact fun heq => hid (beq_iff_eq.mp heq).symm

end

/-! ### Envelopes -/

/-- A value names one id, or none. -/
theorem strictEq_cases (id : Value) :
    (∃ s, ∀ t, (Value.str t).strictEq id = (t == s)) ∨ ∀ t, (Value.str t).strictEq id = false := by
  cases id with
  | str s =>
    refine .inl ⟨s, fun t => ?_⟩
    rw [Bool.eq_iff_iff, Value.str_strictEq, beq_iff_eq, Value.str.injEq]
    exact eq_comm
  | _ => exact .inr fun t => by rw [Bool.eq_false_iff, ne_eq, Value.str_strictEq]; exact nofun

/-- There is place for what an envelope puts forward. -/
def Envelope.Fits (env : Envelope) (list : List Proposal) : Prop :=
  isOp (env.field "op") "propose" = true →
    ∀ id standing, env.motion = .ok (some (id, standing)) → HasPlace list id

section

variable {env : Envelope} {list : List Proposal}

/-- A proposal that is withdrawn, if it may be. -/
theorem standings_withdraw (id : Value) (who : Str) (isAdmin : Bool) :
    standings (match list.find? (fun p => (Value.str p.id).strictEq id) with
      | none => list
      | some target =>
        if canWithdraw target who isAdmin then list.filter (fun p => !(Value.str p.id).strictEq id)
        else list) =
      fun i => if (Value.str i).strictEq id then
          (standings list i).filter (fun s => !(s.by_ == who || isAdmin))
        else standings list i := by
  rcases strictEq_cases id with ⟨s, hs⟩ | hnone
  · simp only [hs]
    cases hfind : list.find? (·.id == s) with
    | none =>
      funext i
      dsimp only
      split
      next hi =>
        obtain rfl := beq_iff_eq.mp hi
        simp [standings, hfind]
      next => rfl
    | some target =>
      have hstanding : standings list s = some target.standing := by
        rw [standings, hfind]
        rfl
      have hcan : (target.standing.by_ == who || isAdmin) = canWithdraw target who isAdmin := rfl
      dsimp only
      cases hwithdraw : canWithdraw target who isAdmin with
      | false =>
        rw [if_neg (by decide)]
        funext i
        split
        next hi =>
          obtain rfl := beq_iff_eq.mp hi
          rw [hstanding, Option.filter_some, hcan, hwithdraw]
          rfl
        next => rfl
      | true =>
        rw [if_pos rfl, standings_filter list fun i => !(i == s)]
        funext i
        by_cases hi : i = s
        · subst hi
          rw [hstanding, Option.filter_some, hcan, hwithdraw, beq_self_eq_true]
          rfl
        · simp [hi]
  · simp only [hnone]
    have hfind : list.find? (fun _ => false) = none := List.find?_eq_none.mpr (by simp)
    rw [hfind]
    rfl

/-- **With place for what it puts forward, an envelope does to the ledger what it does to one
without times.** -/
theorem standings_applyQuorum {ledger : Ledger} (h : UniqueIds ledger.list)
    (hfits : env.Fits ledger.list) :
    UniqueIds (env.applyQuorum ledger).state.list ∧
      standings (env.applyQuorum ledger).state.list = env.vote (standings ledger.list) := by
  let named (i : Str) : Bool := (Value.str i).strictEq (env.field "id")
  unfold Envelope.applyQuorum Envelope.vote
  rw [Act.state_read_bind]
  dsimp only
  split_ifs with hpropose hsign hobject hwithdraw
  · unfold Envelope.motion Envelope.proposal
    cases hp : normalizeProposal env.ctx.platform (env.field "p") (.str env.sender)
        env.ctx.clock with
    | error e => exact ⟨h, rfl⟩
    | ok o =>
      cases o with
      | none => exact ⟨h, rfl⟩
      | some proposal =>
        -- with room for it, no proposal is cut off by its time
        have hplace : HasPlace ledger.list proposal.id := by
          refine hfits hpropose proposal.id proposal.standing ?_
          rw [Envelope.motion, Envelope.proposal, hp]
          rfl
        exact ⟨h.upsert hplace, h.standings_upsert hplace⟩
  · exact standings_map (g := fun s => s.sign env.sender) named h
      (fun p => (p.sign_id env.sender env.ctx.clock).1)
      fun p => p.standing_sign env.sender env.ctx.clock
  · rw [applyObjection_eq]
    cases (env.field "why").text with
    | error e => exact ⟨h, rfl⟩
    | ok why =>
      rw [Except.map, Act.state_lift_ok_bind]
      dsimp only
      split
      · exact ⟨h, rfl⟩
      · exact standings_map (g := fun s => s.object env.sender) named h
          (fun p => (p.object_id env.sender (trim (slice why WHY_MAX)) env.ctx.clock).1)
          fun p => p.standing_object env.sender env.ctx.clock _
  · have hlist := @standings_withdraw ledger.list (env.field "id") env.sender env.ctx.admin
    rw [← hlist]
    unfold Ledger.list
    cases (ledger.proposals.getD []).find? fun p => (Value.str p.id).strictEq (env.field "id") with
    | none => exact ⟨h, rfl⟩
    | some target =>
      dsimp only
      split
      · exact ⟨h.sublist (List.filter_sublist.map _), rfl⟩
      · exact ⟨h, rfl⟩
  · exact ⟨h, rfl⟩

end

/-! ### Two clocks -/

/-- The clock gives a proposal its time only. -/
theorem normalizeProposal_clock (platform : Platform) (p by_ : Value) (now now' : Number) :
    (normalizeProposal platform p by_ now).map (Option.map fun q => (q.id, q.standing)) =
      (normalizeProposal platform p by_ now').map (Option.map fun q => (q.id, q.standing)) := by
  unfold normalizeProposal claimedTime
  split
  · rfl
  cases (p.get (lit "id")).text with
  | error e => rfl
  | ok id =>
    cases (p.get (lit "handle")).text with
    | error e => rfl
    | ok handle =>
      cases (p.get (lit "why")).text with
      | error e => rfl
      | ok why =>
        cases (p.get (lit "at")).toNum with
        | error e => rfl
        | ok at_ =>
          simp only [ok_bind, pure_eq]
          split
          · rfl
          · cases by_.toStr with
            | error e => rfl
            | ok name => rfl

/-- An envelope as it arrives at a time. -/
def Delivery.heard (e : Delivery) (now : Number) : Delivery :=
  { e with ctx := { e.ctx with now, clock := now } }

section

variable (e : Delivery) (now now' : Number) (server server' : Str)

theorem motion_heard :
    ((e.heard now).envelope server).motion = ((e.heard now').envelope server').motion :=
  normalizeProposal_clock e.ctx.platform (e.content.get (lit "p")) (.str e.sender) now now'

/-- What an envelope does to a ledger without times does not depend on the clock. -/
theorem vote_heard :
    ((e.heard now).envelope server).vote = ((e.heard now').envelope server').vote := by
  funext v
  unfold Envelope.vote
  rw [motion_heard e now now' server server']
  rfl

end

/-- A quorum envelope is applied whoever it is from. -/
theorem ledger_apply_quorum {e : Delivery} (h : Kind.ofContent e.content = some .quorum)
    (record : Record) :
    (e.apply record).ledger = ((e.envelope record.id).applyQuorum record.ledger).state := by
  have hrefused : (e.envelope record.id).refused = false := by
    unfold Envelope.refused adminRequirement
    rw [show Kind.ofContent (e.envelope record.id).content = some .quorum from h]
    dsimp only
    cases isOp ((e.envelope record.id).content.get (lit "op")) "withdraw" <;> rfl
  rw [Delivery.apply_of_reaches (Delivery.reaches_eq_some.mpr ⟨hrefused, h⟩)]
  rfl

/-! ### Agreement -/

/-- Two ledgers that say the same, but for times. -/
structure SameLedger (list list' : List Proposal) : Prop where
  unique : UniqueIds list
  unique' : UniqueIds list'
  standings_eq : standings list = standings list'

theorem mem_ids_iff {list : List Proposal} {id : Str} :
    id ∈ list.map Proposal.id ↔ (standings list id).isSome := by
  rw [standings, Option.isSome_map, List.find?_isSome]
  simp

namespace SameLedger

variable {list list' : List Proposal}

theorem perm_ids (h : SameLedger list list') :
    (list.map Proposal.id).Perm (list'.map Proposal.id) := by
  refine (List.perm_ext_iff_of_nodup h.unique h.unique').mpr fun id => ?_
  rw [mem_ids_iff, mem_ids_iff, h.standings_eq]

theorem hasPlace (h : SameLedger list list') {id : Str} (hplace : HasPlace list id) :
    HasPlace list' id := by
  have hcount : ∀ l : List Proposal, (l.filter fun p => p.id ≠ id).length =
      ((l.map Proposal.id).filter (· ≠ id)).length := by
    intro l
    rw [List.filter_map, List.length_map]
    rfl
  unfold HasPlace at hplace ⊢
  rw [hcount] at hplace ⊢
  rwa [← (h.perm_ids.filter _).length_eq]

/-- Entries under the same id say the same, and carry alike. -/
theorem standing_eq (h : SameLedger list list') {p q : Proposal} (hp : p ∈ list) (hq : q ∈ list')
    (hid : p.id = q.id) : p.standing = q.standing := by
  have hp' := h.unique.find?_eq_some_iff.mpr ⟨hp, rfl⟩
  have hq' := h.unique'.find?_eq_some_iff.mpr ⟨hq, hid.symm⟩
  have heq := congrFun h.standings_eq p.id
  rw [standings, standings, hp', hq'] at heq
  exact Option.some.inj heq

/-- The same envelope at two times. -/
theorem apply {e : Delivery} (hkind : Kind.ofContent e.content = some .quorum) {now now' : Number}
    {record record' : Record} (h : SameLedger record.ledger.list record'.ledger.list)
    (hfits : ((e.heard now).envelope record.id).Fits record.ledger.list) :
    SameLedger ((e.heard now).apply record).ledger.list
      ((e.heard now').apply record').ledger.list := by
  have hfits' : ((e.heard now').envelope record'.id).Fits record'.ledger.list := by
    intro hpropose id standing hmotion
    rw [motion_heard e now' now record'.id record.id] at hmotion
    exact h.hasPlace (hfits hpropose id standing hmotion)
  have hquorum : ∀ now, Kind.ofContent (e.heard now).content = some .quorum := fun _ => hkind
  rw [ledger_apply_quorum (hquorum now), ledger_apply_quorum (hquorum now')]
  obtain ⟨hunique, hstandings⟩ := standings_applyQuorum h.unique hfits
  obtain ⟨hunique', hstandings'⟩ := standings_applyQuorum h.unique' hfits'
  refine ⟨hunique, hunique', ?_⟩
  rw [hstandings, hstandings', h.standings_eq, vote_heard e now now' record.id record'.id]

end SameLedger

theorem isCarried_congr {p q : Proposal} (h : p.signers = q.signers) (threshold : ℕ)
    (members : List Str) : isCarried p threshold members = isCarried q threshold members := by
  have hcount : ∀ p : Proposal, (standingSignatures p members).length =
      (p.signers.filter (· ∈ members)).length := by
    intro p
    rw [Proposal.signers, List.filter_map, List.length_map]
    rfl
  unfold isCarried
  rw [hcount, hcount, h]

/-- One device, of which every envelope has the time at which it arrives there. -/
def hears (time : Delivery × Number × Number → Number) (record : Record)
    (e : Delivery × Number × Number) : Record :=
  (e.1.heard (time e)).apply record

theorem SameLedger.run {l : List (Delivery × Number × Number)}
    (hquorum : ∀ e ∈ l, Kind.ofContent e.1.content = some .quorum) {record record' : Record}
    (h : SameLedger record.ledger.list record'.ledger.list)
    (hfits : Along (hears fun e => e.2.1)
      (fun r e => ((e.1.heard e.2.1).envelope r.id).Fits r.ledger.list) record l) :
    SameLedger (l.foldl (hears fun e => e.2.1) record).ledger.list
      (l.foldl (hears fun e => e.2.2) record').ledger.list := by
  induction l generalizing record record' with
  | nil => exact h
  | cons e l ih =>
    refine ih (fun e' he' => hquorum e' (List.mem_cons_of_mem _ he')) ?_ hfits.2
    exact h.apply (hquorum e (List.mem_cons_self ..)) hfits.1

/-- **With place for every proposal, devices with different clocks have the same ledger.** -/
theorem ledgers_agree (record : Record) (hunique : UniqueIds record.ledger.list)
    {l : List (Delivery × Number × Number)}
    (hquorum : ∀ e ∈ l, Kind.ofContent e.1.content = some .quorum)
    (hfits : Along (hears fun e => e.2.1)
      (fun r e => ((e.1.heard e.2.1).envelope r.id).Fits r.ledger.list) record l) :
    let list := (l.foldl (hears fun e => e.2.1) record).ledger.list
    let list' := (l.foldl (hears fun e => e.2.2) record).ledger.list
    (∀ id, (∃ p ∈ list, p.id = id) ↔ ∃ q ∈ list', q.id = id) ∧
      ∀ p ∈ list, ∀ q ∈ list', p.id = q.id → p.handle = q.handle ∧ p.by_ = q.by_ ∧
        p.signers = q.signers ∧ p.objectors = q.objectors ∧
        ∀ threshold members, isCarried p threshold members = isCarried q threshold members := by
  have hsame := SameLedger.run hquorum ⟨hunique, hunique, rfl⟩ hfits
  intro list list'
  refine ⟨fun id => ?_, fun p hp q hq hid => ?_⟩
  · have hmem := hsame.perm_ids.mem_iff (a := id)
    rw [List.mem_map, List.mem_map] at hmem
    exact hmem
  · obtain ⟨hhandle, hby, hsigners, hobjectors⟩ := Standing.mk.inj (hsame.standing_eq hp hq hid)
    exact ⟨hhandle, hby, hsigners, hobjectors, isCarried_congr hsigners⟩

/-! ### A clock that is set back -/

/-- Alice puts dave forward, and does not say when. -/
def putForward (id : Str) : Delivery :=
  voice "alice" "propose"
    [(lit "p", .obj 2 [(lit "id", .str id), (lit "handle", .str (lit "dave"))])]

/-- Two proposals, the second of which bob signs and carol objects to, at times a year apart. -/
def voices : List (Delivery × Number × Number) :=
  [putForward (lit "p1"), putForward (lit "p2"),
    voice "bob" "sign" [(lit "id", .str (lit "p2"))],
    voice "carol" "object"
      [(lit "id", .str (lit "p2")), (lit "why", .str (lit "no"))]].mapIdx
      fun i e => (e, .ofRat i, .ofRat (31536000000 - i))

theorem voices_agree :
    let list := (voices.foldl (hears fun e => e.2.1) emptyCircle).ledger.list
    let list' := (voices.foldl (hears fun e => e.2.2) emptyCircle).ledger.list
    (∀ id, (∃ p ∈ list, p.id = id) ↔ ∃ q ∈ list', q.id = id) ∧
      ∀ p ∈ list, ∀ q ∈ list', p.id = q.id → p.handle = q.handle ∧ p.by_ = q.by_ ∧
        p.signers = q.signers ∧ p.objectors = q.objectors ∧
        ∀ threshold members, isCarried p threshold members = isCarried q threshold members := by
  refine ledgers_agree emptyCircle List.nodup_nil (by decide +kernel) ⟨?_, ?_, ?_, ?_, trivial⟩ <;>
    exact fun _ _ _ _ => (List.length_filter_le _ _).trans_lt (by decide +kernel)

/-- Seventeen proposals.  Before the last one arrives, one of the clocks is set back. -/
def seventeen : List (Delivery × Number × Number) :=
  (List.range 17).map fun i =>
    (putForward (List.replicate (i + 1) (unit 'p')), .ofRat (100 + i),
      .ofRat (if i = 16 then 50 else 100 + i))

/-- Where the clock was set back, the last proposal is the oldest one, and is cut off. -/
theorem seventeenth_is_cut_off :
    (∀ e ∈ seventeen, Kind.ofContent e.1.content = some .quorum) ∧
    (∃ p ∈ (seventeen.foldl (hears fun e => e.2.1) emptyCircle).ledger.list,
      p.id = List.replicate 17 (unit 'p')) ∧
    ¬∃ p ∈ (seventeen.foldl (hears fun e => e.2.2) emptyCircle).ledger.list,
      p.id = List.replicate 17 (unit 'p') := by
  decide +kernel

end Quorum
