import Quorum.Store.Steps

/-!
# Counting the uses of an invite

An invite may be redeemed a number of times, and a use is counted the first time a user claims it:
the join flow presents the same invite twice.  Who has claimed an invite is remembered under its id
(`invite_claims`), and is not forgotten when the invite is revoked or its group is deleted.  So
under an id that is used again, those who claimed the earlier invite get past the gate uncounted.

`served` notes beside a run who got past the gate of each invite since its record was made.  In
every run in which the invites that are made start at no uses, under ids nobody has claimed,
`uses` is the number of those users (`uses_count_users`).
-/

namespace Quorum.Store.MemoryStore

open Js (Dict)

/-! ### Notes beside a run -/

variable (inner : MemoryInner)

/-- Who gets past the gate of which invite with a call. -/
def passed : Call → Option (String × String)
  | .redeemInvite invite user now =>
    if (redeemInvite invite user now inner).1.isOk then some (invite, user) else none
  | .claimInviteForRegistration invite user now =>
    match (claimInviteForRegistration invite user now inner).1 with
    | .ok true => some (invite, user)
    | _ => none
  | _ => none

/-- The invite a call makes. -/
def made : Call → Option String
  | .createInvite invite record =>
    if inner.groups.has record.group && !inner.invites.has invite then some invite else none
  | _ => none

/-- Who got past the gate of each invite since its record was made. -/
def served (users : String → Finset String) (c : Call) : String → Finset String :=
  match made inner c, passed inner c with
  | some invite, _ => Function.update users invite ∅
  | none, some (invite, user) => Function.update users invite (insert user (users invite))
  | none, none => users

/-- A run with these notes. -/
def audited (calls : List Call) : MemoryInner × (String → Finset String) :=
  calls.foldl (noting after served) (.empty, fun _ => ∅)

/-! ### What a call does to invites -/

/-- Somebody gets past the gate of an invite: they have claimed it before and nothing is counted, or
a use is counted that was left. -/
def Admits (inner inner' : MemoryInner) (invite user : String) (record : InviteRecord) : Prop :=
  ((invite, user) ∈ inner.inviteClaims ∧ inner'.invites = inner.invites.set invite record ∧
      inner'.inviteClaims = inner.inviteClaims) ∨
    (invite, user) ∉ inner.inviteClaims ∧ (∀ m ∈ record.maxUses, record.uses < m) ∧
      inner'.invites = inner.invites.set invite { record with uses := record.uses + 1 } ∧
      inner'.inviteClaims = inner.inviteClaims ++ [(invite, user)]

/-- **Redeeming an invite** is refused and changes nothing, or gets the user past its gate. -/
theorem redeemInvite_cases (invite user : String) (now : ℕ) :
    ((redeemInvite invite user now inner).1.isOk = false ∧
        (redeemInvite invite user now inner).2 = inner) ∨
      (redeemInvite invite user now inner).1.isOk = true ∧
        ∃ record, inner.invites.get? invite = some record ∧
          Admits inner (redeemInvite invite user now inner).2 invite user record := by
  simp only [redeemInvite]
  cases hget : inner.invites.get? invite with
  | none => exact .inl ⟨rfl, rfl⟩
  | some record =>
    dsimp only
    split
    · exact .inl ⟨rfl, rfl⟩
    · split
      · exact .inl ⟨rfl, rfl⟩
      · rename_i hroom
        refine .inr ⟨rfl, record, rfl, ?_⟩
        by_cases hmem : (invite, user) ∈ inner.inviteClaims
        · have hany : inner.inviteClaims.any (· == (invite, user)) = true := by simpa using hmem
          exact .inl ⟨hmem, by simp [hmem], if_pos hany⟩
        · have hany : ¬inner.inviteClaims.any (· == (invite, user)) = true := by simpa using hmem
          refine .inr ⟨hmem, fun m hm => ?_, by simp [hmem], if_neg hany⟩
          simpa [hmem, Option.mem_def.mp hm] using hroom

/-- A call at the gate, in terms of redeeming. -/
theorem passed_claim (invite user : String) (now : ℕ) :
    passed inner (.claimInviteForRegistration invite user now) =
      passed inner (.redeemInvite invite user now) := by
  have htrue := claimInviteForRegistration_eq_true inner invite user now
  simp only [passed]
  split
  · rename_i h
    rw [if_pos (htrue.mp h)]
  · rename_i h
    rw [if_neg fun hok => h (htrue.mpr hok)]

/-- Every record is there already, with the same uses and the same limit. -/
def Keeps (inner inner' : MemoryInner) : Prop :=
  ∀ invite record', inner'.invites.get? invite = some record' →
    ∃ record, inner.invites.get? invite = some record ∧ record'.uses = record.uses ∧
      record'.maxUses = record.maxUses

/-- **What a call does to invites and claims.**  Invites go or get another payload; or one is made
under an id that is free; or somebody gets past the gate. -/
theorem invites_after (c : Call) :
    (made inner c = none ∧ passed inner c = none ∧
        (after inner c).inviteClaims = inner.inviteClaims ∧ Keeps inner (after inner c)) ∨
      (∃ invite record, c = .createInvite invite record ∧ made inner c = some invite ∧
        inner.invites.has invite = false ∧ (after inner c).inviteClaims = inner.inviteClaims ∧
        (after inner c).invites = inner.invites.set invite record) ∨
      ∃ invite user record, made inner c = none ∧ passed inner c = some (invite, user) ∧
        inner.invites.get? invite = some record ∧
        Admits inner (after inner c) invite user record := by
  have hsame : Keeps inner inner := fun _ record h => ⟨record, h, rfl, rfl⟩
  -- both ways past the gate redeem the invite
  have hredeem (invite user : String) (now : ℕ) :
      (passed inner (.redeemInvite invite user now) = none ∧
          (redeemInvite invite user now inner).2 = inner) ∨
        ∃ record, passed inner (.redeemInvite invite user now) = some (invite, user) ∧
          inner.invites.get? invite = some record ∧
          Admits inner (redeemInvite invite user now inner).2 invite user record := by
    rcases redeemInvite_cases inner invite user now with ⟨hno, heq⟩ | ⟨hok, record, hget, h⟩
    · exact .inl ⟨by simp only [passed, hno]; rfl, heq⟩
    · exact .inr ⟨record, if_pos hok, hget, h⟩
  have hframe := frame inner c
  cases c with
  | createInvite invite record =>
    cases hgroup : inner.groups.has record.group with
    | false =>
      have heq : after inner (.createInvite invite record) = inner := by
        simp [after, call, answering, createInvite, hgroup]
      rw [heq]
      exact .inl ⟨by simp [made, hgroup], rfl, rfl, hsame⟩
    | true =>
      have heq : (after inner (.createInvite invite record)).invites =
          inner.invites.setNew (invite, record) := by
        simp [after, call, answering, createInvite, hgroup]
      cases hhas : inner.invites.has invite with
      | true =>
        -- the record under an id that is taken stays
        refine .inl ⟨by simp [made, hhas], rfl, hframe.claims (by simp [Call.touches]), ?_⟩
        rw [Keeps, heq, Dict.setNew, if_pos hhas]
        exact hsame
      | false =>
        refine .inr (.inl ⟨invite, record, rfl, by simp [made, hgroup, hhas], hhas,
          hframe.claims (by simp [Call.touches]), ?_⟩)
        rw [heq, Dict.setNew, if_neg (by simp [hhas])]
  | updateInvite invite payload =>
    refine .inl ⟨rfl, rfl, hframe.claims (by simp [Call.touches]), fun other record' h => ?_⟩
    cases hget : inner.invites.get? invite with
    | none =>
      simp only [after, call, answering, updateInvite, hget] at h
      exact ⟨record', h, rfl, rfl⟩
    | some record =>
      simp only [after, call, answering, updateInvite, hget] at h
      rcases Dict.get?_set_cases h with ⟨rfl, rfl⟩ | ⟨-, h⟩
      · exact ⟨record, hget, rfl, rfl⟩
      · exact ⟨record', h, rfl, rfl⟩
  | revokeInvite invite =>
    refine .inl ⟨rfl, rfl, hframe.claims (by simp [Call.touches]), fun other record h => ?_⟩
    exact ⟨record, Dict.get?_of_delete h, rfl, rfl⟩
  | deleteGroup group =>
    refine .inl ⟨rfl, rfl, hframe.claims (by simp [Call.touches]), fun other record h => ?_⟩
    exact ⟨record, Dict.get?_of_filter h, rfl, rfl⟩
  | redeemInvite invite user now =>
    rcases hredeem invite user now with ⟨hnone, heq⟩ | ⟨record, hsome, hget, h⟩
    · have hafter : after inner (.redeemInvite invite user now) = inner := heq
      rw [hafter]
      exact .inl ⟨rfl, hnone, rfl, hsame⟩
    · exact .inr (.inr ⟨invite, user, record, rfl, hsome, hget, h⟩)
  | claimInviteForRegistration invite user now =>
    have hafter : after inner (.claimInviteForRegistration invite user now) =
        (redeemInvite invite user now inner).2 := claimInviteForRegistration_snd ..
    rw [hafter, passed_claim]
    rcases hredeem invite user now with ⟨hnone, heq⟩ | ⟨record, hsome, hget, h⟩
    · rw [heq]
      exact .inl ⟨rfl, hnone, rfl, hsame⟩
    · exact .inr (.inr ⟨invite, user, record, rfl, hsome, hget, h⟩)
  | _ =>
    refine .inl ⟨rfl, rfl, hframe.claims (by simp [Call.touches]), fun invite record h => ?_⟩
    rw [hframe.invites (by simp [Call.touches])] at h
    exact ⟨record, h, rfl, rfl⟩

/-! ### The count -/

/-- The uses of each record are those who claimed its invite, and those who got past its gate. -/
def Accounted (users : String → Finset String) : Prop :=
  ∀ invite record, inner.invites.get? invite = some record →
    (∀ user, user ∈ users invite ↔ (invite, user) ∈ inner.inviteClaims) ∧
      record.uses = (users invite).card ∧ ∀ m ∈ record.maxUses, record.uses ≤ m

/-- The invite that a call asks for. -/
def newInvite : Call → Option (String × InviteRecord)
  | .createInvite invite record => some (invite, record)
  | _ => none

/-- An invite that is made starts at no uses, under an id that nobody has claimed. -/
def FreshInvite (c : Call) : Prop :=
  ∀ p ∈ newInvite c, inner.invites.has p.1 = true ∨
    (p.2.uses = 0 ∧ ∀ claim ∈ inner.inviteClaims, claim.1 ≠ p.1)

instance decidableFreshInvite (c : Call) : Decidable (FreshInvite inner c) :=
  inferInstanceAs (Decidable (∀ p ∈ newInvite c, _))

variable {inner} {users : String → Finset String}

theorem Accounted.pass {inner' : MemoryInner} {invite user : String} {record : InviteRecord}
    (h : Accounted inner users) (hget : inner.invites.get? invite = some record)
    (hgate : Admits inner inner' invite user record) :
    Accounted inner' (Function.update users invite (insert user (users invite))) := by
  obtain ⟨hclaims, huses, hmax⟩ := h invite record hget
  intro other record' hget'
  rcases hgate with ⟨hmem, hinv, hcl⟩ | ⟨hmem, hroom, hinv, hcl⟩
  · have hin : insert user (users invite) = users invite :=
      Finset.insert_eq_of_mem ((hclaims user).mpr hmem)
    rw [hin, Function.update_eq_self, hcl]
    rw [hinv] at hget'
    rcases Dict.get?_set_cases hget' with ⟨rfl, rfl⟩ | ⟨-, hget'⟩
    · exact ⟨hclaims, huses, hmax⟩
    · exact h other record' hget'
  · have hnot : user ∉ users invite := fun hin => hmem ((hclaims user).mp hin)
    rw [hinv] at hget'
    rcases Dict.get?_set_cases hget' with ⟨rfl, rfl⟩ | ⟨hne, hget'⟩
    · rw [Function.update_self, Finset.card_insert_of_notMem hnot, hcl]
      refine ⟨fun u => ?_, congrArg (· + 1) huses, fun m hm => hroom m hm⟩
      rw [Finset.mem_insert, hclaims u, List.mem_append, List.mem_singleton, Prod.mk.injEq, or_comm]
      simp
    · obtain ⟨hc, hu, hm⟩ := h other record' hget'
      rw [Function.update_of_ne hne.symm, hcl]
      refine ⟨fun u => ?_, hu, hm⟩
      rw [hc u, List.mem_append, List.mem_singleton, Prod.mk.injEq]
      simp [hne.symm]

/-- **Every call keeps the count**, if an invite it makes is fresh. -/
theorem Accounted.step (h : Accounted inner users) {c : Call} (hfresh : FreshInvite inner c) :
    Accounted (after inner c) (served inner users c) := by
  rcases invites_after inner c with ⟨hmade, hpassed, hclaims, hkeeps⟩ |
    ⟨invite, record, rfl, hmade, hfree, hclaims, hinv⟩ |
    ⟨invite, user, record, hmade, hpassed, hget, hgate⟩
  · intro invite record' hget'
    obtain ⟨record, hget, huses, hmax⟩ := hkeeps invite record' hget'
    rw [served, hmade, hpassed, hclaims, huses, hmax]
    exact h invite record hget
  · obtain ⟨hzero, hclaim⟩ : record.uses = 0 ∧ ∀ claim ∈ inner.inviteClaims, claim.1 ≠ invite :=
      (hfresh (invite, record) rfl).resolve_left (by simp [hfree])
    intro other record' hget'
    rw [served, hmade, hclaims]
    rw [hinv] at hget'
    rcases Dict.get?_set_cases hget' with ⟨rfl, rfl⟩ | ⟨hne, hget'⟩
    · dsimp only
      rw [Function.update_self, Finset.card_empty, hzero]
      refine ⟨fun user => ?_, rfl, fun m _ => Nat.zero_le m⟩
      exact ⟨fun hin => absurd hin (Finset.notMem_empty user), fun hin => absurd rfl (hclaim _ hin)⟩
    · dsimp only
      rw [Function.update_of_ne hne.symm]
      exact h other record' hget'
  · rw [served, hmade, hpassed]
    exact h.pass hget hgate

/-- **The uses of an invite count its users.**  In a run in which every invite that is made is
fresh, the uses of a record are the users who got past its gate since it was made, they are at most
its limit, and whoever gets past the gate is one of them or is counted now. -/
theorem uses_count_users (calls : List Call) (h : Along after FreshInvite .empty calls)
    (invite : String) (record : InviteRecord)
    (hget : (audited calls).1.invites.get? invite = some record) :
    record.uses = ((audited calls).2 invite).card ∧ (∀ m ∈ record.maxUses, record.uses ≤ m) ∧
      ∀ c user, passed (audited calls).1 c = some (invite, user) →
        user ∈ (audited calls).2 invite ∨
          (after (audited calls).1 c).invites.get? invite =
            some { record with uses := record.uses + 1 } := by
  have hstart : Accounted (.empty : MemoryInner) fun _ => ∅ := fun _ _ hnone => nomatch hnone
  have hrun : Accounted (audited calls).1 (audited calls).2 :=
    Along.preserves (P := fun p : MemoryInner × (String → Finset String) => Accounted p.1 p.2)
      (fun p c hp hok => hp.step hok) (Along.noting after served h) hstart
  obtain ⟨hclaims, huses, hmax⟩ := hrun invite record hget
  refine ⟨huses, hmax, fun c user hpass => ?_⟩
  rcases invites_after (audited calls).1 c with ⟨-, hnone, -⟩ | ⟨_, _, rfl, -⟩ |
    ⟨invite', user', record', -, hpass', hget', hgate⟩
  · rw [hpass] at hnone
    cases hnone
  · cases hpass
  · rw [hpass] at hpass'
    cases hpass'
    rw [hget] at hget'
    cases hget'
    rcases hgate with ⟨hmem, -⟩ | ⟨-, -, hinv, -⟩
    · exact .inl ((hclaims user).mpr hmem)
    · exact .inr (by rw [hinv, Dict.get?_set_self])

/-- A link to a group, for one use. -/
def singleUse : InviteRecord :=
  { group := "circle", payload := [], expiresAt := none, maxUses := some 1, uses := 0 }

/-- Somebody joins with a link. -/
def joinOnce : List Call :=
  [.createGroup "circle" "alice", .createInvite "link" singleUse,
    .claimInviteForRegistration "link" "bob" 0, .redeemInvite "link" "bob" 0]

theorem link_counts_once :
    ((audited joinOnce).1.invites.get? "link").map (·.uses) =
        some ((audited joinOnce).2 "link").card ∧
      ((audited joinOnce).2 "link").card = 1 := by
  have hget : (audited joinOnce).1.invites.get? "link" = some { singleUse with uses := 1 } := by
    decide +kernel
  have h := uses_count_users joinOnce (by decide +kernel) "link" _ hget
  rw [hget, ← h.1]
  exact ⟨rfl, rfl⟩

/-- The link is revoked, and one with the same id is made. -/
def reusedId : List Call :=
  joinOnce ++ [.revokeInvite "link", .createInvite "link" singleUse, .redeemInvite "link" "bob" 0]

/-- Who claimed a revoked link gets past the gate of the next one with its id, uncounted. -/
theorem revoked_claim_passes :
    ((audited reusedId).1.invites.get? "link").map (·.uses) = some 0 ∧
      (audited reusedId).2 "link" = {"bob"} := by
  decide +kernel

end Quorum.Store.MemoryStore
