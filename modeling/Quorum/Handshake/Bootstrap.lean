import Quorum.Handshake.Pinned
import Quorum.Store.Invites

/-!
# One user without an invite

On a relay where registration is not open, a new user needs an invite, except for the first one:
`registration_allowed` lets everybody through who finds no user in the store.  Looking and
registering are two calls.  Connections that look before the first of them registers are all let
through, so several users may register without an invite (`two_bootstrap_users`).

`Audit` notes beside a run which claims let somebody through, and which were counted as a use of
their invite.  As long as a connection that finds the store empty is the only one, or all that are
let through like this are for one user (`Alone`), there is one user without a claim
(`one_bootstrap_user`).
-/

namespace Quorum.Handshake

open Store (Bytes Call MemoryInner StoreError RegisterOutcome)
open Store.MemoryStore (Op after claimInviteForRegistration)

/-! ### Notes beside a run -/

abbrev Claim := String × String

local instance lawfulBEqClaim : LawfulBEq Claim := inferInstance

/-- What is noted beside a run. -/
structure Audit where
  /-- The claims of handshakes that let their user through. -/
  granted : List Claim
  /-- The claims that raised the uses of their invite. -/
  counted : List Claim
deriving DecidableEq, Repr

/-- The claim that lets a user through in a step. -/
def grants (s : Relay) : Act → Option Claim
  | .advance i (.called fault now) =>
    match s.conns[i]? with
    | some (.challenged a (.claim _ id)) =>
      match (called fault (claimInviteForRegistration id a.user now) s.inner).1 with
      | .ok true => some (id, a.user)
      | _ => none
    | _ => none
  | _ => none

/-- The new claims, if the uses of the invite went up by one. -/
def counts (inner inner' : MemoryInner) : List Claim :=
  inner'.inviteClaims.filter fun p => p ∉ inner.inviteClaims ∧
    (inner'.invites.get? p.1).any fun record' =>
      (inner.invites.get? p.1).any fun record => record'.uses = record.uses + 1

def note (app : App) (s : Relay) (audit : Audit) (act : Act) : Audit where
  granted := audit.granted ++ (grants s act).toList
  counted := audit.counted ++ counts s.inner (s.step app act).inner

/-- A run from a store, with the notes. -/
def audited (app : App) (start : MemoryInner) (acts : List Act) : Relay × Audit :=
  acts.foldl (noting (Relay.step app) (note app)) (⟨start, []⟩, ⟨[], []⟩)

/-! ### The condition -/

/-- The user that a connection is about to register without a claim. -/
def Conn.exempt : Conn → Option String
  | .challenged a (.register _ none) => some a.user
  | _ => none

/-- The user whose connection learns in a step how many users there are. -/
def counting (s : Relay) : Act → Option String
  | .advance i (.called none _) =>
    match s.conns[i]? with
    | some (.challenged a (.count _)) => some a.user
    | _ => none
  | _ => none

/-- When a connection finds the store empty, all connections that are about to register without a
claim are for the same user. -/
def Alone (s : Relay) (act : Act) : Prop :=
  ∀ user ∈ counting s act, s.inner.users.size = 0 →
    ∀ conn ∈ s.conns, ∀ other ∈ conn.exempt, other = user

instance decidableAlone (s : Relay) (act : Act) : Decidable (Alone s act) :=
  inferInstanceAs (Decidable (∀ user ∈ counting s act, _))

/-! ### Claims in the store -/

variable {app : App} {inner start : MemoryInner} {s : Relay} {audit : Audit}

variable {p : Claim} {act : Act} {boot : Option String}

theorem claims_kept (inner : MemoryInner) (c : Call) (h : p ∈ inner.inviteClaims) :
    p ∈ (after inner c).inviteClaims := by
  rcases Store.MemoryStore.invites_after inner c with ⟨-, -, heq, -⟩ | ⟨_, _, -, -, -, heq, -⟩ |
    ⟨_, _, _, -, -, -, ⟨-, -, heq⟩ | ⟨-, -, -, heq⟩⟩
  -- Only a claim that is counted adds to them.
  all_goals rw [heq]
  · exact h
  · exact h
  · exact h
  · exact List.mem_append_left _ h

/-- **A claim is new to the store only if it is counted.** -/
theorem claims_counted (inner : MemoryInner) (c : Call)
    (h : p ∈ (after inner c).inviteClaims) :
    p ∈ inner.inviteClaims ∨ p ∈ counts inner (after inner c) := by
  rcases Store.MemoryStore.invites_after inner c with ⟨-, -, heq, -⟩ | ⟨_, _, -, -, -, heq, -⟩ |
    ⟨invite, user, record, -, -, hget, ⟨-, -, heq⟩ | ⟨hnew, -, hinv, heq⟩⟩
  · exact .inl (heq ▸ h)
  · exact .inl (heq ▸ h)
  · exact .inl (heq ▸ h)
  · have hmem := h
    rw [heq, List.mem_append, List.mem_singleton] at hmem
    refine hmem.imp id fun hp => List.mem_filter.mpr ⟨h, ?_⟩
    subst hp
    simp [hnew, hinv, hget]

/-- A claim that lets somebody through is in the store afterwards. -/
theorem mem_claims_of_claimed {id user : String} {now : ℕ} {fault : Option (StoreError × Bool)}
    (h : (called fault (claimInviteForRegistration id user now) inner).1 =
      .ok true) :
    (id, user) ∈
      (called fault (claimInviteForRegistration id user now) inner).2.inviteClaims
    := by
  rcases fault with _ | ⟨e, done⟩
  · change (id, user) ∈
      (claimInviteForRegistration id user now inner).2.inviteClaims
    rw [Store.MemoryStore.claimInviteForRegistration_snd]
    have hok := (Store.MemoryStore.claimInviteForRegistration_eq_true inner id user now).mp h
    rcases Store.MemoryStore.redeemInvite_cases inner id user now with ⟨hno, -⟩ |
      ⟨-, record, -, ⟨hmem, -, heq⟩ | ⟨-, -, -, heq⟩⟩
    · rw [hok] at hno
      cases hno
    · rw [heq]
      exact hmem
    · rw [heq]
      exact List.mem_append_right _ (List.mem_singleton.mpr rfl)
  · cases h

/-! ### Who gets to register -/

variable {a : Attempt} {stage : Stage} {e : Event} {sig sig' : Bytes} {claim : Option String}

theorem register_of_exempt {conn : Conn} {user : String} (h : user ∈ conn.exempt) :
    ∃ a sig, conn = .challenged a (.register sig none) := by
  unfold Conn.exempt at h
  split at h
  · exact ⟨_, _, rfl⟩
  · cases h

theorem greet_ne_register {nonce : Nonce} {sent : Bool} (text : Option Text) :
    Conn.greet nonce sent text ≠ .challenged a (.register sig claim) := by
  unfold Conn.greet
  split
  · simp
  · split
    · simp
    · cases sent <;> simp
  · simp

theorem answer_ne_register (text : Option Text) : Stage.answer text ≠ .register sig claim := by
  unfold Stage.answer
  split <;> simp

theorem looked_ne_register (hclosed : app.openRegistration = false)
    (r : Except StoreError (Option Bytes)) : a.looked app sig' r ≠ .register sig claim := by
  cases r with
  | error e => simp [Attempt.looked]
  | ok pinned =>
    unfold Attempt.looked
    rw [hclosed]
    dsimp only
    split
    · cases pinned <;> simp
    · simp

theorem registered_ne_register (r : Except StoreError RegisterOutcome) :
    a.registered sig' r ≠ .register sig claim := by
  unfold Attempt.registered
  split
  · simp
  · split <;> simp
  · simp

/-- The store is found empty. -/
theorem counted_eq_register {r : Except StoreError ℕ}
    (h : a.counted sig' r = .register sig claim) : sig' = sig ∧ claim = none ∧ r = .ok 0 := by
  unfold Attempt.counted at h
  split at h
  · cases h
    exact ⟨rfl, rfl, rfl⟩
  · split at h <;> cases h

theorem claimed_eq_register {id : String} {r : Except StoreError Bool}
    (h : Attempt.claimed sig' id r = .register sig claim) :
    sig' = sig ∧ claim = some id ∧ r = .ok true := by
  unfold Attempt.claimed at h
  split at h
  · cases h
    exact ⟨rfl, rfl, rfl⟩
  · cases h

/-- **A handshake comes to register** from there, or from finding the store empty, or from a claim
that lets its user through. -/
theorem register_of_advance (hclosed : app.openRegistration = false)
    (h : (a.advance app stage e inner).1 = .register sig claim) :
    stage = .register sig claim ∨
      (stage = .count sig ∧ claim = none ∧ (∃ now, e = .called none now) ∧
        inner.users.size = 0) ∨
      ∃ id fault now, stage = .claim sig id ∧ claim = some id ∧ e = .called fault now ∧
        (called fault (claimInviteForRegistration id a.user now) inner).1 =
          .ok true := by
  unfold Attempt.advance at h
  split at h
  · exact absurd h (answer_ne_register _)
  · exact absurd h (looked_ne_register hclosed _)
  · rename_i sig' fault now
    obtain ⟨rfl, rfl, hr⟩ := counted_eq_register h
    rcases fault with _ | ⟨e, done⟩
    · exact .inr (.inl ⟨rfl, rfl, ⟨now, rfl⟩, Except.ok.inj hr⟩)
    · cases hr
  · rename_i sig' id fault now
    obtain ⟨rfl, rfl, hr⟩ := claimed_eq_register h
    exact .inr (.inr ⟨id, fault, now, rfl, rfl, rfl, hr⟩)
  · exact absurd h (registered_ne_register _)
  · rename_i sig' ok
    cases ok <;> cases h
  · exact .inl h

/-- A user who is new to the store is registered by a handshake that came to register. -/
theorem has_advance {user : String} (h : (a.advance app stage e inner).2.users.has user = true) :
    inner.users.has user = true ∨ user = a.user ∧ ∃ sig claim, stage = .register sig claim := by
  rcases inner_advance app a stage e inner with heq | ⟨sig, claim, hstage, heq⟩ | ⟨_, id, now, -, heq⟩
  · exact .inl (heq ▸ h)
  · rcases Store.MemoryStore.users_after inner (.registerUser a.user a.claimedKey) with hsame |
      ⟨user', key, hcall, -, hset⟩
    · rw [heq, hsame] at h
      exact .inl h
    · cases hcall
      rw [heq, hset, Js.Dict.has_iff_mem_keys] at h
      rcases Js.Dict.mem_keys_of_mem_keys_set h with hmem | rfl
      · exact .inl (Js.Dict.has_iff_mem_keys.mpr hmem)
      · exact .inr ⟨rfl, sig, claim, hstage⟩
  · have hframe := (Store.MemoryStore.frame inner
      (.claimInviteForRegistration id a.user now)).users (by simp [Call.touches])
    rw [heq, hframe] at h
    exact .inl h

theorem mem_claims_of_grants (h : p ∈ grants s act) :
    p ∈ (s.step app act).inner.inviteClaims := by
  unfold grants at h
  split at h
  · split at h
    · rename_i i fault now _ a sig id hi
      rw [Relay.step_of_some hi]
      split at h
      · rename_i hr
        cases h
        exact mem_claims_of_claimed hr
      · cases h
    · cases h
  · cases h

/-- Whoever is about to register or is registered has been let through: one user without a claim,
the others with one, which is in the store. -/
structure Admitted (start : MemoryInner) (boot : Option String) (s : Relay) (audit : Audit) :
    Prop where
  exempt : ∀ conn ∈ s.conns, ∀ user ∈ conn.exempt, user ∈ boot
  claimed : ∀ a sig id, .challenged a (.register sig (some id)) ∈ s.conns →
    (id, a.user) ∈ audit.granted
  registered : ∀ user, s.inner.users.has user = true →
    user ∈ boot ∨ ∃ id, (id, user) ∈ audit.granted
  granted : ∀ p ∈ audit.granted, p ∈ s.inner.inviteClaims
  counted : ∀ p ∈ s.inner.inviteClaims, p ∈ start.inviteClaims ∨ p ∈ audit.counted

/-- The claims in the store and the notes about them go together. -/
theorem Admitted.claims_step (h : Admitted start boot s audit) (app : App) (act : Act) :
    (∀ p ∈ (note app s audit act).granted, p ∈ (s.step app act).inner.inviteClaims) ∧
      ∀ p ∈ (s.step app act).inner.inviteClaims,
        p ∈ start.inviteClaims ∨ p ∈ (note app s audit act).counted := by
  have hstep : (∀ p ∈ s.inner.inviteClaims, p ∈ (s.step app act).inner.inviteClaims) ∧
      ∀ p ∈ (s.step app act).inner.inviteClaims,
        p ∈ s.inner.inviteClaims ∨ p ∈ counts s.inner (s.step app act).inner := by
    rcases inner_step app s act with heq | ⟨c, heq⟩ <;> rw [heq]
    · exact ⟨fun p hp => hp, fun p hp => .inl hp⟩
    · exact ⟨fun p => claims_kept s.inner c, fun p => claims_counted s.inner c⟩
  constructor
  · intro p hp
    rcases List.mem_append.mp hp with hold | hnew
    · exact hstep.1 p (h.granted p hold)
    · exact mem_claims_of_grants (Option.mem_toList.mp hnew)
  · intro p hp
    rcases hstep.2 p hp with hold | hnew
    · exact (h.counted p hold).imp id fun hc => List.mem_append_left _ hc
    · exact .inr (List.mem_append_right _ hnew)

/-- A step that brings no connection to register. -/
theorem Admitted.of_conns (h : Admitted start boot s audit)
    (hexempt : ∀ conn ∈ (s.step app act).conns, ∀ user ∈ conn.exempt, user ∈ boot)
    (hclaimed : ∀ a sig id, .challenged a (.register sig (some id)) ∈ (s.step app act).conns →
      .challenged a (.register sig (some id)) ∈ s.conns ∨ (id, a.user) ∈ grants s act)
    (hregistered : ∀ user, (s.step app act).inner.users.has user = true →
      s.inner.users.has user = true ∨ user ∈ boot ∨ ∃ id, (id, user) ∈ audit.granted) :
    Admitted start boot (s.step app act) (note app s audit act) := by
  obtain ⟨hgranted, hcounted⟩ := h.claims_step app act
  refine ⟨hexempt, fun a sig id hmem => ?_, fun user huser => ?_, hgranted, hcounted⟩
  · rcases hclaimed a sig id hmem with hold | hnew
    · exact List.mem_append_left _ (h.claimed a sig id hold)
    · exact List.mem_append_right _ (Option.mem_toList.mpr hnew)
  · have hor : user ∈ boot ∨ ∃ id, (id, user) ∈ audit.granted :=
      (hregistered user huser).elim (h.registered user) id
    exact hor.imp_right fun ⟨id, hid⟩ => ⟨id, List.mem_append_left _ hid⟩

/-- A connection goes on before its challenge. -/
theorem Admitted.early (h : Admitted start boot s audit) {i : ℕ}
    {conn : Conn} (hi : s.conns[i]? = some conn) (hinner : (conn.advance app e s.inner).2 = s.inner)
    (hstage : ∀ a sig claim, (conn.advance app e s.inner).1 ≠ .challenged a (.register sig claim)) :
    Admitted start boot (s.step app (.advance i e)) (note app s audit (.advance i e)) := by
  have hset {c : Conn} (hc : c ∈ (s.step app (.advance i e)).conns) :
      c ∈ s.conns ∨ c = (conn.advance app e s.inner).1 := by
    rw [Relay.step_of_some hi] at hc
    exact List.mem_or_eq_of_mem_set hc
  refine h.of_conns (fun c hc user huser => ?_) (fun a sig id hc => ?_) fun user huser => ?_
  · rcases hset hc with hold | hnew
    · exact h.exempt c hold user huser
    · obtain ⟨a, sig, heq⟩ := register_of_exempt huser
      exact absurd (hnew.symm.trans heq) (hstage a sig none)
  · exact .inl ((hset hc).resolve_right fun heq => hstage a sig _ heq.symm)
  · rw [Relay.step_of_some hi, hinner] at huser
    exact .inl huser

/-- A handshake goes on, and does not find the store empty. -/
theorem Admitted.advance (h : Admitted start boot s audit)
    (hclosed : app.openRegistration = false) {i : ℕ} (hi : s.conns[i]? = some (.challenged a stage))
    (hnot : ∀ sig, stage = .count sig → (a.advance app stage e s.inner).1 ≠ .register sig none) :
    Admitted start boot (s.step app (.advance i e)) (note app s audit (.advance i e)) := by
  have hmem : .challenged a stage ∈ s.conns := List.mem_of_getElem? hi
  have hset {conn : Conn} (hconn : conn ∈ (s.step app (.advance i e)).conns) :
      conn ∈ s.conns ∨ conn = .challenged a (a.advance app stage e s.inner).1 := by
    rw [Relay.step_of_some hi] at hconn
    exact List.mem_or_eq_of_mem_set hconn
  refine h.of_conns (fun conn hconn user huser => ?_) (fun a' sig id hconn => ?_) fun user huser => ?_
  · rcases hset hconn with hold | rfl
    · exact h.exempt conn hold user huser
    · -- Who is about to register without a claim was so before, as the store is not found empty.
      cases hr : (a.advance app stage e s.inner).1 with
      | register sig claim =>
        rw [hr] at huser
        cases claim with
        | none =>
          rcases register_of_advance hclosed hr with rfl | ⟨rfl, -, -, -⟩ | ⟨_, _, _, -, hclaim, -⟩
          · exact h.exempt _ hmem user huser
          · exact absurd hr (hnot sig rfl)
          · cases hclaim
        | some id => cases huser
      | _ =>
        rw [hr] at huser
        cases huser
  · rcases hset hconn with hold | heq
    · exact .inl hold
    · obtain ⟨rfl, hr⟩ := Conn.challenged.inj heq
      rcases register_of_advance hclosed hr.symm with rfl | ⟨-, hclaim, -⟩ |
        ⟨id', fault, now, rfl, hclaim, rfl, hok⟩
      · exact .inl hmem
      · cases hclaim
      · obtain rfl := Option.some.inj hclaim
        refine .inr ?_
        simp only [grants, hi, hok]
        rfl
  · rw [Relay.step_of_some hi] at huser
    rcases has_advance huser with hold | ⟨rfl, sig, claim, rfl⟩
    · exact .inl hold
    · cases claim with
      | none => exact .inr (.inl (h.exempt _ hmem a.user rfl))
      | some id => exact .inr (.inr ⟨id, h.claimed a sig id hmem⟩)

/-- A connection finds the store empty: there is no other user who was let through like this. -/
theorem Admitted.bootstrap (h : Admitted start boot s audit)
    {i now : ℕ} (hi : s.conns[i]? = some (.challenged a (.count sig)))
    (hempty : s.inner.users.size = 0) (hok : Alone s (.advance i (.called none now))) :
    Admitted start (some a.user) (s.step app (.advance i (.called none now)))
      (note app s audit (.advance i (.called none now))) := by
  have hcounting : a.user ∈ counting s (.advance i (.called none now)) := by
    simp only [counting, hi]
    rfl
  have hsame : (s.step app (.advance i (.called none now))).inner = s.inner := by
    rw [Relay.step_of_some hi]
    rfl
  have hset {conn : Conn} (hconn : conn ∈ (s.step app (.advance i (.called none now))).conns) :
      conn ∈ s.conns ∨ conn = .challenged a (.register sig none) := by
    rw [Relay.step_of_some hi] at hconn
    have hstage : (a.advance app (.count sig) (.called none now) s.inner).1 = .register sig none := by
      change a.counted sig (.ok s.inner.users.size) = _
      rw [hempty]
      rfl
    exact (List.mem_or_eq_of_mem_set hconn).imp_right fun heq => by rw [heq, Conn.advance, hstage]
  have hnobody : Admitted start (some a.user) s audit :=
    { h with
      exempt := fun conn hconn user huser =>
        Option.mem_some.mpr (hok a.user hcounting hempty conn hconn user huser).symm
      registered := fun user huser => by
        rw [Js.Dict.has_of_size hempty] at huser
        cases huser }
  refine hnobody.of_conns (fun conn hconn user huser => ?_) (fun a' sig' id hconn => ?_)
    fun user huser => ?_
  · rcases hset hconn with hold | rfl
    · exact hnobody.exempt conn hold user huser
    · exact huser
  · exact .inl ((hset hconn).resolve_right fun heq => by cases heq)
  · rw [hsame] at huser
    exact .inl huser

/-- **Every step lets at most one user through without a claim.** -/
theorem Admitted.step (hclosed : app.openRegistration = false) (hok : Alone s act)
    (h : ∃ boot, Admitted start boot s audit) :
    ∃ boot, Admitted start boot (s.step app act) (note app s audit act) := by
  obtain ⟨boot, h⟩ := h
  cases act with
  | accept =>
    refine ⟨boot, h.of_conns (fun conn hconn user huser => ?_) (fun a sig id hconn => ?_)
      fun user huser => .inl huser⟩
    · rcases List.mem_append.mp hconn with hold | hnew
      · exact h.exempt conn hold user huser
      -- A new connection has not said hello yet.
      · rw [List.mem_singleton.mp hnew] at huser
        cases huser
    · rcases List.mem_append.mp hconn with hold | hnew
      · exact .inl hold
      · cases List.mem_singleton.mp hnew
  | other c hc =>
    refine ⟨boot, h.of_conns h.exempt (fun a sig id hconn => .inl hconn) fun user huser => ?_⟩
    change (after s.inner c).users.has user = true at huser
    rw [(Store.MemoryStore.frame s.inner c).users hc] at huser
    exact .inl huser
  | advance i e =>
    cases hi : s.conns[i]? with
    | none =>
      refine ⟨boot, h.of_conns ?_ ?_ ?_⟩ <;> rw [Relay.step_of_none hi]
      · exact h.exempt
      · exact fun a sig id hconn => .inl hconn
      · exact fun user huser => .inl huser
    | some conn =>
      cases conn with
      | hello =>
        refine ⟨boot, h.early hi ?_ ?_⟩
        · cases e <;> rfl
        · intro a sig claim
          cases e with
          | hello text nonce sent => exact greet_ne_register text
          | _ => exact Conn.noConfusion
      | refused => exact ⟨boot, h.early hi rfl fun _ _ _ => Conn.noConfusion⟩
      | challenged a stage =>
        by_cases hfirst : ∃ sig, stage = .count sig ∧
            (a.advance app stage e s.inner).1 = .register sig none
        · obtain ⟨sig, rfl, hr⟩ := hfirst
          rcases register_of_advance hclosed hr with hstage | ⟨-, -, ⟨now, rfl⟩, hempty⟩ |
            ⟨_, _, _, hstage, -⟩
          · cases hstage
          · exact ⟨some a.user, h.bootstrap hi hempty hok⟩
          · cases hstage
        · exact ⟨boot, h.advance hclosed hi fun sig hstage hr => hfirst ⟨sig, hstage, hr⟩⟩

/-- **A relay that is not open has one user without an invite.**  Everybody else who is registered
was let through with a claim of their own, which is in the store and was counted as a use, in this
run or before it. -/
theorem one_bootstrap_user (app : App) (hclosed : app.openRegistration = false)
    (start : MemoryInner) (hempty : start.users.size = 0) (acts : List Act)
    (h : Along (Relay.step app) Alone ⟨start, []⟩ acts) :
    let r := audited app start acts
    ∃ boot : Option String, ∀ user, r.1.inner.users.has user = true → user ∉ boot →
      ∃ id, (id, user) ∈ r.2.granted ∧ (id, user) ∈ r.1.inner.inviteClaims ∧
        ((id, user) ∈ start.inviteClaims ∨ (id, user) ∈ r.2.counted) := by
  intro r
  have hstart : Admitted start none ⟨start, []⟩ ⟨[], []⟩ := by
    refine ⟨fun _ hconn => ?_, fun _ _ _ hconn => ?_, fun user huser => ?_, fun _ hp => ?_,
      fun _ hp => .inl hp⟩
    · cases hconn
    · cases hconn
    · rw [Js.Dict.has_of_size hempty] at huser
      cases huser
    · cases hp
  obtain ⟨boot, hrun⟩ : ∃ boot, Admitted start boot r.1 r.2 :=
    Along.preserves (P := fun p : Relay × Audit => ∃ boot, Admitted start boot p.1 p.2)
      (fun p act hp hok => Admitted.step hclosed hok hp) (Along.noting _ (note app) h) ⟨none, hstart⟩
  refine ⟨boot, fun user huser hboot => ?_⟩
  obtain ⟨id, hid⟩ := (hrun.registered user huser).resolve_left hboot
  exact ⟨id, hid, hrun.granted _ hid, hrun.counted _ (hrun.granted _ hid)⟩

/-- A relay where new users need an invite. -/
def closedRelay : App := { ed := plain, openRegistration := false, admins := [] }

/-- The answers of two users, who have no key yet; one has an invite. -/
def twoAnswers (invite : Option String) : List Act :=
  [.accept, .accept,
    .advance 0 (.hello (some (.hello ⟨"alice@quorum.io", some (.replicate 32 1), none⟩))
      (.replicate 32 1) true),
    .advance 1 (.hello (some (.hello ⟨"bobby@quorum.io", some (.replicate 32 2), invite⟩))
      (.replicate 32 2) true),
    .advance 0 (.auth (some (.auth (some (signed (.replicate 32 1) "alice@quorum.io"))))),
    .advance 1 (.auth (some (.auth (some (signed (.replicate 32 2) "bobby@quorum.io"))))),
    .advance 0 (.called none 0), .advance 1 (.called none 0)]

/-- One user registers, makes a link, and the other registers with it. -/
def oneThenInvite : List Act :=
  twoAnswers (some "link") ++
    [.advance 0 (.called none 0), .advance 0 (.called none 0),
      .other (.createGroup "circle" "alice@quorum.io") (by decide),
      .other (.createInvite "link" Store.MemoryStore.singleUse) (by decide),
      .advance 1 (.called none 0), .advance 1 (.called none 0), .advance 1 (.called none 0)]

theorem second_user_counted :
    let r := audited closedRelay .empty oneThenInvite
    r.1.inner.users.keys = ["alice@quorum.io", "bobby@quorum.io"] ∧
      ∃ boot : Option String, ∀ user, r.1.inner.users.has user = true → user ∉ boot →
        ∃ id, (id, user) ∈ r.2.granted ∧ (id, user) ∈ r.1.inner.inviteClaims ∧
          ((id, user) ∈ MemoryInner.empty.inviteClaims ∨ (id, user) ∈ r.2.counted) :=
  ⟨by decide +kernel, one_bootstrap_user closedRelay rfl .empty rfl oneThenInvite (by decide +kernel)⟩

/-- Both users find the store empty before one of them registers. -/
def raceToBootstrap : List Act :=
  twoAnswers none ++
    [.advance 0 (.called none 0), .advance 1 (.called none 0),
      .advance 0 (.called none 0), .advance 1 (.called none 0)]

/-- Two users are registered, and no claim was made at all. -/
theorem two_bootstrap_users :
    let r := audited closedRelay .empty raceToBootstrap
    r.1.inner.users.keys = ["alice@quorum.io", "bobby@quorum.io"] ∧ r.2 = ⟨[], []⟩ ∧
      r.1.inner.inviteClaims = [] := by
  decide +kernel

end Quorum.Handshake
