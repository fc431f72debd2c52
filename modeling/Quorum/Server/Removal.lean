import Quorum.Server.Steps

/-!
# A removal sticks

Somebody who was removed from a group comes back when an admin allows them, or with an invite, each
use of which is counted.  `redeem_invite` counts once for a user and an invite: a link is shown
twice on the way in, and the second time must not count.  It does not ask what has happened in
between.  A link that was spent on the way in opens the group again after a removal, as often as
one likes (`spent_link_readmits`).

A removal sticks in every run in which the user does not redeem a link again that they had claimed
before it, and had not redeemed one without having joined yet (`removal_sticks`).
-/

namespace Quorum

namespace Server

variable {π : Type} {admins : List String} {s : App π} {full : ℕ → Bool} {c rid now : ℕ}

/-! ### Ways in -/

/-- The step in which a `Disallow` takes a user out of the members. -/
def App.Removes (s : App π) (group user : String) : Action π → Prop
  | .advance c _ _ => ∃ rid, (s.conns c).task = some (rid, .disallowing group user)
  | _ => False

/-- The step in which the `Allow` of an admin succeeds. -/
def App.Allows (s : App π) (group user : String) : Action π → Prop
  | .advance c _ _ =>
    s.store.has group = true ∧ ∃ rid, (s.conns c).task = some (rid, .allowing group user)
  | _ => False

/-- The invite that a handler is about to redeem. -/
def Task.redeems : Task π → Option String
  | .start (.redeemInvite invite) => some invite
  | _ => none

@[inherit_doc Task.redeems]
def Conn.redeems (conn : Conn π) : Option String := conn.task.bind fun t => t.2.redeems

/-- The step in which a user redeems an invite of a group. -/
def App.Redeems (s : App π) (invite user group : String) : Action π → Prop
  | .advance c _ now =>
    (s.conns c).user = user ∧ (s.conns c).redeems = some invite ∧
      (s.store.redeemable invite user now).toOption.any (·.group = group) = true
  | _ => False

instance App.Redeems.decidable (s : App π) (invite user group : String) :
    (a : Action π) → Decidable (s.Redeems invite user group a)
  | .advance c _ now => inferInstanceAs (Decidable
      ((s.conns c).user = user ∧ (s.conns c).redeems = some invite ∧
        (s.store.redeemable invite user now).toOption.any (·.group = group) = true))
  | .claim .. | .connect .. | .request .. | .recv .. | .write .. | .stop .. | .close .. =>
    inferInstanceAs (Decidable False)

/-- A use of an invite is counted for a user, and there was one left. -/
def Counts (invite user : String) (s s' : App π) : Prop :=
  (invite, user) ∉ s.store.claims ∧
    ∃ old, s.store.invites invite = some old ∧ (∀ m ∈ old.maxUses, old.uses < m) ∧
      s'.store.invites invite = some { old with uses := old.uses + 1 }

/-- The group that a handler is about to join. -/
def Task.joins : Task π → Option String
  | .joining _ group _ => some group
  | _ => none

@[inherit_doc Task.joins]
def Conn.joins (conn : Conn π) : Option String := conn.task.bind fun t => t.2.joins

/-- A user does not redeem an invite of the group that is among those they have spent. -/
def App.NoneSpent (spent : List (String × String)) (group user : String) (s : App π) (a : Action π) :
    Prop :=
  ∀ p ∈ spent, p.2 = user → ¬s.Redeems p.1 user group a

instance App.NoneSpent.decidable (spent : List (String × String)) (group user : String) (s : App π)
    (a : Action π) : Decidable (s.NoneSpent spent group user a) :=
  inferInstanceAs (Decidable (∀ p ∈ spent, p.2 = user → ¬s.Redeems p.1 user group a))

/-! ### Claims -/

/-- The first claim of a user counts. -/
theorem counts_of_redeemable {invite user : String} {record : InviteRecord π}
    (h : s.store.redeemable invite user now = .ok record) (hfirst : (invite, user) ∉ s.store.claims)
    {s' : App π} (hs : s'.store = s.store.redeem invite user record) : Counts invite user s s' := by
  unfold Store.redeemable at h
  split at h
  · cases h
  · next old hold =>
    rw [if_neg hfirst] at h
    split at h
    · cases h
    · split at h
      · cases h
      · next hleft =>
        cases h
        refine ⟨hfirst, old, hold, fun m hm => ?_, ?_⟩
        · rw [Option.mem_def.mp hm] at hleft
          simpa using hleft
        · rw [hs]
          exact Function.update_self ..

/-- Claims are made by redeeming. -/
theorem claims_perform {sec : Section π} {p : String × String}
    (h : p ∈ (s.perform full sec).store.claims) :
    p ∈ s.store.claims ∨ ∃ record, sec = .redeem p.1 p.2 record := by
  cases sec with
  | redeem invite user record =>
    rcases List.mem_cons.mp h with rfl | h
    · exact .inr ⟨record, rfl⟩
    · exact .inl h
  | allowMember group user =>
    dsimp only [App.perform, App.setStore, Store.allowMember] at h
    split at h <;> exact .inl h
  | deliver recipient sender group after payload =>
    dsimp only [App.perform, App.deliver] at h
    split at h <;> exact .inl h
  | _ => exact .inl h

/-- **Who has claimed an invite has been counted.** -/
theorem claims_step {a : Action π} {invite user : String}
    (h : (invite, user) ∈ (s.step admins a).store.claims) :
    (invite, user) ∈ s.store.claims ∨ Counts invite user s (s.step admins a) := by
  by_cases hold : (invite, user) ∈ s.store.claims
  · exact .inl hold
  right
  have hcase := step_case admins s a
  generalize s.step admins a = s' at h hcase ⊢
  cases hcase with
  | claim invite' user' now record hr =>
    rcases List.mem_cons.mp h with heq | h
    · cases heq
      exact counts_of_redeemable hr hold rfl
    · exact absurd h hold
  | advance c full now rid t sec next hgoes =>
    rw [store_settle] at h
    rcases claims_perform h with h | ⟨record, rfl⟩
    · exact absurd h hold
    · refine counts_of_redeemable hgoes.stems.2.2 hold ?_
      rw [store_settle]
      rfl
  | writer a s' hstore hhub hnext htags hconns =>
    rw [hstore] at h
    exact absurd h hold
  | close c ho ht =>
    rw [store_close] at h
    exact absurd h hold
  | _ => exact absurd h hold

/-- Redeeming an invite claims it. -/
theorem claims_of_redeems {a : Action π} {invite user group : String}
    (h : s.Redeems invite user group a) : (invite, user) ∈ (s.step admins a).store.claims := by
  cases a with
  | advance c full now =>
    obtain ⟨huser, hredeems, hok⟩ := h
    obtain ⟨⟨rid, t⟩, ht, hr⟩ := Option.bind_eq_some_iff.mp hredeems
    have htask : t = .start (.redeemInvite invite) := by
      unfold Task.redeems at hr
      split at hr
      · next heq =>
        cases hr
        exact heq
      · cases hr
    subst htask
    cases hrecord : s.store.redeemable invite user now with
    | error e =>
      rw [hrecord] at hok
      cases hok
    | ok record =>
      have hnext : ((Task.start (.redeemInvite invite)).next admins s c rid now).1 =
          .redeem invite user record := by
        dsimp only [Task.next, Request.begin]
        rw [huser, hrecord]
      rw [App.step, (App.goes admins now ht).advance, store_settle, hnext]
      exact List.mem_cons_self ..
  | _ => cases h

/-! ### Coming back -/

/-- Who comes into a group that is there was allowed, or was about to join. -/
theorem isMember_step (h : s.Valid) {a : Action π} {group user : String}
    (hthere : s.store.has group = true) (hout : s.store.isMember group user = false)
    (hjoins : ∀ k, (s.conns k).user = user → (s.conns k).joins ≠ some group)
    (hin : (s.step admins a).store.isMember group user = true) : s.Allows group user a := by
  rcases section_or_quiet h a with ⟨c, full, now, rid, t, sec, next, rfl, hgoes, hstep⟩ | hquiet
  · rw [hstep, store_settle] at hin
    rcases isMember_of_perform hin with hold | rfl | rfl
    · rw [hout] at hold
      cases hold
    · obtain ⟨-, rfl | ⟨invite, payload, rfl, huser⟩⟩ := hgoes.stems
      · exact ⟨hthere, rid, hgoes.task⟩
      · exact absurd (by rw [Conn.joins, hgoes.task]; rfl) (hjoins c huser.symm)
    -- The group would have been made, and it is there.
    · rw [hgoes.stems.2.2] at hthere
      cases hthere
  · rw [hquiet.isMember, hout] at hin
    cases hin

/-- Who is about to join has just redeemed an invite. -/
theorem joins_step (h : s.Valid) {a : Action π} {group : String} {k : ℕ}
    (hjoins : (s.conns k).joins ≠ some group)
    (hnow : ((s.step admins a).conns k).joins = some group) :
    ∃ invite, s.Redeems invite ((s.step admins a).conns k).user group a := by
  obtain ⟨⟨rid', t'⟩, ht', hj⟩ := Option.bind_eq_some_iff.mp hnow
  have hold : (s.conns k).task ≠ some (rid', t') := by
    intro hsame
    exact hjoins (by rw [Conn.joins, hsame]; exact hj)
  rcases section_or_quiet h a with ⟨c, full, now, rid, t, sec, next, rfl, hgoes, hstep⟩ | hquiet
  · rw [hstep] at ht' ⊢
    rw [user_section]
    by_cases hk : k = c
    · subst hk
      rw [task_section_self] at ht'
      obtain ⟨-, rfl | ⟨rfl, g, e, q, m, rfl⟩⟩ := hgoes.stands ht'
      · cases t' with
        | joining invite group' payload =>
          cases hj
          obtain ⟨rfl, -⟩ := hgoes.leads
          refine ⟨invite, rfl, by rw [Conn.redeems, hgoes.task]; rfl, ?_⟩
          have hgo := hgoes.eq
          dsimp only [Task.next, Request.begin] at hgo
          split at hgo
          · cases hgo
          · next record hr =>
            cases hgo
            rw [hr]
            exact decide_eq_true rfl
        | _ => cases hj
      · cases hj
    · rw [task_section_of_ne _ _ hk] at ht'
      exact absurd ht' hold
  · rcases hquiet.begins k rid' t' ht' with ⟨hsame, -⟩ | ⟨request, rfl⟩
    · exact absurd hsame hold
    · cases hj

/-- **Who comes back was allowed, or has redeemed an invite that they have not spent before.** -/
theorem readmitted {spent : List (String × String)} {group user : String} {l : List (Action π)}
    (h : s.Valid) (hthere : Along (App.step admins) (fun s _ => s.store.has group = true) s l)
    (hspent : Along (App.step admins) (App.NoneSpent spent group user) s l)
    (hout : s.store.isMember group user = false)
    (hjoins : ∀ k, (s.conns k).user = user → (s.conns k).joins ≠ some group)
    (hin : (s.run admins l).store.isMember group user = true) :
    Sometime (App.step admins) (fun s a => s.Allows group user a) s l ∨
      ∃ invite, (invite, user) ∉ spent ∧
        Sometime (App.step admins) (fun s a => s.Redeems invite user group a) s l ∧
        ((invite, user) ∈ s.store.claims ∨
          Sometime (App.step admins) (fun s a => Counts invite user s (s.step admins a)) s l) := by
  induction l generalizing s with
  | nil =>
    have hnow : s.store.isMember group user = true := hin
    rw [hout] at hnow
    cases hnow
  | cons a l ih =>
    -- The first step lets the user in, or brings one of their handlers to a join, or neither.
    by_cases hmember : (s.step admins a).store.isMember group user = true
    · exact .inl (.inl (isMember_step h hthere.1 hout hjoins hmember))
    by_cases hjoin : ∃ k, ((s.step admins a).conns k).user = user ∧
        ((s.step admins a).conns k).joins = some group
    · obtain ⟨k, rfl, hk⟩ := hjoin
      have hnot : (s.conns k).joins ≠ some group := by
        intro hold
        obtain ⟨rt, hrt, -⟩ := Option.bind_eq_some_iff.mp hold
        exact hjoins k (user_step a (lt_next_of_task h hrt)).symm hold
      obtain ⟨invite, hredeems⟩ := joins_step h hnot hk
      -- It is an invite that was not spent, so either the use counts now or it had counted.
      refine .inr ⟨invite, fun hmem => hspent.1 _ hmem rfl hredeems, .inl hredeems, ?_⟩
      rcases claims_step (claims_of_redeems hredeems) with hold | hnow
      · exact .inl hold
      · exact .inr (.inl hnow)
    · have hnone : ∀ k, ((s.step admins a).conns k).user = user →
          ((s.step admins a).conns k).joins ≠ some group := fun k hu hk => hjoin ⟨k, hu, hk⟩
      rcases ih (h.step a) hthere.2 hspent.2 (Bool.eq_false_iff.mpr hmember) hnone hin with
        hallowed | ⟨invite, hfresh, hredeems, hclaims⟩
      · exact .inl (.inr hallowed)
      · refine .inr ⟨invite, hfresh, .inr hredeems, ?_⟩
        rcases hclaims with hclaimed | hcounts
        · rcases claims_step hclaimed with hold | hnow
          · exact .inl hold
          · exact .inr (.inl hnow)
        · exact .inr (.inr hcounts)

/-! ### Every run -/

/-- What a removal leaves: the user is no member, and all claims are as they were. -/
theorem removes_step {a : Action π} {group user : String} (h : s.Removes group user a) :
    (s.step admins a).store.isMember group user = false ∧
      (s.step admins a).store.claims = s.store.claims ∧
        ∀ invite user' group', ¬s.Redeems invite user' group' a := by
  cases a with
  | advance c full now =>
    obtain ⟨rid, ht⟩ := h
    rw [App.step, (App.goes admins now ht).advance, store_settle]
    refine ⟨?_, rfl, fun invite user' group' hredeems => ?_⟩
    · simp [Task.next, App.perform, App.setStore, Store.disallowMember, Store.isMember]
    · have hr := hredeems.2.1
      rw [Conn.redeems, ht] at hr
      cases hr
  | _ => cases h

/-- **A removal sticks.**  Suppose that no handler of the user was about to join the group when
they were removed from it, that the group is there from then on, and that the user does not redeem
an invite of the group again that they had claimed before.  If they are a member later, an admin
has allowed them since, or they have redeemed an invite that they had not claimed before, and a use
of it was counted. -/
theorem removal_sticks (admins : List String) (l₁ : List (Action π)) (a : Action π)
    (l₂ : List (Action π)) (group user : String)
    (hremoval : (App.start.run admins l₁).Removes group user a)
    (hthere : Along (App.step admins) (fun s _ => s.store.has group = true)
      (App.start.run admins (l₁ ++ [a])) l₂)
    (hjoins : ∀ k < (App.start.run admins l₁).next,
      ((App.start.run admins l₁).conns k).user = user →
        ((App.start.run admins l₁).conns k).joins ≠ some group)
    (hspent : Along (App.step admins)
      (App.NoneSpent (App.start.run admins l₁).store.claims group user)
      (App.start.run admins (l₁ ++ [a])) l₂)
    (hin : (App.start.run admins (l₁ ++ a :: l₂)).store.isMember group user = true) :
    Sometime (App.step admins) (fun s a => s.Allows group user a)
      (App.start.run admins (l₁ ++ [a])) l₂ ∨
    ∃ invite, (invite, user) ∉ (App.start.run admins l₁).store.claims ∧
      Sometime (App.step admins) (fun s a => s.Redeems invite user group a)
        (App.start.run admins (l₁ ++ [a])) l₂ ∧
      Sometime (App.step admins) (fun s a => Counts invite user s (s.step admins a))
        (App.start.run admins (l₁ ++ [a])) l₂ := by
  have hvalid : (App.start.run admins l₁ : App π).Valid := .run admins l₁
  have hafter : App.start.run admins (l₁ ++ [a]) = (App.start.run admins l₁).step admins a :=
    List.foldl_append ..
  have hend : App.start.run admins (l₁ ++ a :: l₂) =
      ((App.start.run admins l₁).step admins a).run admins l₂ := List.foldl_append ..
  rw [hafter] at hthere hspent ⊢
  rw [hend] at hin
  obtain ⟨hout, hclaims, hnot⟩ :
      ((App.start.run admins l₁).step admins a).store.isMember group user = false ∧ _ :=
    removes_step hremoval
  -- the removal itself brings no handler of the user to a join
  have hnone : ∀ k, (((App.start.run admins l₁).step admins a).conns k).user = user →
      (((App.start.run admins l₁).step admins a).conns k).joins ≠ some group := by
    intro k huser hk
    by_cases hold : ((App.start.run admins l₁).conns k).joins = some group
    · obtain ⟨rt, hrt, -⟩ := Option.bind_eq_some_iff.mp hold
      have hlt := lt_next_of_task hvalid hrt
      exact hjoins k hlt ((user_step a hlt).symm.trans huser) hold
    · obtain ⟨invite, hredeems⟩ := joins_step hvalid hold hk
      exact hnot _ _ _ hredeems
  rcases readmitted (hvalid.step a) hthere hspent hout hnone hin with
    hallowed | ⟨invite, hfresh, hredeems, hclaimed | hcounts⟩
  · exact .inl hallowed
  · rw [hclaims] at hclaimed
    exact absurd hclaimed hfresh
  · exact .inr ⟨invite, hfresh, hredeems, hcounts⟩

/-- `alice` has a group and two links to it, each for one use. -/
def twoLinks : List (Action ℕ) :=
  [.connect "alice", .connect "bob"] ++ requested 0 (.createGroup "g") 2 ++
    requested 0 (.createInvite "i" "g" (some 7) none (some 1)) 2 ++
    requested 0 (.createInvite "j" "g" (some 8) none (some 1)) 2

/-- `bob` comes in with one of them, and is about to be removed. -/
def cameIn : List (Action ℕ) :=
  twoLinks ++ requested 1 (.redeemInvite "i") 2 ++ requested 0 (.disallow "g" "bob") 2

/-- `alice` is answered, and `bob` redeems a link. -/
def comesBack (invite : String) : List (Action ℕ) := go 0 :: requested 1 (.redeemInvite invite) 2

theorem spent_link_readmits :
    (App.start.run [] cameIn).Removes "g" "bob" (go 0) ∧
    ("i", "bob") ∈ (App.start.run [] cameIn).store.claims ∧
    ((App.start.run [] cameIn).store.invites "i").map (fun r => (r.uses, r.maxUses)) =
      some (1, some 1) ∧
    (App.start.run [] (cameIn ++ [go 0])).store.isMember "g" "bob" = false ∧
    (App.start.run [] (cameIn ++ go 0 :: comesBack "i")).store.isMember "g" "bob" = true ∧
    ((App.start.run [] (cameIn ++ go 0 :: comesBack "i")).store.invites "i").map
      (fun r => (r.uses, r.maxUses)) = some (1, some 1) := by
  refine ⟨⟨0, ?_⟩, ?_⟩ <;> decide +kernel

theorem fresh_link_counts :
    (App.start.run [] (cameIn ++ go 0 :: comesBack "j")).store.isMember "g" "bob" = true ∧
    (Sometime (App.step []) (fun s a => s.Allows "g" "bob" a)
        (App.start.run [] (cameIn ++ [go 0])) (comesBack "j") ∨
      ∃ invite, (invite, "bob") ∉ (App.start.run [] cameIn).store.claims ∧
        Sometime (App.step []) (fun s a => s.Redeems invite "bob" "g" a)
          (App.start.run [] (cameIn ++ [go 0])) (comesBack "j") ∧
        Sometime (App.step []) (fun s a => Counts invite "bob" s (s.step [] a))
          (App.start.run [] (cameIn ++ [go 0])) (comesBack "j")) := by
  have hin : (App.start.run [] (cameIn ++ go 0 :: comesBack "j")).store.isMember "g" "bob" = true := by
    decide +kernel
  refine ⟨hin, removal_sticks [] cameIn (go 0) (comesBack "j") "g" "bob" ⟨0, ?_⟩ ?_ ?_ ?_ hin⟩ <;>
    decide +kernel

end Server

end Quorum
