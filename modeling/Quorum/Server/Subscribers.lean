import Quorum.Server.Steps

/-!
# Fan-out and membership

Who is a member of a group is in the store, and who is sent its frames is in the hub.  `Subscribe`
looks at the one and writes the other later, and `Disallow` takes the member out of both, one after
the other. When a removal goes through both between the two halves of a subscription, somebody who
is no longer a member is subscribed, and is sent everything from then on
(`subscribed_after_removal`).

Fan-out follows membership in every run in which nobody is removed from a group, and no group is
deleted, while the one who is removed stands between the two halves of a subscription
(`fan_out_follows_members`).
-/

namespace Quorum

namespace Server

variable {π : Type} {admins : List String} {s : App π} {full : ℕ → Bool} {c rid now : ℕ}

/-! ### Between the two halves -/

/-- The group that a handler is about to subscribe to. -/
def Task.enrolls : Task π → Option String
  | .registering group => some group
  | .subscribing group _ => some group
  | _ => none

@[inherit_doc Task.enrolls]
def Conn.enrolls (conn : Conn π) : Option String := conn.task.bind fun t => t.2.enrolls

/-- A handler is about to take the membership of a user in a group away. -/
def Task.Bars (group user : String) : Task π → Bool
  | .disallowing group' target => group' = group && target = user
  | .deleting group' => group' = group
  | _ => false

@[inherit_doc Task.Bars]
def Conn.Bars (conn : Conn π) (group user : String) : Bool :=
  conn.task.any fun t => t.2.Bars group user

/-- Nobody's membership is taken away while they are about to subscribe. -/
def App.NoneEnrolling (s : App π) : Action π → Prop
  | .advance c _ _ =>
    ∀ k < s.next, ∀ group ∈ (s.conns k).enrolls, (s.conns c).Bars group (s.conns k).user = false
  | _ => True

instance App.NoneEnrolling.decidable (s : App π) : (a : Action π) → Decidable (s.NoneEnrolling a)
  | .advance c _ _ => inferInstanceAs (Decidable
      (∀ k < s.next, ∀ group ∈ (s.conns k).enrolls,
        (s.conns c).Bars group (s.conns k).user = false))
  | .claim .. | .connect .. | .request .. | .recv .. | .write .. | .stop .. | .close .. =>
    .isTrue trivial

/-- A handler has taken the membership of a user away, and is about to take the subscription. -/
def Task.Evicts (group user : String) : Task π → Bool
  | .unsubscribing group' target => group' = group && target = user
  | .dropping group' => group' = group
  | _ => false

/-- Who is subscribed by a section was about to subscribe. -/
theorem App.Goes.enrolls_of_subscribe {t : Task π} {next : Next π} {group : String} {k : ℕ}
    {frames : List (Frame π)} (h : s.Goes admins c rid now t (.subscribe group k frames) next) :
    k = c ∧ (s.conns c).enrolls = some group := by
  obtain ⟨rfl, hfrom⟩ := h.stems
  refine ⟨rfl, ?_⟩
  rw [Conn.enrolls, h.task]
  rcases hfrom with ⟨rfl, -⟩ | ⟨after, data, rfl, -⟩ <;> rfl

/-- Who is about to subscribe after a section is a member then. -/
theorem enrolls_next {t t' : Task π} {sec : Section π} {group : String}
    (hgoes : s.Goes admins c rid now t sec (.goOn t')) (he : t'.enrolls = some group) :
    (s.perform full sec).store.isMember group (s.conns c).user = true := by
  have hleads := hgoes.leads
  have hstems := hgoes.stems
  cases t' with
  | registering group' =>
    cases he
    obtain ⟨rfl, hfree⟩ := hleads
    -- `CreateGroup` has made its caller a member in the section before.
    have heq := hgoes.eq
    simp only [Task.next, Request.begin, hfree, Bool.false_eq_true, if_false] at heq
    cases heq
    simp [App.perform, App.setStore, Store.isMember, Store.has, Store.createGroup,
      Relay.MemoryStore.insert]
  | subscribing group' after =>
    cases he
    have hmember : s.store.isMember group (s.conns c).user = true := by
      by_contra hnot
      have herr : s.requireMember group (s.conns c).user = .ok () := hleads
      rw [App.requireMember, if_neg hnot] at herr
      cases herr
    -- The check is a section of its own, so it has not taken the membership away itself.
    rcases isMember_perform full hstems hmember with hstill | rfl | rfl
    · exact hstill
    all_goals
      obtain rfl := hstems
      cases hgoes.eq
  | _ => cases he

/-- Subscribers, and those who are about to subscribe, are members.  Between the two halves of a
removal a subscriber may not be. -/
structure Entitled (s : App π) : Prop where
  valid : s.Valid
  enrolls : ∀ k group, (s.conns k).enrolls = some group →
    s.store.isMember group (s.conns k).user = true
  subscriber : ∀ group user k, s.hub.subscribers group user = some k →
    s.store.isMember group user = true ∨
      ∃ c rid t, (s.conns c).task = some (rid, t) ∧ t.Evicts group user = true

namespace Entitled

variable {t : Task π} {sec : Section π} {next : Next π}

theorem start : Entitled (App.start : App π) where
  valid := .start
  enrolls _ _ h := by cases h
  subscriber _ _ _ h := by cases h

/-- Who is about to subscribe after a section is a member. -/
theorem enrolls_advance (h : Entitled s) (hgoes : s.Goes admins c rid now t sec next)
    (hnone : s.NoneEnrolling (.advance c full now)) {k : ℕ} {group : String}
    (hk : (((s.perform full sec).settle c rid next).conns k).enrolls = some group) :
    (s.perform full sec).store.isMember group (s.conns k).user = true := by
  have hstems := hgoes.stems
  obtain ⟨⟨rid', t'⟩, ht', he⟩ := Option.bind_eq_some_iff.mp hk
  by_cases hkc : k = c
  · subst hkc
    rw [task_section_self] at ht'
    obtain ⟨-, rfl | ⟨rfl, g, e, q, m, rfl⟩⟩ := hgoes.stands ht'
    · exact Server.enrolls_next hgoes he
    · cases he
  · rw [task_section_of_ne _ _ hkc] at ht'
    have hold : (s.conns k).enrolls = some group := by
      rw [Conn.enrolls, ht']
      exact he
    -- The handler does not take this membership away, by what is assumed of the run.
    have hbar := hnone k (lt_next_of_task h.valid ht') group hold
    rw [Conn.Bars, hgoes.task] at hbar
    rcases isMember_perform full hstems (h.enrolls k group hold) with hstill | rfl | rfl
    · exact hstill
    all_goals
      obtain rfl := hstems
      simp [Task.Bars] at hbar

theorem advance (h : Entitled s) (hgoes : s.Goes admins c rid now t sec next)
    (hnone : s.NoneEnrolling (.advance c full now)) :
    Entitled ((s.perform full sec).settle c rid next) := by
  have hstems := hgoes.stems
  refine ⟨h.valid.advance hgoes, fun k group hk => ?_, fun group user k hk => ?_⟩
  · rw [user_section, store_settle]
    exact h.enrolls_advance hgoes hnone hk
  · rw [store_settle]
    rw [hub_settle] at hk
    rcases subscribers_perform hk with hold | ⟨frames, rfl, hu⟩
    · rcases h.subscriber group user k hold with hm | ⟨c', rid', t', ht', he⟩
      · rcases isMember_perform full hstems hm with hstill | rfl | rfl
        · exact .inl hstill
        -- The member has gone from the store, and the handler comes to the hub next.
        · obtain rfl := hstems
          cases hgoes.eq
          refine .inr ⟨c, rid, .unsubscribing group user, ?_, by simp [Task.Evicts]⟩
          rw [task_section_self]
          rfl
        · obtain rfl := hstems
          cases hgoes.eq
          refine .inr ⟨c, rid, .dropping group, ?_, by simp [Task.Evicts]⟩
          rw [task_section_self]
          rfl
      · by_cases hcc : c' = c
        -- The handler that was to take the subscription has just done so.
        · rw [hcc, hgoes.task] at ht'
          cases ht'
          cases t with
          | unsubscribing group' target =>
            obtain ⟨rfl, rfl⟩ : group' = group ∧ target = user := by simpa [Task.Evicts] using he
            cases hgoes.eq
            simp [App.perform, App.setSubscribers] at hk
          | dropping group' =>
            obtain rfl : group' = group := by simpa [Task.Evicts] using he
            cases hgoes.eq
            simp [App.perform, App.setSubscribers] at hk
          | _ => cases he
        · refine .inr ⟨c', rid', t', ?_, he⟩
          rw [task_section_of_ne _ _ hcc]
          exact ht'
    · obtain ⟨rfl, henrolls⟩ := hgoes.enrolls_of_subscribe
      exact .inl (hu ▸ h.enrolls k group henrolls)

theorem step (h : Entitled s) (a : Action π) (hnone : s.NoneEnrolling a) :
    Entitled (s.step admins a) := by
  have hvalid : (s.step admins a).Valid := h.valid.step a
  rcases section_or_quiet h.valid a with ⟨c, full, now, rid, t, sec, next, rfl, hgoes, hstep⟩ | hquiet
  · rw [hstep]
    exact h.advance hgoes hnone
  · refine ⟨hvalid, fun k group hk => ?_, fun group user k hk => ?_⟩
    · rw [hquiet.isMember]
      obtain ⟨⟨rid, t⟩, ht, he⟩ := Option.bind_eq_some_iff.mp hk
      rcases hquiet.begins k rid t ht with ⟨hold, huser⟩ | ⟨request, rfl⟩
      · rw [huser]
        exact h.enrolls k group (by rw [Conn.enrolls, hold]; exact he)
      · cases he
    · rw [hquiet.isMember]
      rcases h.subscriber group user k (hquiet.subscribers group user k hk) with
        hm | ⟨c, rid, t, ht, he⟩
      · exact .inl hm
      · exact .inr ⟨c, rid, t, hquiet.stays c rid t ht, he⟩

end Entitled

/-! ### Frames of a group -/

/-- The group that a message or a signal is for. -/
def Frame.group? : Frame π → Option String
  | .msg m => some m.group
  | .eph group _ _ => some group
  | _ => none

/-- The messages and signals of a group among some frames. -/
def groupFrames (group : String) (l : List (Frame π)) : List (Frame π) :=
  l.filter fun frame => frame.group? = some group

theorem groupFrames_append (group : String) (l l' : List (Frame π)) :
    groupFrames group (l ++ l') = groupFrames group l ++ groupFrames group l' :=
  List.filter_append ..

variable {group : String} {k : ℕ}

theorem groupFrames_eq_nil {l : List (Frame π)}
    (h : ∀ frame ∈ l, frame.group? ≠ some group) : groupFrames group l = [] :=
  List.filter_eq_nil_iff.mpr fun frame hf => by simpa using h frame hf

/-- Everything in the backlog of a group is for that group. -/
theorem group?_backlog (h : s.Valid) {data : Relay.GroupData π} {after : ℕ}
    (hg : s.store.logs.groups group = some data) {frame : Frame π}
    (hf : frame ∈ (Relay.messagesAfter data.log after).map .msg) : frame.group? = some group := by
  obtain ⟨m, hm, rfl⟩ := List.mem_map.mp hf
  have hlog : m ∈ data.log := (List.mem_filter.mp hm).1
  exact congrArg some ((h.log group data hg).2 m hlog)

/-- A section gives frames of a group to its subscribers, and to those who are about to be. -/
theorem groupFrames_section (h : s.Valid) {t : Task π} {sec : Section π} {next : Next π}
    (hgoes : s.Goes admins c rid now t sec next)
    (hsub : s.hub.subscribers group (s.conns k).user ≠ some k)
    (henrolls : (s.conns k).enrolls ≠ some group) :
    groupFrames group (((s.perform full sec).settle c rid next).conns k).history =
      groupFrames group (s.conns k).history := by
  have hstems := hgoes.stems
  have hperform : groupFrames group ((s.perform full sec).conns k).history =
      groupFrames group (s.conns k).history := by
    rcases history_perform s full sec k with hsame | ⟨frames, hnew, hfrom⟩
    · rw [hsame]
    · rw [hnew, groupFrames_append]
      refine List.append_right_eq_self.mpr (groupFrames_eq_nil fun frame hf hgroup => ?_)
      -- A backlog is for whoever subscribes, a frame for whoever listens, a Welcome for no group.
      rcases hfrom with ⟨g, rfl⟩ | ⟨g, sender, f, rfl, hlistens, rfl⟩ | ⟨w, rfl⟩
      · obtain ⟨rfl, ⟨-, rfl⟩ | ⟨after, data, rfl, hg, rfl⟩⟩ := hstems
        · cases hf
        · rcases List.mem_cons.mp hf with rfl | hf
          · cases hgroup
          · rw [group?_backlog h hg hf] at hgroup
            cases hgroup
            exact henrolls hgoes.enrolls_of_subscribe.2
      · obtain rfl := List.mem_singleton.mp hf
        have hg : g = group := by
          obtain ⟨-, ⟨e, q, p, -, rfl⟩ | ⟨p, -, rfl⟩⟩ := hstems <;> cases hgroup <;> rfl
        rw [hg] at hlistens
        exact hsub (of_decide_eq_true (Bool.and_eq_true_iff.mp hlistens).1)
      · obtain rfl := List.mem_singleton.mp hf
        cases hgroup
  rw [← hperform]
  rcases history_settle (s.perform full sec) c rid next k with hsame | ⟨r, hnew⟩
  · rw [hsame]
  · rw [hnew, groupFrames_append]
    exact List.append_nil _

/-- No other step gives anybody frames of a group. -/
theorem groupFrames_step (h : s.Valid) (a : Action π)
    (hsub : s.hub.subscribers group (s.conns k).user ≠ some k)
    (henrolls : (s.conns k).enrolls ≠ some group) :
    groupFrames group ((s.step admins a).conns k).history =
      groupFrames group (s.conns k).history := by
  rcases section_or_quiet h a with ⟨c, full, now, rid, t, sec, next, rfl, hgoes, hstep⟩ | hquiet
  · rw [hstep]
    exact groupFrames_section h hgoes hsub henrolls
  · rcases hquiet.history k with hsame | ⟨rfl, hwelcome⟩
    · rw [hsame]
    · rw [(h.unused s.next le_rfl).2.2]
      refine groupFrames_eq_nil fun frame hf => ?_
      obtain ⟨w, rfl⟩ := hwelcome frame hf
      exact nofun

/-! ### After a removal -/

/-- The step in which a `Disallow` is answered with `Ok`. -/
def App.Disallows (s : App π) (group user : String) : Action π → Prop
  | .advance c _ _ => ∃ rid, (s.conns c).task = some (rid, .unsubscribing group user)
  | _ => False

/-- Who has just been removed is not subscribed. -/
theorem subscribers_of_disallows {a : Action π} {user : String}
    (h : s.Disallows group user a) : (s.step admins a).hub.subscribers group user = none := by
  cases a with
  | advance c full now =>
    obtain ⟨rid, ht⟩ := h
    rw [App.step, (App.goes admins now ht).advance, hub_settle]
    simp [Task.next, App.perform, App.setSubscribers]
  | _ => cases h

theorem user_run (l : List (Action π)) (hk : k < s.next) :
    ((s.run admins l).conns k).user = (s.conns k).user := by
  induction l generalizing s with
  | nil => rfl
  | cons a l ih => exact (ih (lt_of_lt_of_le hk (next_le_step a))).trans (user_step a hk)

namespace Entitled

/-- Who is not a member is not subscribed by any step. -/
theorem unsubscribed_step (h : Entitled s) (a : Action π) {user : String}
    (hnone : s.hub.subscribers group user = none) (hout : s.store.isMember group user = false) :
    (s.step admins a).hub.subscribers group user = none := by
  by_contra hsome
  obtain ⟨k, hk⟩ := Option.ne_none_iff_exists'.mp hsome
  have hnot : s.hub.subscribers group user ≠ some k := by
    rw [hnone]
    exact nofun
  rcases section_or_quiet h.valid a with ⟨c, full, now, rid, t, sec, next, rfl, hgoes, hstep⟩ | hquiet
  · rw [hstep, hub_settle] at hk
    rcases subscribers_perform hk with hold | ⟨frames, rfl, hu⟩
    · exact hnot hold
    · obtain ⟨rfl, henrolls⟩ := hgoes.enrolls_of_subscribe
      rw [hu, h.enrolls k group henrolls] at hout
      cases hout
  · exact hnot (hquiet.subscribers group user k hk)

/-- **Who is not subscribed gets nothing of a group while they are not a member.** -/
theorem groupFrames_run {l : List (Action π)} (h : Entitled s)
    (halong : Along (App.step admins) App.NoneEnrolling s l) {user : String}
    (hnone : s.hub.subscribers group user = none)
    (hout : ∀ n < l.length, (s.run admins (l.take n)).store.isMember group user = false)
    (hk : ((s.run admins l).conns k).user = user) :
    groupFrames group ((s.run admins l).conns k).history =
      groupFrames group (s.conns k).history := by
  induction l generalizing s with
  | nil => rfl
  | cons a l ih =>
    have hnow : s.store.isMember group user = false := hout 0 (Nat.succ_pos _)
    have hlater : ∀ n < l.length,
        ((s.step admins a).run admins (l.take n)).store.isMember group user = false :=
      fun n hn => hout (n + 1) (Nat.succ_lt_succ hn)
    have hopen : (s.conns k).isOpen = true → (s.conns k).user = user := by
      intro ho
      rw [← hk, user_run (a :: l) (lt_next h.valid ho)]
    refine (ih (h.step a halong.1) halong.2 (h.unsubscribed_step a hnone hnow) hlater hk).trans
      (groupFrames_step h.valid a (fun hsub => ?_) fun he => ?_)
    · rw [hopen (h.valid.subscriber _ _ _ hsub).2, hnone] at hsub
      cases hsub
    · have hm := h.enrolls k group he
      obtain ⟨rt, hrt, -⟩ := Option.bind_eq_some_iff.mp he
      rw [hopen (h.valid.task k (by rw [hrt]; rfl)), hnow] at hm
      cases hm

end Entitled

/-! ### Every run -/

/-- **Fan-out follows membership.**  When no membership is taken away from somebody who is about to
subscribe, subscribers are members whenever no handler is on its way, and from the moment a
`Disallow` is answered, nothing of the group is queued for whoever was removed until they are a
member again. -/
theorem fan_out_follows_members (admins : List String) (l : List (Action π))
    (h : Along (App.step admins) App.NoneEnrolling App.start l) :
    ((∀ k, ((App.start.run admins l).conns k).task = none) → ∀ group user k,
      (App.start.run admins l).hub.subscribers group user = some k →
        (App.start.run admins l).store.isMember group user = true) ∧
    ∀ l₁ a l₂ group user, l = l₁ ++ a :: l₂ →
      (App.start.run admins l₁).Disallows group user a →
      (∀ n < l₂.length,
        (App.start.run admins (l₁ ++ a :: l₂.take n)).store.isMember group user = false) →
      ∀ k, ((App.start.run admins l).conns k).user = user →
        groupFrames group ((App.start.run admins l).conns k).history =
          groupFrames group ((App.start.run admins (l₁ ++ [a])).conns k).history := by
  have hrun : ∀ l, Along (App.step admins) App.NoneEnrolling App.start l →
      Entitled (App.start.run admins l : App π) := fun l h =>
    h.preserves (fun _ a hs ha => hs.step a ha) .start
  refine ⟨fun hidle group user k hk => ?_, fun l₁ a l₂ group user hl ha hout k hk => ?_⟩
  · rcases (hrun l h).subscriber group user k hk with hm | ⟨c, rid, t, ht, -⟩
    · exact hm
    · rw [hidle c] at ht
      cases ht
  · have hsplit : ∀ l', App.start.run admins (l₁ ++ a :: l') =
        ((App.start.run admins l₁).step admins a).run admins l' := fun l' => List.foldl_append ..
    subst hl
    obtain ⟨h₁, hnow, h₂⟩ := along_append.mp h
    have hentitled : Entitled ((App.start.run admins l₁).step admins a) := (hrun l₁ h₁).step a hnow
    rw [hsplit] at hk ⊢
    rw [hsplit []]
    exact hentitled.groupFrames_run h₂ (subscribers_of_disallows ha)
      (fun n hn => hsplit (l₂.take n) ▸ hout n hn) hk

/-- A group of `alice` and `bob`, who are both there. -/
def alicesGroup : List (Action ℕ) :=
  [.connect "alice", .connect "bob"] ++ requested 0 (.createGroup "g") 2 ++
    requested 0 (.allow "g" "bob") 2

/-- `bob` asks to subscribe, and has been removed by the time the hub is told. -/
def removedOnTheWay : List (Action ℕ) :=
  alicesGroup ++ requested 1 (.subscribe "g" 0) 1 ++ requested 0 (.disallow "g" "bob") 3

/-- `alice` writes to the group. -/
def alicesMessage : List (Action ℕ) := requested 0 (.send "g" 0 (some 7) false) 5

theorem subscribed_after_removal :
    (App.start.run [] removedOnTheWay).Disallows "g" "bob" (go 0) ∧
    (∀ n ≤ (go 1 :: alicesMessage).length, (App.start.run []
      (removedOnTheWay ++ go 0 :: (go 1 :: alicesMessage).take n)).store.isMember "g" "bob" = false) ∧
    (App.start.run [] (removedOnTheWay ++ [go 0, go 1])).hub.subscribers "g" "bob" = some 1 ∧
    ((App.start.run [] (removedOnTheWay ++ [go 0])).conns 1).user = "bob" ∧
    groupFrames "g" ((App.start.run [] (removedOnTheWay ++ [go 0])).conns 1).history = [] ∧
    groupFrames "g" ((App.start.run []
      (removedOnTheWay ++ go 0 :: go 1 :: alicesMessage)).conns 1).history =
        [.msg { group := "g", seq := 1, epoch := 0, sender := "alice", payload := 7 }] := by
  refine ⟨⟨0, ?_⟩, ?_⟩ <;> decide +kernel

/-- `bob` has subscribed, and is then removed. -/
def removedAfterwards : List (Action ℕ) :=
  alicesGroup ++ requested 1 (.subscribe "g" 0) 2 ++ requested 0 (.disallow "g" "bob") 3

theorem removedAfterwards_gets_nothing :
    Along (App.step []) App.NoneEnrolling App.start (removedAfterwards ++ go 0 :: alicesMessage) ∧
    groupFrames "g" ((App.start.run [] (removedAfterwards ++ go 0 :: alicesMessage)).conns 1).history =
      groupFrames "g" ((App.start.run [] (removedAfterwards ++ [go 0])).conns 1).history := by
  have halong : Along (App.step []) App.NoneEnrolling App.start
      (removedAfterwards ++ go 0 :: alicesMessage) := by decide +kernel
  refine ⟨halong, (fan_out_follows_members [] _ halong).2 removedAfterwards (go 0) alicesMessage "g"
    "bob" rfl ⟨0, ?_⟩ ?_ 1 ?_⟩ <;> decide +kernel

end Server

end Quorum
