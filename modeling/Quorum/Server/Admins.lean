import Quorum.Server.Steps

/-!
# A group keeps an admin

`SetRole` and `Disallow` read the members of the group and refuse to take the last admin away.  They
write later.  Two admins who demote each other at the same time both find two admins, and leave none
(`admins_demote_each_other`).

A group keeps an admin in every run in which no handler reads the members for that purpose, or
deletes the group, while another one has read them and not yet written (`always_an_admin`).
-/

namespace Quorum

namespace Server

variable {π : Type} {admins : List String} {s : App π} {full : ℕ → Bool} {c rid now : ℕ}

/-! ### The last admin -/

/-- There is an admin among the members, other than `target`. -/
def OtherAdmin (members : List (String × Role)) (target : String) : Prop :=
  ∃ m ∈ members, m.1 ≠ target ∧ m.2 = .admin

/-- There is an admin among the members. -/
def HasAdmin (members : List (String × Role)) : Prop := ∃ m ∈ members, m.2 = .admin

/-- What the guard finds: with every name once, an admin other than the target. -/
theorem otherAdmin_of_guard {members : List (String × Role)} {target : String}
    (hnames : (members.map Prod.fst).Nodup) (ha : HasAdmin members)
    (h : App.isLastAdmin members target = false) : OtherAdmin members target := by
  by_contra hnone
  have honly : ∀ m ∈ members, m.2 = .admin → m.1 = target := by
    intro m hm hr
    by_contra hne
    exact hnone ⟨m, hm, hne, hr⟩
  obtain ⟨a, ham, har⟩ := ha
  have hfirst : members.any (fun m => m.1 = target ∧ m.2 = .admin) = true :=
    List.any_eq_true.mpr ⟨a, ham, decide_eq_true ⟨honly a ham har, har⟩⟩
  have hone : members.countP (·.2 = .admin) ≤ 1 := by
    -- all admins have the one name
    have hsub : (members.filter (·.2 = .admin)).map Prod.fst ⊆ [target] := by
      intro name hname
      obtain ⟨m, hm, rfl⟩ := List.mem_map.mp hname
      obtain ⟨hmem, hr⟩ := List.mem_filter.mp hm
      exact List.mem_singleton.mpr (honly m hmem (of_decide_eq_true hr))
    have hnodup : ((members.filter (·.2 = .admin)).map Prod.fst).Nodup :=
      hnames.sublist (List.filter_sublist.map _)
    have hlen := (hnodup.subperm hsub).length_le
    rw [List.length_map, ← List.countP_eq_length_filter] at hlen
    exact hlen
  rw [App.isLastAdmin, hfirst, Bool.true_and, decide_eq_false_iff_not] at h
  exact h hone

/-! ### Members after a write -/

/-- Everyone else keeps their role. -/
theorem mem_withRole_of_ne {user : String} {role : Role} {l : List (String × Role)}
    {m : String × Role} (h : m ∈ l) (hne : m.1 ≠ user) : m ∈ Store.withRole user role l := by
  induction l with
  | nil => cases h
  | cons a l ih =>
    unfold Store.withRole
    rcases List.mem_cons.mp h with rfl | h
    · rw [if_neg hne]
      exact List.mem_cons_self ..
    · split
      · exact List.mem_cons_of_mem _ h
      · exact List.mem_cons_of_mem _ (ih h)

/-- A promotion takes no admin away. -/
theorem mem_withRole_admin {user : String} {l : List (String × Role)} {m : String × Role}
    (h : m ∈ l) (hr : m.2 = .admin) : m ∈ Store.withRole user .admin l := by
  induction l with
  | nil => cases h
  | cons a l ih =>
    unfold Store.withRole
    split
    · rcases List.mem_cons.mp h with rfl | h
      · rw [← hr]
        exact List.mem_cons_self ..
      · exact List.mem_cons_of_mem _ h
    · rcases List.mem_cons.mp h with rfl | h
      · exact List.mem_cons_self ..
      · exact List.mem_cons_of_mem _ (ih h)

/-! ### Handlers that have read and not written -/

/-- The group and the member that a handler is about to take a role or the membership from. -/
def Task.takes : Task π → Option (String × String)
  | .settingRole group target .member => some (group, target)
  | .disallowing group target => some (group, target)
  | _ => none

/-- The group whose members a handler of `user` reads to decide about an admin, or that it deletes.
-/
def Task.decides (user : String) : Task π → Option String
  | .demoting group _ => some group
  | .removing group _ => some group
  | .start (.disallow group target) => if target = user then some group else none
  | .deleting group => some group
  | _ => none

@[inherit_doc Task.takes]
def Conn.takes (conn : Conn π) : Option (String × String) := conn.task.bind fun t => t.2.takes

@[inherit_doc Task.decides]
def Conn.decides (conn : Conn π) : Option String := conn.task.bind fun t => t.2.decides conn.user

/-- No handler decides about an admin of a group while another one is about to write. -/
def App.OneAtATime (s : App π) : Action π → Prop
  | .advance c _ _ =>
    ∀ group ∈ (s.conns c).decides, ∀ k < s.next, ∀ p ∈ (s.conns k).takes, p.1 ≠ group
  | _ => True

instance App.OneAtATime.decidable (s : App π) : (a : Action π) → Decidable (s.OneAtATime a)
  | .advance c _ _ => inferInstanceAs (Decidable
      (∀ group ∈ (s.conns c).decides, ∀ k < s.next, ∀ p ∈ (s.conns k).takes, p.1 ≠ group))
  | .claim .. | .connect .. | .request .. | .recv .. | .write .. | .stop .. | .close .. =>
    .isTrue trivial

/-- A handler is about to write when its guard has passed, and it has written nothing on the way. -/
theorem takes_next {t t' : Task π} {sec : Section π} {p : String × String}
    (h : s.Goes admins c rid now t sec (.goOn t')) (hp : t'.takes = some p) :
    sec = .read ∧ t.decides (s.conns c).user = some p.1 ∧
      s.store.has p.1 = true ∧ App.isLastAdmin (s.store.members p.1) p.2 = false := by
  have hcheck : ∀ {result : Except Refusal Unit} {t : Task π},
      App.check result t = (sec, .goOn t') → sec = .read := by
    intro result t heq
    unfold App.check at heq
    split at heq <;> cases heq
    rfl
  have hguard : ∀ {e : Refusal} {g u : String}, (do
      let members ← s.store.groupMembers g
      if App.isLastAdmin members u then throw e) = .ok () →
      s.store.has g = true ∧ App.isLastAdmin (s.store.members g) u = false := by
    intro e g u hok
    unfold Store.groupMembers at hok
    cases hg : s.store.has g with
    | false =>
      rw [hg] at hok
      cases hok
    | true =>
      refine ⟨rfl, Bool.eq_false_iff.mpr fun hlast => ?_⟩
      rw [hg] at hok
      change (if App.isLastAdmin (s.store.members g) u = true then throw e else pure ()) = _ at hok
      rw [if_pos hlast] at hok
      cases hok
  have hleads := h.leads
  cases t' with
  | settingRole group target role =>
    cases role with
    | admin => cases hp
    | member =>
      cases hp
      rcases hleads with hrole | ⟨rfl, hok⟩
      · cases hrole
      · exact ⟨hcheck h.eq, rfl, hguard hok⟩
  | disallowing group target =>
    cases hp
    obtain ⟨hok, rfl | ⟨rfl, hself⟩⟩ := hleads
    · exact ⟨hcheck h.eq, rfl, hguard hok⟩
    · refine ⟨?_, if_pos hself, hguard hok⟩
      have heq := h.eq
      dsimp only [Task.next, Request.begin] at heq
      rw [if_pos hself] at heq
      exact hcheck heq
  | _ => cases hp

/-- Every group has an admin, and whoever a handler is about to demote or remove is not the only
one. Names are there once, and one handler at most is about to write to a group. -/
structure Staffed (s : App π) : Prop where
  valid : s.Valid
  names : ∀ group, ((s.store.members group).map Prod.fst).Nodup
  admin : ∀ group, s.store.has group = true → HasAdmin (s.store.members group)
  other : ∀ c p, (s.conns c).takes = some p →
    s.store.has p.1 = true ∧ OtherAdmin (s.store.members p.1) p.2
  alone : ∀ c c' p p', (s.conns c).takes = some p → (s.conns c').takes = some p' → p.1 = p'.1 → c = c'

namespace Staffed

theorem start : Staffed (App.start : App π) where
  valid := .start
  names _ := List.nodup_nil
  admin _ h := by cases h
  other _ _ h := by cases h
  alone _ _ _ _ h := by cases h

/-- A step after which no other handler than before is about to write. -/
theorem of_takes (h : Staffed s) {s' : App π} (hvalid : s'.Valid)
    (htakes : ∀ k p, (s'.conns k).takes = some p → (s.conns k).takes = some p)
    (hnames : ∀ group, ((s'.store.members group).map Prod.fst).Nodup)
    (hadmin : ∀ group, s'.store.has group = true → HasAdmin (s'.store.members group))
    (hother : ∀ k p, (s'.conns k).takes = some p →
      s'.store.has p.1 = true ∧ OtherAdmin (s'.store.members p.1) p.2) : Staffed s' :=
  ⟨hvalid, hnames, hadmin, hother, fun k k' p p' hp hp' =>
    h.alone k k' p p' (htakes k p hp) (htakes k' p' hp')⟩

/-- A step that leaves the members of all groups. -/
theorem of_same (h : Staffed s) {s' : App π} (hvalid : s'.Valid)
    (htakes : ∀ k p, (s'.conns k).takes = some p → (s.conns k).takes = some p)
    (hmembers : s'.store.members = s.store.members)
    (hhas : ∀ group, s'.store.has group = s.store.has group) : Staffed s' := by
  refine h.of_takes hvalid htakes (fun group => hmembers ▸ h.names group) (fun group hg => ?_)
    fun k p hp => ?_
  · rw [hhas] at hg
    rw [hmembers]
    exact h.admin group hg
  · rw [hhas, hmembers]
    exact h.other k p (htakes k p hp)

section

variable {s' : App π} {group user : String} (h : Staffed s) (hvalid : s'.Valid)
  (htakes : ∀ k p, (s'.conns k).takes = some p → k ≠ c ∧ (s.conns k).takes = some p)

include h hvalid htakes

/-- The members of one group change. -/
theorem of_update {members : List (String × Role)}
    (hmembers : s'.store.members = Function.update s.store.members group members)
    (hhas : ∀ group' ≠ group, s'.store.has group' = s.store.has group')
    (hnames : (members.map Prod.fst).Nodup)
    (hadmin : s'.store.has group = true → HasAdmin members)
    (hother : ∀ k p, k ≠ c → (s.conns k).takes = some p → p.1 = group →
      s'.store.has group = true ∧ OtherAdmin members p.2) : Staffed s' := by
  have hget : ∀ group', group' ≠ group → s'.store.members group' = s.store.members group' :=
    fun group' hne => by rw [hmembers, Function.update_of_ne hne]
  have hself : s'.store.members group = members := by rw [hmembers, Function.update_self]
  refine h.of_takes hvalid (fun k p hp => (htakes k p hp).2) (fun group' => ?_) (fun group' hg => ?_)
    fun k p hp => ?_
  · by_cases heq : group' = group
    · rw [heq, hself]
      exact hnames
    · rw [hget group' heq]
      exact h.names group'
  · by_cases heq : group' = group
    · rw [heq, hself]
      exact hadmin (heq ▸ hg)
    · rw [hget group' heq]
      exact h.admin group' (hhas group' heq ▸ hg)
  · obtain ⟨hk, hold⟩ := htakes k p hp
    by_cases heq : p.1 = group
    · rw [heq, hself]
      exact hother k p hk hold heq
    · rw [hget p.1 heq, hhas p.1 heq]
      exact h.other k p hold

/-- A new group has its creator for an admin, and nobody is about to write to it. -/
theorem createGroup (hfree : s.store.has group = false)
    (hstore : s'.store = s.store.createGroup group user) : Staffed s' := by
  refine h.of_update hvalid htakes (congrArg Store.members hstore) (fun g hg => ?_) (List.nodup_singleton _)
    (fun _ => ⟨_, List.mem_singleton_self _, rfl⟩) fun k p _ hp heq => ?_
  · rw [hstore]
    exact congrArg Option.isSome (Function.update_of_ne hg _ _)
  · have hhas := (h.other k p hp).1
    rw [heq, hfree] at hhas
    cases hhas

theorem allowMember (hhas : s.store.has group = true)
    (hstore : s'.store = s.store.allowMember group user) : Staffed s' := by
  unfold Store.allowMember at hstore
  split at hstore
  · exact h.of_same hvalid (fun k p hp => (htakes k p hp).2) (hstore ▸ rfl) fun g => hstore ▸ rfl
  · next hin =>
    have hfresh : user ∉ (s.store.members group).map Prod.fst := by
      intro hmem
      obtain ⟨m, hm, rfl⟩ := List.mem_map.mp hmem
      exact hin (List.any_eq_true.mpr ⟨m, hm, decide_eq_true rfl⟩)
    refine h.of_update hvalid htakes (congrArg Store.members hstore) (fun g _ => hstore ▸ rfl) ?_ (fun _ => ?_)
      fun k p _ hp heq => ?_
    · rw [List.map_append]
      exact (h.names group).append (List.nodup_singleton _) (List.disjoint_singleton.mpr hfresh)
    · obtain ⟨m, hm, hr⟩ := h.admin group hhas
      exact ⟨m, List.mem_append_left _ hm, hr⟩
    · obtain ⟨-, m, hm, hother⟩ := h.other k p hp
      rw [heq] at hm
      exact ⟨hstore ▸ hhas, m, List.mem_append_left _ hm, hother⟩

/-- A promotion takes no admin away; a demotion is that of a handler whose guard has passed. -/
theorem setMemberRole {role : Role}
    (hrole : role = .admin ∨ (s.conns c).takes = some (group, user))
    (hstore : s'.store = s.store.setMemberRole group user role) : Staffed s' := by
  have hsame : ∀ g, s'.store.has g = s.store.has g := fun g => by rw [hstore]; rfl
  have hnames : ((Store.withRole user role (s.store.members group)).map Prod.fst).Nodup := by
    rw [map_fst_withRole]
    exact h.names group
  refine h.of_update hvalid htakes (congrArg Store.members hstore) (fun g _ => hsame g) hnames (fun hhas => ?_)
    fun k p hk hp heq => ?_
  · rcases hrole with rfl | hctakes
    · obtain ⟨m, hm, hr⟩ := h.admin group (hsame group ▸ hhas)
      exact ⟨m, mem_withRole_admin hm hr, hr⟩
    -- The guard has left another admin, and no one else has written since.
    · obtain ⟨-, m, hm, hne, hr⟩ := h.other c (group, user) hctakes
      exact ⟨m, mem_withRole_of_ne hm hne, hr⟩
  · rcases hrole with rfl | hctakes
    · obtain ⟨hph, m, hm, hne, hr⟩ := h.other k p hp
      rw [heq] at hph hm
      exact ⟨(hsame group).trans hph, m, mem_withRole_admin hm hr, hne, hr⟩
    · exact absurd (h.alone k c p (group, user) hp hctakes heq) hk

theorem disallowMember (hctakes : (s.conns c).takes = some (group, user))
    (hstore : s'.store = s.store.disallowMember group user) : Staffed s' := by
  refine h.of_update hvalid htakes (congrArg Store.members hstore) (fun g _ => hstore ▸ rfl)
    ((h.names group).sublist (List.filter_sublist.map _)) (fun _ => ?_)
    fun k p hk hp heq => absurd (h.alone k c p (group, user) hp hctakes heq) hk
  obtain ⟨-, m, hm, hne, hr⟩ := h.other c (group, user) hctakes
  exact ⟨m, List.mem_filter.mpr ⟨hm, decide_eq_true hne⟩, hr⟩

theorem deleteGroup (hnone : ∀ k p, (s.conns k).takes = some p → p.1 ≠ group)
    (hstore : s'.store = s.store.deleteGroup group) : Staffed s' := by
  refine h.of_update hvalid htakes (congrArg Store.members hstore) (fun g hg => ?_) List.nodup_nil (fun hhas => ?_)
    fun k p _ hp heq => absurd heq (hnone k p hp)
  · rw [hstore]
    exact congrArg Option.isSome (Function.update_of_ne hg _ _)
  · rw [hstore] at hhas
    simp [Store.deleteGroup, Store.has] at hhas

/-- A section of a handler that is about to do nothing more to a member. -/
theorem write {t : Task π} {sec : Section π} (hctakes : (s.conns c).takes = t.takes)
    (hdecides : ∀ g, t.decides (s.conns c).user = some g → ∀ k p, (s.conns k).takes = some p →
      p.1 ≠ g)
    (hstems : sec.Stems s c rid now t) (hstore : s'.store = (s.perform full sec).store) :
    Staffed s' := by
  by_cases hon : sec.onMembers = true
  · cases sec with
    | createGroup group creator => exact h.createGroup hvalid htakes hstems.2.2 hstore
    | allowMember group user => exact h.allowMember hvalid htakes hstems.1 hstore
    | setMemberRole group user role =>
      obtain rfl := hstems
      refine h.setMemberRole hvalid htakes ?_ hstore
      cases role with
      | admin => exact .inl rfl
      | member => exact .inr hctakes
    | disallowMember group user =>
      obtain rfl := hstems
      exact h.disallowMember hvalid htakes hctakes hstore
    | deleteGroup group =>
      obtain rfl := hstems
      exact h.deleteGroup hvalid htakes (hdecides group rfl) hstore
    | _ => cases hon
  · have hoff : sec.onMembers = false := Bool.eq_false_iff.mpr hon
    refine h.of_same hvalid (fun k p hp => (htakes k p hp).2) ?_ fun g => ?_
    · rw [hstore, (members_perform hoff).1]
    · rw [hstore, (members_perform hoff).2]

end

/-- A section that a handler comes to while no two of them decide at once. -/
theorem advance (h : Staffed s) {t : Task π} {sec : Section π} {next : Next π}
    (hgoes : s.Goes admins c rid now t sec next) (hone : s.OneAtATime (.advance c full now)) :
    Staffed ((s.perform full sec).settle c rid next) := by
  have hvalid : ((s.perform full sec).settle c rid next).Valid := h.valid.advance hgoes
  have hstore : ((s.perform full sec).settle c rid next).store = (s.perform full sec).store :=
    store_settle _
  have ht := hgoes.task
  have hne : ∀ k, k ≠ c → (((s.perform full sec).settle c rid next).conns k).takes =
      (s.conns k).takes := by
    intro k hk
    rw [Conn.takes, Conn.takes, task_section_of_ne _ _ hk]
  have hctakes : (s.conns c).takes = t.takes := by rw [Conn.takes, ht]; rfl
  have hcdecides : (s.conns c).decides = t.decides (s.conns c).user := by rw [Conn.decides, ht]; rfl
  have hlt : ∀ k p, (s.conns k).takes = some p → k < s.next := by
    intro k p hp
    obtain ⟨rt, hrt, -⟩ := Option.bind_eq_some_iff.mp hp
    exact lt_next_of_task h.valid hrt
  -- A handler that is about to write now has only read.
  have hself : ∀ p, (((s.perform full sec).settle c rid next).conns c).takes = some p →
      sec = .read ∧ t.decides (s.conns c).user = some p.1 ∧
        s.store.has p.1 = true ∧ App.isLastAdmin (s.store.members p.1) p.2 = false := by
    intro p hp
    obtain ⟨⟨rid', t'⟩, ht', htk⟩ := Option.bind_eq_some_iff.mp hp
    rw [task_section_self] at ht'
    obtain ⟨-, rfl | ⟨rfl, g, e, q, m, rfl⟩⟩ := hgoes.stands ht'
    · exact takes_next hgoes htk
    · cases htk
  generalize (s.perform full sec).settle c rid next = s' at *
  by_cases hread : sec = .read
  · subst hread
    have hstore : s'.store = s.store := hstore
    -- No other handler is about to write to a group that this one decides about.
    have hnot : ∀ k p p', k ≠ c → (s'.conns c).takes = some p → (s'.conns k).takes = some p' →
        p'.1 ≠ p.1 := by
      intro k p p' hk hp hp'
      rw [hne k hk] at hp'
      exact hone p.1 (hcdecides.trans (hself p hp).2.1) k (hlt k p' hp') p' hp'
    refine ⟨hvalid, fun g => hstore ▸ h.names g, fun g hg => ?_, fun k p hp => ?_,
      fun k k' p p' hp hp' heq => ?_⟩
    · rw [hstore] at hg ⊢
      exact h.admin g hg
    · rw [hstore]
      by_cases hk : k = c
      · rw [hk] at hp
        obtain ⟨-, -, hhas, hlast⟩ := hself p hp
        exact ⟨hhas, otherAdmin_of_guard (h.names p.1) (h.admin p.1 hhas) hlast⟩
      · exact h.other k p (hne k hk ▸ hp)
    · by_cases hk : k = c <;> by_cases hk' : k' = c
      · rw [hk, hk']
      · exact absurd heq.symm (hnot k' p p' hk' (hk ▸ hp) hp')
      · exact absurd heq (hnot k p' p hk (hk' ▸ hp') hp)
      · exact h.alone k k' p p' (hne k hk ▸ hp) (hne k' hk' ▸ hp') heq
  · have htakes : ∀ k p, (s'.conns k).takes = some p → k ≠ c ∧ (s.conns k).takes = some p := by
      intro k p hp
      have hk : k ≠ c := by
        rintro rfl
        exact hread (hself p hp).1
      exact ⟨hk, hne k hk ▸ hp⟩
    have hdecides : ∀ g, t.decides (s.conns c).user = some g → ∀ k p, (s.conns k).takes = some p →
        p.1 ≠ g := fun g hg k p hp => hone g (hcdecides.trans hg) k (hlt k p hp) p hp
    exact h.write hvalid htakes hctakes hdecides hgoes.stems hstore

theorem step (h : Staffed s) (a : Action π) (hone : s.OneAtATime a) :
    Staffed (s.step admins a) := by
  have hvalid : (s.step admins a).Valid := h.valid.step a
  rcases section_or_quiet h.valid a with ⟨c, full, now, rid, t, sec, next, rfl, hgoes, hstep⟩ | hquiet
  · rw [hstep]
    exact h.advance hgoes hone
  · refine h.of_same hvalid (fun k p hp => ?_) hquiet.members hquiet.has
    obtain ⟨⟨rid, t⟩, ht, htk⟩ := Option.bind_eq_some_iff.mp hp
    rcases hquiet.begins k rid t ht with ⟨hold, -⟩ | ⟨request, rfl⟩
    · rw [Conn.takes, hold]
      exact htk
    · cases htk

end Staffed

/-- **As long as a group is there it has an admin**, in every run in which no handler reads its
members to decide about an admin, or deletes it, while another one has read them and is about to
write. -/
theorem always_an_admin (admins : List String) (l : List (Action π))
    (h : Along (App.step admins) App.OneAtATime App.start l) (group : String)
    (hg : (App.start.run admins l).store.has group = true) :
    ∃ m ∈ (App.start.run admins l).store.members group, m.2 = .admin := by
  have hstaffed : Staffed (App.start.run admins l) :=
    h.preserves (fun _ a hs ha => hs.step a ha) Staffed.start
  exact hstaffed.admin group hg

/-- Two admins of a group on their connections. -/
def twoAdmins : List (Action ℕ) :=
  [.connect "alice", .connect "bob"] ++ requested 0 (.createGroup "g") 2 ++
    requested 0 (.allow "g" "bob") 2 ++ requested 0 (.setRole "g" "bob" "admin") 2

/-- Each demotes the other, and both have read the members before one of them writes. -/
def demoteEachOther : List (Action ℕ) :=
  twoAdmins ++ [.request 0 0 (.setRole "g" "bob" "member"),
    .request 1 0 (.setRole "g" "alice" "member"), go 0, go 1, go 0, go 1, go 0, go 1]

/-- The group is there and has no admin. -/
theorem admins_demote_each_other :
    (App.start.run [] demoteEachOther).store.has "g" = true ∧
      (App.start.run [] demoteEachOther).store.members "g" = [("alice", .member), ("bob", .member)] ∧
      ¬∃ m ∈ (App.start.run [] demoteEachOther).store.members "g", m.2 = .admin := by
  decide +kernel

/-- One after the other: the second is refused, since the first has left no other admin. -/
def demoteInTurn : List (Action ℕ) :=
  twoAdmins ++ requested 0 (.setRole "g" "bob" "member") 3 ++
    requested 0 (.disallow "g" "alice") 2

theorem demoteInTurn_keeps_admin :
    (App.start.run [] demoteInTurn).store.members "g" = [("alice", .admin), ("bob", .member)] ∧
      ∃ m ∈ (App.start.run [] demoteInTurn).store.members "g", m.2 = .admin :=
  ⟨by decide +kernel,
    always_an_admin [] demoteInTurn (by decide +kernel) "g" (by decide +kernel)⟩

end Server

end Quorum
