import Quorum.Server.Steps

/-!
# Who can be reached

The hub has one slot for each user: one connection that is online, and one that is subscribed to a
group. A user with two devices has two connections, and the later one takes the slots.  When it is
closed the slots are empty, although the earlier one is open and was subscribed
(`second_device_closes`).

A user stays reachable in every run in which no connection is closed that is in a slot another open
connection of the user counts on, and no fan-out finds the reader of such a slot gone
(`stays_reachable`).  Which connection counts on which groups is noted beside the run: those it has
subscribed to, unless the user was removed from them or dropped for a full queue since.
-/

namespace Quorum

namespace Server

variable {π : Type} {admins : List String} {s : App π} {full : ℕ → Bool} {c rid now : ℕ}

/-! ### What a connection is subscribed to -/

/-- A connection has subscribed to a group. -/
def Section.takesUp (k : ℕ) : Section π → List String
  | .subscribe group c _ => if k = c then [group] else []
  | _ => []

/-- A user is removed from a group, by either half of a `Disallow` or a `DeleteGroup`, or dropped
for a full queue. -/
def App.ends (s : App π) (full : ℕ → Bool) (group user : String) : Section π → Bool
  | .disallowMember group' target => group' = group && target = user
  | .unsubscribe group' target => group' = group && target = user
  | .deleteGroup group' => group' = group
  | .dropGroup group' => group' = group
  | .fanOut group' sender _ =>
    group' = group && user ≠ sender && (s.hub.subscribers group user).any full
  | _ => false

/-- The groups that each connection counts on after a section. -/
def App.standingAfter (s : App π) (full : ℕ → Bool) (sec : Section π) (standing : ℕ → List String)
    (k : ℕ) : List String :=
  sec.takesUp k ++ (standing k).filter fun group => !s.ends full group (s.conns k).user sec

/-- The groups that each connection counts on after a step. -/
def App.noteStanding (admins : List String) (s : App π) (standing : ℕ → List String) :
    Action π → ℕ → List String
  | .advance c full now =>
    match (s.conns c).task with
    | some (rid, t) => s.standingAfter full (t.next admins s c rid now).1 standing
    | none => standing
  | _ => standing

/-- The group that a handler fans out to. -/
def Task.fans : Task π → Option String
  | .fanning group _ _ _ => some group
  | .signaling group _ => some group
  | _ => none

@[inherit_doc Task.fans]
def Conn.fans (conn : Conn π) : Option String := conn.task.bind fun t => t.2.fans

/-- No connection is closed that is in a slot another open connection of the user counts on, and no
fan-out drops such a slot because its reader is gone. -/
def SlotKept (p : App π × (ℕ → List String)) : Action π → Prop
  | .close c =>
    ∀ k < p.1.next,
      k ≠ c ∧ (p.1.conns k).isOpen = true ∧ (p.1.conns k).user = (p.1.conns c).user →
      p.1.hub.online (p.1.conns c).user ≠ some c ∧
        ∀ group ∈ p.2 k, p.1.hub.subscribers group (p.1.conns c).user ≠ some c
  | .advance c full _ =>
    ∀ group ∈ (p.1.conns c).fans, ∀ k < p.1.next, (p.1.conns k).isOpen = true → group ∈ p.2 k →
      (p.1.conns k).user ≠ (p.1.conns c).user →
        ∀ k' ∈ p.1.hub.subscribers group (p.1.conns k).user,
          full k' = true ∨ (p.1.conns k').running = true
  | _ => True

instance SlotKept.decidable (p : App π × (ℕ → List String)) :
    (a : Action π) → Decidable (SlotKept p a)
  | .close _ => inferInstanceAs (Decidable (∀ k < p.1.next, _ → _ ∧ ∀ group ∈ p.2 k, _))
  | .advance c _ _ => inferInstanceAs (Decidable
      (∀ group ∈ (p.1.conns c).fans, ∀ k < p.1.next, _ → _ → _ →
        ∀ k' ∈ p.1.hub.subscribers group (p.1.conns k).user, _))
  | .claim .. | .connect .. | .request .. | .recv .. | .write .. | .stop .. => .isTrue trivial

/-! ### Slots -/

/-- Every user with an open connection is online, and every group that an open connection counts on
has its user among the subscribers. -/
structure Reachable (p : App π × (ℕ → List String)) : Prop where
  valid : p.1.Valid
  unused : ∀ k, p.1.next ≤ k → p.2 k = []
  online : ∀ k, (p.1.conns k).isOpen = true → (p.1.hub.online (p.1.conns k).user).isSome = true
  subscribed : ∀ k, (p.1.conns k).isOpen = true → ∀ group ∈ p.2 k,
    (p.1.hub.subscribers group (p.1.conns k).user).isSome = true

/-- Where a section leaves a subscription: it is taken up, ended, or found without a reader. -/
theorem subscribed_perform {sec : Section π} {group user : String}
    (hkept : ∀ sender frame, sec = .fanOut group sender frame → user ≠ sender →
      ∀ k ∈ s.hub.subscribers group user, full k = true ∨ (s.conns k).running = true)
    (hends : s.ends full group user sec = false)
    (h : (s.hub.subscribers group user).isSome = true) :
    ((s.perform full sec).hub.subscribers group user).isSome = true := by
  rw [Option.isSome_iff_ne_none] at h ⊢
  intro hgone
  cases sec with
  | subscribe group' c frames =>
    rcases of_update (P := fun row : String → Option ℕ => row user = none) hgone with ⟨rfl, hn⟩ | hn
    · rcases of_update (P := (· = none)) hn with ⟨-, hn⟩ | hn
      · cases hn
      · exact h hn
    · exact h hn
  | unsubscribe group' target =>
    rcases of_update (P := fun row : String → Option ℕ => row user = none) hgone with ⟨rfl, hn⟩ | hn
    · rcases of_update (P := (· = none)) hn with ⟨rfl, -⟩ | hn
      · simp [App.ends] at hends
      · exact h hn
    · exact h hn
  | dropGroup group' =>
    rcases of_update (P := fun row : String → Option ℕ => row user = none) hgone with ⟨rfl, -⟩ | hn
    · simp [App.ends] at hends
    · exact h hn
  | fanOut group' sender frame =>
    rcases of_update (P := fun row : String → Option ℕ => row user = none) hgone with ⟨rfl, hn⟩ | hn
    · dsimp only at hn
      split at hn
      · exact h hn
      · next hu =>
        -- The one in the slot has room for the frame, and its reader is there.
        obtain ⟨k, hk⟩ := Option.ne_none_iff_exists'.mp h
        have hroom : full k = false := by simpa [App.ends, hu, hk] using hends
        have hrunning : (s.conns k).running = true := by
          rcases hkept sender frame rfl hu k hk with hfull | hrunning
          · rw [hroom] at hfull
            cases hfull
          · exact hrunning
        rw [hk, Option.filter_some, if_pos (by rw [App.accepts, hroom, hrunning]; rfl)] at hn
        cases hn
    · exact h hn
  | deliver recipient sender group' after payload =>
    dsimp only [App.perform, App.deliver] at hgone
    split at hgone <;> exact h hgone
  | _ => exact h hgone

/-- What a connection counts on after a section, it has just subscribed to or counted on before. -/
theorem mem_standingAfter {sec : Section π} {standing : ℕ → List String} {k : ℕ} {group : String}
    (h : group ∈ s.standingAfter full sec standing k) :
    (∃ frames, sec = .subscribe group k frames) ∨
      (group ∈ standing k ∧ s.ends full group (s.conns k).user sec = false) := by
  rcases List.mem_append.mp h with h | h
  · left
    cases sec with
    | subscribe group' c frames =>
      dsimp only [Section.takesUp] at h
      split at h
      · next hk => exact ⟨frames, by rw [List.mem_singleton.mp h, hk]⟩
      · cases h
    | _ => cases h
  · obtain ⟨hm, hends⟩ := List.mem_filter.mp h
    exact .inr ⟨hm, by simpa using hends⟩

namespace Reachable

variable {standing : ℕ → List String}

theorem start : Reachable ((App.start, fun _ => []) : App π × (ℕ → List String)) where
  valid := .start
  unused _ _ := rfl
  online _ h := by cases h
  subscribed _ h := by cases h

theorem advance (h : Reachable (s, standing)) {t : Task π} {sec : Section π} {next : Next π}
    (hgoes : s.Goes admins c rid now t sec next)
    (hkept : SlotKept (s, standing) (.advance c full now)) :
    Reachable ((s.perform full sec).settle c rid next, s.standingAfter full sec standing) := by
  have hlt : c < s.next := lt_next_of_task h.valid hgoes.task
  refine ⟨h.valid.advance hgoes, fun k hk => ?_, fun k ho => ?_, fun k ho group hg => ?_⟩
  · rw [next_settle, next_perform] at hk
    refine List.eq_nil_iff_forall_not_mem.mpr fun group hg => ?_
    rcases mem_standingAfter hg with ⟨frames, rfl⟩ | ⟨hold, -⟩
    · exact absurd hlt (hgoes.stems.1 ▸ not_lt.mpr hk)
    · have hnil : standing k = [] := h.unused k hk
      rw [hnil] at hold
      cases hold
  · rw [isOpen_section] at ho
    rw [user_section, hub_settle, online_perform]
    exact h.online k ho
  · rw [isOpen_section] at ho
    rw [user_section, hub_settle]
    rcases mem_standingAfter hg with ⟨frames, rfl⟩ | ⟨hold, hends⟩
    · simp [App.perform, App.setSubscribers, App.setConn]
    · refine subscribed_perform (fun sender frame hsec hu => ?_) hends (h.subscribed k ho group hold)
      -- A fan-out: the run does not drop the slot for want of a reader.
      subst hsec
      obtain ⟨rfl, hfrom⟩ := hgoes.stems
      refine hkept group ?_ k (lt_next h.valid ho) ho hold hu
      change (s.conns c).fans = some group
      rw [Conn.fans, hgoes.task]
      rcases hfrom with ⟨e, q, p, rfl, -⟩ | ⟨p, rfl, -⟩ <;> rfl

theorem close (h : Reachable (s, standing)) (ho : (s.conns c).isOpen = true)
    (ht : (s.conns c).task = none) (hkept : SlotKept (s, standing) (.close c)) :
    Reachable (s.close c, standing) := by
  have hopen : ∀ {k}, ((s.close c).conns k).isOpen = true → k ≠ c := by
    rintro k hk rfl
    rw [conns_close_self ho ht] at hk
    cases hk
  refine ⟨h.valid.close ho ht, fun k hk => h.unused k (next_close ▸ hk), fun k hk => ?_,
    fun k hk group hg => ?_⟩
  · have hne : k ≠ c := hopen hk
    rw [conns_close_of_ne hne] at hk ⊢
    obtain ⟨k', hk'⟩ := Option.isSome_iff_exists.mp (h.online k hk)
    refine Option.isSome_iff_exists.mpr ⟨k', (online_close ho ht).mpr ⟨hk', ?_⟩⟩
    rintro ⟨hu, rfl⟩
    exact (hkept k (lt_next h.valid hk) ⟨hne, hk, hu⟩).1 (hu ▸ hk')
  · have hne : k ≠ c := hopen hk
    rw [conns_close_of_ne hne] at hk ⊢
    obtain ⟨k', hk'⟩ := Option.isSome_iff_exists.mp (h.subscribed k hk group hg)
    refine Option.isSome_iff_exists.mpr ⟨k', (subscribers_close ho ht).mpr ⟨hk', ?_⟩⟩
    rintro ⟨hu, rfl⟩
    exact (hkept k (lt_next h.valid hk) ⟨hne, hk, hu⟩).2 group hg (hu ▸ hk')

theorem connect (h : Reachable (s, standing)) (user : String) :
    Reachable (s.connect user, standing) := by
  refine ⟨h.valid.connect user, fun k hk => h.unused k (Nat.le_of_succ_le hk), fun k hk => ?_,
    fun k hk group hg => ?_⟩
  · change (Function.update s.hub.online user (some s.next) _).isSome = true
    rw [Function.update_apply]
    split
    · rfl
    · next hu =>
      have hne : k ≠ s.next := by
        rintro rfl
        exact hu (by rw [conns_connect_self])
      rw [conns_connect_of_ne user hne] at hk ⊢
      exact h.online k hk
  · have hne : k ≠ s.next := by
      rintro rfl
      rw [h.unused s.next le_rfl] at hg
      cases hg
    rw [conns_connect_of_ne user hne] at hk ⊢
    exact h.subscribed k hk group hg

/-- A step that leaves the hub, and who has an open connection. -/
theorem of_same (h : Reachable (s, standing)) {s' : App π} (hvalid : s'.Valid)
    (hsame : s'.hub = s.hub ∧ s'.next = s.next ∧ ∀ k, (s'.conns k).user = (s.conns k).user ∧
      (s'.conns k).isOpen = (s.conns k).isOpen) : Reachable (s', standing) := by
  obtain ⟨hhub, hnext, hconns⟩ := hsame
  refine ⟨hvalid, fun k hk => h.unused k (hnext ▸ hk), fun k hk => ?_, fun k hk group hg => ?_⟩
  · rw [(hconns k).2] at hk
    rw [hhub, (hconns k).1]
    exact h.online k hk
  · rw [(hconns k).2] at hk
    rw [hhub, (hconns k).1]
    exact h.subscribed k hk group hg

theorem step {p : App π × (ℕ → List String)} (h : Reachable p) (a : Action π) (hkept : SlotKept p a) :
    Reachable (noting (App.step admins) (App.noteStanding admins) p a) := by
  obtain ⟨s, standing⟩ := p
  have hvalid : (s.step admins a).Valid := h.valid.step a
  cases a with
  | advance c full now =>
    cases ht : (s.conns c).task with
    | none =>
      have hnote : s.noteStanding admins standing (.advance c full now) = standing := by
        dsimp only [App.noteStanding]
        rw [ht]
      dsimp only [noting]
      rw [hnote, App.step, advance_of_idle ht]
      exact h
    | some rt =>
      obtain ⟨rid, t⟩ := rt
      have hnote : s.noteStanding admins standing (.advance c full now) =
          s.standingAfter full (t.next admins s c rid now).1 standing := by
        dsimp only [App.noteStanding]
        rw [ht]
      have hgoes := App.goes admins now ht
      dsimp only [noting]
      rw [hnote, App.step, hgoes.advance]
      exact h.advance hgoes hkept
  | connect user => exact h.connect user
  | close c =>
    by_cases hc : (s.conns c).isOpen = true ∧ (s.conns c).task.isNone = true
    · exact h.close hc.1 (Option.isNone_iff_eq_none.mp hc.2) hkept
    · dsimp only [noting, App.noteStanding, App.step, App.close]
      rw [if_neg hc]
      exact h
  | _ => exact h.of_same hvalid (still_step (by simp) (by simp) (by simp))

end Reachable

/-! ### Every run -/

/-- The relay after some steps, and the groups that each connection counts on. -/
def runStanding (admins : List String) (l : List (Action π)) : App π × (ℕ → List String) :=
  l.foldl (noting (App.step admins) (App.noteStanding admins)) (App.start, fun _ => [])

theorem fst_runStanding (admins : List String) (l : List (Action π)) :
    (runStanding admins l).1 = App.start.run admins l :=
  fst_foldl_noting ..

/-- An open connection of a user is in a slot. -/
def App.Holds (s : App π) (user : String) (slot : Option ℕ) : Prop :=
  ∃ k, slot = some k ∧ (s.conns k).user = user ∧ (s.conns k).isOpen = true

/-- **A connected device stays reachable.**  When no connection is closed that is in a slot another
open connection of the user counts on, and no fan-out finds the reader of such a slot gone, then an
open connection of every user who has one is online, and one is subscribed to every group that an
open connection of the user counts on. -/
theorem stays_reachable (admins : List String) (l : List (Action π))
    (h : Along (noting (App.step admins) (App.noteStanding admins)) SlotKept
      (App.start, fun _ => []) l) :
    ∀ k, ((App.start.run admins l).conns k).isOpen = true →
      (App.start.run admins l).Holds ((App.start.run admins l).conns k).user
        ((App.start.run admins l).hub.online ((App.start.run admins l).conns k).user) ∧
      ∀ group ∈ (runStanding admins l).2 k,
        (App.start.run admins l).Holds ((App.start.run admins l).conns k).user
          ((App.start.run admins l).hub.subscribers group
            ((App.start.run admins l).conns k).user) := by
  intro k ho
  have hreach : Reachable (runStanding admins l) :=
    h.preserves (fun _ a hp ha => hp.step a ha) .start
  rw [← fst_runStanding] at ho ⊢
  refine ⟨?_, fun group hg => ?_⟩
  · obtain ⟨k', hk'⟩ := Option.isSome_iff_exists.mp (hreach.online k ho)
    exact ⟨k', hk', hreach.valid.online _ k' hk'⟩
  · obtain ⟨k', hk'⟩ := Option.isSome_iff_exists.mp (hreach.subscribed k ho group hg)
    exact ⟨k', hk', hreach.valid.subscriber _ _ k' hk'⟩

/-- `alice` has a group, connects with a second device and subscribes there too. -/
def twoDevices : List (Action ℕ) :=
  .connect "alice" :: requested 0 (.createGroup "g") 2 ++ .connect "alice" ::
    requested 1 (.subscribe "g" 0) 2

/-- The second device is turned off. -/
def secondCloses : List (Action ℕ) := twoDevices ++ [.close 1]

/-- The first device is turned off. -/
def firstCloses : List (Action ℕ) := twoDevices ++ [.close 0]

theorem second_device_closes :
    ((App.start.run [] secondCloses).conns 0).user = "alice" ∧
    ((App.start.run [] secondCloses).conns 0).isOpen = true ∧
    (runStanding [] secondCloses).2 0 = ["g"] ∧
    (App.start.run [] secondCloses).hub.subscribers "g" "alice" = none ∧
    (App.start.run [] secondCloses).hub.online "alice" = none := by
  decide +kernel

theorem first_device_closes :
    Along (noting (App.step []) (App.noteStanding [])) SlotKept (App.start, fun _ => [])
      firstCloses ∧
    (App.start.run [] firstCloses).Holds "alice"
      ((App.start.run [] firstCloses).hub.subscribers "g" "alice") := by
  have halong : Along (noting (App.step []) (App.noteStanding [])) SlotKept
      (App.start, fun _ => []) firstCloses := by decide +kernel
  have hopen : ((App.start.run [] firstCloses).conns 1).isOpen = true := by decide +kernel
  have huser : ((App.start.run [] firstCloses).conns 1).user = "alice" := by decide +kernel
  have hheld := (stays_reachable [] firstCloses halong 1 hopen).2 "g" (by decide +kernel)
  rw [huser] at hheld
  exact ⟨halong, hheld⟩

end Server

end Quorum
