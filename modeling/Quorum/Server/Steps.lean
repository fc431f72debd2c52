import Quorum.Server.Sections

/-!
# Steps of the relay

A step is a section of some handler, or one of a few things that happen to a connection
(`step_case`). What the hub says of a connection is true of it in every state (`App.Valid`),
whatever is asked of the relay.
-/

namespace Quorum

namespace Server

variable {π : Type} {admins : List String} {s : App π} {full : ℕ → Bool} {c rid now : ℕ}

/-! ### What a step may do -/

/-- What holds of the relay whatever is asked of it. -/
structure App.Valid (s : App π) : Prop where
  unused : ∀ c, s.next ≤ c →
    (s.conns c).isOpen = false ∧ (s.conns c).running = false ∧ (s.conns c).history = []
  task : ∀ c, (s.conns c).task.isSome = true → (s.conns c).isOpen = true
  subscriber : ∀ group user c, s.hub.subscribers group user = some c →
    (s.conns c).user = user ∧ (s.conns c).isOpen = true
  online : ∀ user c, s.hub.online user = some c →
    (s.conns c).user = user ∧ (s.conns c).isOpen = true
  log : ∀ group data, s.store.logs.groups group = some data →
    data.log.map (·.seq) = List.range' 1 data.log.length ∧ ∀ m ∈ data.log, m.group = group

section

variable {t : Task π} {sec : Section π} {next : Next π}

theorem App.goes (admins : List String) (now : ℕ) (h : (s.conns c).task = some (rid, t)) :
    s.Goes admins c rid now t (t.next admins s c rid now).1 (t.next admins s c rid now).2 := ⟨h, rfl⟩

/-- What an `advance` does. -/
theorem App.Goes.advance (h : s.Goes admins c rid now t sec next) :
    s.advance admins c full now = (s.perform full sec).settle c rid next := by
  rw [App.advance, h.task]
  dsimp only
  rw [h.eq]

end

theorem advance_of_idle (h : (s.conns c).task = none) : s.advance admins c full now = s := by
  rw [App.advance, h]

theorem lt_next (h : s.Valid) (ho : (s.conns c).isOpen = true) : c < s.next := by
  by_contra hge
  rw [(h.unused c (not_lt.mp hge)).1] at ho
  cases ho

/-- A connection with a handler was made. -/
theorem lt_next_of_task (h : s.Valid) {rt : ℕ × Task π} (ht : (s.conns c).task = some rt) :
    c < s.next :=
  lt_next h (h.task c (by rw [ht]; rfl))

/-- What the writer does to a connection. -/
structure Conn.Wrote (conn conn' : Conn π) : Prop where
  user : conn'.user = conn.user
  task : conn'.task = conn.task
  isOpen : conn'.isOpen = conn.isOpen
  history : conn'.history = conn.history
  running : conn'.running = true → conn.running = true

theorem Conn.Wrote.refl (conn : Conn π) : conn.Wrote conn := ⟨rfl, rfl, rfl, rfl, id⟩

theorem wrote_update {conn : Conn π} (h : (s.conns c).Wrote conn) (k : ℕ) :
    (s.conns k).Wrote ((s.setConn c conn).conns k) := by
  by_cases hk : k = c
  · rw [hk, conns_setConn_self]
    exact h
  · rw [conns_setConn_of_ne hk]
    exact .refl _

theorem wrote_recv (k : ℕ) : (s.conns k).Wrote ((s.recv c).conns k) := by
  dsimp only [App.recv]
  split
  · split
    · refine wrote_update ?_ k
      exact ⟨rfl, rfl, rfl, rfl, id⟩
    · exact .refl _
  · exact .refl _

theorem wrote_write (ok : Bool) (k : ℕ) : (s.conns k).Wrote ((s.write c ok).conns k) := by
  dsimp only [App.write]
  split
  · exact .refl _
  · split
    · refine wrote_update ?_ k
      exact ⟨rfl, rfl, rfl, rfl, id⟩
    · refine wrote_update ?_ k
      exact ⟨rfl, rfl, rfl, rfl, fun h => by cases h⟩

/-- Only handlers, connections and their ends change more than a writer does. -/
inductive Action.Case (admins : List String) (s : App π) : Action π → App π → Prop
  | claim (invite user : String) (now : ℕ) (record : InviteRecord π)
      (h : s.store.redeemable invite user now = .ok record) :
      Case admins s (.claim invite user now) (s.setStore (s.store.redeem invite user record))
  | connect (user : String) : Case admins s (.connect user) (s.connect user)
  | request (c rid : ℕ) (request : Request π) (ho : (s.conns c).isOpen = true)
      (h : (s.conns c).task = none) :
      Case admins s (.request c rid request)
        (s.setConn c { s.conns c with task := some (rid, .start request) })
  | advance (c : ℕ) (full : ℕ → Bool) (now rid : ℕ) (t : Task π) (sec : Section π) (next : Next π)
      (h : s.Goes admins c rid now t sec next) :
      Case admins s (.advance c full now) ((s.perform full sec).settle c rid next)
  | writer (a : Action π) (s' : App π) (hstore : s'.store = s.store) (hhub : s'.hub = s.hub)
      (hnext : s'.next = s.next) (htags : s'.tags = s.tags)
      (hconns : ∀ k, (s.conns k).Wrote (s'.conns k))
      (hidle : ∀ c full now, a = .advance c full now → (s.conns c).task = none) : Case admins s a s'
  | close (c : ℕ) (ho : (s.conns c).isOpen = true) (h : (s.conns c).task = none) :
      Case admins s (.close c) (s.close c)

/-- **What a step may do.** -/
theorem step_case (admins : List String) (s : App π) (a : Action π) :
    a.Case admins s (s.step admins a) := by
  have hsame : (∀ c full now, a = .advance c full now → (s.conns c).task = none) →
      Action.Case admins s a s := .writer a s rfl rfl rfl rfl fun _ => .refl _
  cases a with
  | claim invite user now =>
    dsimp only [App.step]
    split
    · next record h => exact .claim invite user now record h
    · exact hsame (by simp)
  | connect user => exact .connect user
  | request c rid request =>
    dsimp only [App.step]
    split
    · next h => exact .request c rid request h.1 (Option.isNone_iff_eq_none.mp h.2)
    · exact hsame (by simp)
  | advance c full now =>
    dsimp only [App.step]
    cases ht : (s.conns c).task with
    | none =>
      rw [advance_of_idle ht]
      refine hsame fun c' full' now' heq => ?_
      cases heq
      exact ht
    | some rt =>
      have hgoes := App.goes admins now ht
      rw [hgoes.advance]
      exact .advance c full now _ _ _ _ hgoes
  | recv c =>
    refine .writer _ _ ?_ ?_ ?_ ?_ wrote_recv (by simp)
    all_goals
      dsimp only [App.step, App.recv]
      split
      · split <;> rfl
      · rfl
  | write c ok =>
    refine .writer _ _ ?_ ?_ ?_ ?_ (wrote_write ok) (by simp)
    all_goals
      dsimp only [App.step, App.write]
      split
      · rfl
      · split <;> rfl
  | stop c =>
    dsimp only [App.step]
    split
    · refine .writer _ _ rfl rfl rfl rfl (wrote_update ?_) (by simp)
      exact ⟨rfl, rfl, rfl, rfl, fun h => by cases h⟩
    · exact hsame (by simp)
  | close c =>
    by_cases h : (s.conns c).isOpen ∧ (s.conns c).task.isNone
    · exact .close c h.1 (Option.isNone_iff_eq_none.mp h.2)
    · rw [App.step, App.close, if_neg h]
      exact hsame (by simp)

/-- A handler begins, and its connection is as it was otherwise. -/
theorem same_setTask (s : App π) (c : ℕ) (task : Option (ℕ × Task π)) (k : ℕ) :
    ((s.setConn c { s.conns c with task }).conns k).user = (s.conns k).user ∧
      ((s.setConn c { s.conns c with task }).conns k).isOpen = (s.conns k).isOpen := by
  by_cases hk : k = c
  · rw [hk, conns_setConn_self]
    exact ⟨rfl, rfl⟩
  · rw [conns_setConn_of_ne hk]
    exact ⟨rfl, rfl⟩

/-- A section and its end, for all connections but their frames. -/
theorem user_section (sec : Section π) (next : Next π) (k : ℕ) :
    (((s.perform full sec).settle c rid next).conns k).user = (s.conns k).user := by
  rw [(same_settle _ k).1, (same_perform s full sec k).user]

theorem isOpen_section (sec : Section π) (next : Next π) (k : ℕ) :
    (((s.perform full sec).settle c rid next).conns k).isOpen = (s.conns k).isOpen := by
  rw [(same_settle _ k).2, (same_perform s full sec k).isOpen]

theorem task_section_of_ne (sec : Section π) (next : Next π) {k : ℕ} (hk : k ≠ c) :
    (((s.perform full sec).settle c rid next).conns k).task = (s.conns k).task := by
  rw [conns_settle_of_ne _ hk, (same_perform s full sec k).task]

theorem task_section_self (sec : Section π) (next : Next π) :
    (((s.perform full sec).settle c rid next).conns c).task =
      next.task rid (s.conns c).task := by
  rw [task_settle_self, (same_perform s full sec c).task]

theorem conns_connect_self (user : String) :
    (s.connect user).conns s.next =
      { Conn.unused with
        user
        isOpen := true
        history := (s.store.welcomes user).map .welcome
        queue := (s.store.welcomes user).map .welcome
        running := true } :=
  Function.update_self ..

theorem conns_connect_of_ne (user : String) {k : ℕ} (h : k ≠ s.next) :
    (s.connect user).conns k = s.conns k :=
  Function.update_of_ne h ..

@[simp] theorem store_close : (s.close c).store = s.store := by
  dsimp only [App.close]
  split <;> rfl

@[simp] theorem next_close : (s.close c).next = s.next := by
  dsimp only [App.close]
  split <;> rfl

theorem conns_close_of_ne {k : ℕ} (h : k ≠ c) : (s.close c).conns k = s.conns k := by
  dsimp only [App.close]
  split
  · exact Function.update_of_ne h ..
  · rfl

theorem conns_close_self (ho : (s.conns c).isOpen = true) (ht : (s.conns c).task = none) :
    (s.close c).conns c = { (s.conns c).stop with isOpen := false, writing := none } := by
  dsimp only [App.close]
  rw [if_pos ⟨ho, by rw [ht]; rfl⟩]
  exact Function.update_self ..

theorem subscribers_close {group user : String} {k : ℕ} (ho : (s.conns c).isOpen = true)
    (ht : (s.conns c).task = none) :
    (s.close c).hub.subscribers group user = some k ↔
      s.hub.subscribers group user = some k ∧ ¬(user = (s.conns c).user ∧ k = c) := by
  dsimp only [App.close]
  rw [if_pos ⟨ho, by rw [ht]; rfl⟩, Option.filter_eq_some_iff, decide_eq_true_iff]

theorem online_close {user : String} {k : ℕ} (ho : (s.conns c).isOpen = true)
    (ht : (s.conns c).task = none) :
    (s.close c).hub.online user = some k ↔
      s.hub.online user = some k ∧ ¬(user = (s.conns c).user ∧ k = c) := by
  dsimp only [App.close]
  rw [if_pos ⟨ho, by rw [ht]; rfl⟩, Option.filter_eq_some_iff, decide_eq_true_iff]

namespace App.Valid

theorem start : (App.start : App π).Valid where
  unused _ _ := ⟨rfl, rfl, rfl⟩
  task _ h := by cases h
  subscriber _ _ _ h := by cases h
  online _ _ h := by cases h
  log _ _ h := by cases h

theorem connect (h : s.Valid) (user : String) : (s.connect user).Valid := by
  have hlt : ∀ {k}, (s.conns k).isOpen = true → k ≠ s.next := fun ho => (lt_next h ho).ne
  refine ⟨fun k hk => ?_, fun k hk => ?_, fun group peer k hk => ?_, fun peer k hk => ?_, h.log⟩
  · rw [conns_connect_of_ne user (Nat.lt_of_succ_le hk).ne']
    exact h.unused k (Nat.le_of_succ_le hk)
  · by_cases heq : k = s.next
    · rw [heq, conns_connect_self]
    · rw [conns_connect_of_ne user heq] at hk ⊢
      exact h.task k hk
  · have hold := h.subscriber group peer k hk
    rw [conns_connect_of_ne user (hlt hold.2)]
    exact hold
  · rcases of_update (P := (· = some k)) hk with ⟨heq, hk⟩ | hk
    · obtain rfl := Option.some.inj hk
      rw [conns_connect_self]
      exact ⟨heq.symm, rfl⟩
    · have hold := h.online peer k hk
      rw [conns_connect_of_ne user (hlt hold.2)]
      exact hold

theorem advance (h : s.Valid) {t : Task π} {sec : Section π} {next : Next π}
    (hgoes : s.Goes admins c rid now t sec next) : ((s.perform full sec).settle c rid next).Valid := by
  have hopen : (s.conns c).isOpen = true := h.task c (by rw [hgoes.task]; rfl)
  refine ⟨fun k hk => ?_, fun k hk => ?_, fun group user k hk => ?_, fun user k hk => ?_,
    fun group data hg => ?_⟩
  · rw [next_settle, next_perform] at hk
    have hne : k ≠ c := (lt_of_lt_of_le (lt_next h hopen) hk).ne'
    rw [conns_settle_of_ne _ hne, conns_perform_of_stopped (h.unused k hk).2.1]
    exact h.unused k hk
  · rw [isOpen_section]
    by_cases hkc : k = c
    · rw [hkc]
      exact hopen
    · rw [task_section_of_ne _ _ hkc] at hk
      exact h.task k hk
  · rw [user_section, isOpen_section]
    rw [hub_settle] at hk
    rcases subscribers_perform hk with hk | ⟨frames, rfl, hu⟩
    · exact h.subscriber group user k hk
    · obtain rfl := hgoes.stems.1
      exact ⟨hu.symm, hopen⟩
  · rw [user_section, isOpen_section]
    rw [hub_settle, online_perform] at hk
    exact h.online user k hk
  · rw [store_settle] at hg
    rcases logs_perform hg with hg | hnil | ⟨old, epoch, sender, payload, commit, -, hg, hlog⟩
    · exact h.log group data hg
    · rw [hnil]
      exact ⟨rfl, fun _ hm => absurd hm List.not_mem_nil⟩
    · obtain ⟨hseqs, hgroup⟩ := h.log group old hg
      rw [hlog, List.map_append, hseqs, List.length_append, List.length_singleton,
        List.range'_concat]
      refine ⟨by simp [Relay.GroupData.entry, Nat.add_comm], List.forall_mem_append.mpr ⟨hgroup, ?_⟩⟩
      exact List.forall_mem_singleton.mpr rfl

theorem close (h : s.Valid) (ho : (s.conns c).isOpen = true) (ht : (s.conns c).task = none) :
    (s.close c).Valid := by
  have hself : ((s.close c).conns c).task = none := by
    rw [conns_close_self ho ht]
    exact ht
  refine ⟨fun k hk => ?_, fun k hk => ?_, fun group user k hk => ?_, fun user k hk => ?_,
    by simpa using h.log⟩
  · rw [next_close] at hk
    rw [conns_close_of_ne (lt_of_lt_of_le (lt_next h ho) hk).ne']
    exact h.unused k hk
  · have hne : k ≠ c := by
      rintro rfl
      rw [hself] at hk
      cases hk
    rw [conns_close_of_ne hne] at hk ⊢
    exact h.task k hk
  · obtain ⟨hk, hnot⟩ := (subscribers_close ho ht).mp hk
    have hold := h.subscriber group user k hk
    have hne : k ≠ c := fun heq => hnot ⟨heq ▸ hold.1.symm, heq⟩
    rw [conns_close_of_ne hne]
    exact hold
  · obtain ⟨hk, hnot⟩ := (online_close ho ht).mp hk
    have hold := h.online user k hk
    have hne : k ≠ c := fun heq => hnot ⟨heq ▸ hold.1.symm, heq⟩
    rw [conns_close_of_ne hne]
    exact hold

theorem step (h : s.Valid) (a : Action π) : (s.step admins a).Valid := by
  have hcase := step_case admins s a
  generalize s.step admins a = s' at hcase ⊢
  cases hcase with
  | claim invite user now record hr => exact ⟨h.unused, h.task, h.subscriber, h.online, h.log⟩
  | connect user => exact h.connect user
  | request c rid request ho ht =>
    have hsame := same_setTask s c (some (rid, .start request))
    refine ⟨fun k hk => ?_, fun k hk => ?_, fun group user k hk => ?_, fun user k hk => ?_, h.log⟩
    · rw [conns_setConn_of_ne (lt_of_lt_of_le (lt_next h ho) hk).ne']
      exact h.unused k hk
    · rw [(hsame k).2]
      by_cases hkc : k = c
      · rw [hkc]
        exact ho
      · rw [conns_setConn_of_ne hkc] at hk
        exact h.task k hk
    · rw [(hsame k).1, (hsame k).2]
      exact h.subscriber group user k hk
    · rw [(hsame k).1, (hsame k).2]
      exact h.online user k hk
  | advance c full now rid t sec next hgoes => exact h.advance hgoes
  | writer a s' hstore hhub hnext htags hconns =>
    refine ⟨fun k hk => ?_, fun k hk => ?_, fun group user k hk => ?_, fun user k hk => ?_,
      hstore ▸ h.log⟩
    · rw [hnext] at hk
      obtain ⟨ho, hr, hh⟩ := h.unused k hk
      refine ⟨(hconns k).isOpen.trans ho, ?_, (hconns k).history.trans hh⟩
      by_contra hrun
      rw [(hconns k).running (Bool.not_eq_false _ ▸ hrun)] at hr
      cases hr
    · rw [(hconns k).isOpen]
      exact h.task k ((hconns k).task ▸ hk)
    · rw [(hconns k).user, (hconns k).isOpen]
      exact h.subscriber group user k (hhub ▸ hk)
    · rw [(hconns k).user, (hconns k).isOpen]
      exact h.online user k (hhub ▸ hk)
  | close c ho ht => exact h.close ho ht

/-- Every state that the relay comes to. -/
theorem run (admins : List String) (l : List (Action π)) : (App.start.run admins l).Valid :=
  foldl_preserves (fun _ a hs => hs.step a) l start

end App.Valid

/-- A connection that was made has one user. -/
theorem user_step (a : Action π) {k : ℕ} (hk : k < s.next) :
    ((s.step admins a).conns k).user = (s.conns k).user := by
  have hcase := step_case admins s a
  generalize s.step admins a = s' at hcase ⊢
  cases hcase with
  | claim invite user now record hr => rfl
  | connect user => rw [conns_connect_of_ne user hk.ne]
  | request c rid request ho ht => exact (same_setTask s c _ k).1
  | advance c full now rid t sec next hgoes => exact user_section _ _ k
  | writer a s' hstore hhub hnext htags hconns => exact (hconns k).user
  | close c ho ht =>
    by_cases hkc : k = c
    · rw [hkc, conns_close_self ho ht]
      rfl
    · rw [conns_close_of_ne hkc]

theorem next_le_step (a : Action π) : s.next ≤ (s.step admins a).next := by
  have hcase := step_case admins s a
  generalize s.step admins a = s' at hcase ⊢
  cases hcase with
  | connect user => exact Nat.le_succ _
  | advance c full now rid t sec next hgoes => rw [next_settle, next_perform]
  | writer a s' hstore hhub hnext htags hconns => exact hnext.ge
  | close c ho ht => rw [next_close]
  | _ => exact le_rfl

/-- All other steps leave the hub alone, and who has an open connection. -/
theorem still_step {a : Action π} (hconnect : ∀ user, a ≠ .connect user)
    (hadvance : ∀ c full now, a ≠ .advance c full now) (hclose : ∀ c, a ≠ .close c) :
    (s.step admins a).hub = s.hub ∧ (s.step admins a).next = s.next ∧
      ∀ k, ((s.step admins a).conns k).user = (s.conns k).user ∧
        ((s.step admins a).conns k).isOpen = (s.conns k).isOpen := by
  have hcase := step_case admins s a
  generalize s.step admins a = s' at hcase ⊢
  cases hcase with
  | claim invite user now record hr => exact ⟨rfl, rfl, fun _ => ⟨rfl, rfl⟩⟩
  | connect user => exact absurd rfl (hconnect user)
  | request c rid request ho ht => exact ⟨rfl, rfl, same_setTask s c _⟩
  | advance c full now rid t sec next hgoes => exact absurd rfl (hadvance c full now)
  | writer a s' hstore hhub hnext htags hconns =>
    exact ⟨hhub, hnext, fun k => ⟨(hconns k).user, (hconns k).isOpen⟩⟩
  | close c ho ht => exact absurd rfl (hclose c)

/-- What is not a section: handlers begin and stay where they are, members and logs stay,
subscriptions go, and all that is put into a queue are the Welcomes of a new connection. -/
structure Quiet (s s' : App π) : Prop where
  members : s'.store.members = s.store.members
  logs : s'.store.logs = s.store.logs
  locks : s'.hub.locks = s.hub.locks
  subscribers : ∀ group user k, s'.hub.subscribers group user = some k →
    s.hub.subscribers group user = some k
  begins : ∀ k rid t, (s'.conns k).task = some (rid, t) →
    ((s.conns k).task = some (rid, t) ∧ (s'.conns k).user = (s.conns k).user) ∨
      ∃ request, t = .start request
  stays : ∀ k rid t, (s.conns k).task = some (rid, t) → (s'.conns k).task = some (rid, t)
  history : ∀ k, (s'.conns k).history = (s.conns k).history ∨
    (k = s.next ∧ ∀ frame ∈ (s'.conns k).history, ∃ w, frame = .welcome w)

namespace Quiet

theorem has {s s' : App π} (h : Quiet s s') (group : String) :
    s'.store.has group = s.store.has group := by
  rw [Store.has, Store.has, h.logs]

theorem isMember {s s' : App π} (h : Quiet s s') (group user : String) :
    s'.store.isMember group user = s.store.isMember group user := by
  rw [Store.isMember, Store.isMember, h.has, h.members]

theorem connect (h : s.Valid) (user : String) : Quiet s (s.connect user) where
  members := rfl
  logs := rfl
  locks := rfl
  subscribers _ _ _ hk := hk
  begins k rid t ht := by
    by_cases hk : k = s.next
    · rw [hk, conns_connect_self] at ht
      cases ht
    · rw [conns_connect_of_ne user hk] at ht ⊢
      exact .inl ⟨ht, rfl⟩
  stays k rid t ht := by
    rw [conns_connect_of_ne user (lt_next_of_task h ht).ne]
    exact ht
  history k := by
    by_cases hk : k = s.next
    · refine .inr ⟨hk, fun frame hf => ?_⟩
      rw [hk, conns_connect_self] at hf
      obtain ⟨w, -, rfl⟩ := List.mem_map.mp hf
      exact ⟨w, rfl⟩
    · rw [conns_connect_of_ne user hk]
      exact .inl rfl

theorem request (ht : (s.conns c).task = none) (rid : ℕ) (request : Request π) :
    Quiet s (s.setConn c { s.conns c with task := some (rid, .start request) }) where
  members := rfl
  logs := rfl
  locks := rfl
  subscribers _ _ _ hk := hk
  begins k rid' t ht' := by
    by_cases hk : k = c
    · rw [hk, conns_setConn_self] at ht'
      cases ht'
      exact .inr ⟨request, rfl⟩
    · rw [conns_setConn_of_ne hk] at ht' ⊢
      exact .inl ⟨ht', rfl⟩
  stays k rid' t ht' := by
    have hk : k ≠ c := by
      rintro rfl
      rw [ht] at ht'
      cases ht'
    rw [conns_setConn_of_ne hk]
    exact ht'
  history k := by
    left
    by_cases hk : k = c
    · rw [hk, conns_setConn_self]
    · rw [conns_setConn_of_ne hk]

theorem close (ho : (s.conns c).isOpen = true) (ht : (s.conns c).task = none) :
    Quiet s (s.close c) where
  members := by rw [store_close]
  logs := by rw [store_close]
  locks := by
    dsimp only [App.close]
    split <;> rfl
  subscribers _ _ _ hk := ((subscribers_close ho ht).mp hk).1
  begins k rid t ht' := by
    by_cases hk : k = c
    · rw [hk, conns_close_self ho ht] at ht'
      change (s.conns c).task = _ at ht'
      rw [ht] at ht'
      cases ht'
    · rw [conns_close_of_ne hk] at ht' ⊢
      exact .inl ⟨ht', rfl⟩
  stays k rid t ht' := by
    have hk : k ≠ c := by
      rintro rfl
      rw [ht] at ht'
      cases ht'
    rw [conns_close_of_ne hk]
    exact ht'
  history k := by
    left
    by_cases hk : k = c
    · rw [hk, conns_close_self ho ht]
      rfl
    · rw [conns_close_of_ne hk]

end Quiet

/-- **A step is a section of a handler, or quiet.** -/
theorem section_or_quiet (h : s.Valid) (a : Action π) :
    (∃ c full now rid t sec next, a = .advance c full now ∧ s.Goes admins c rid now t sec next ∧
      s.step admins a = (s.perform full sec).settle c rid next) ∨ Quiet s (s.step admins a) := by
  have hcase := step_case admins s a
  generalize s.step admins a = s' at hcase ⊢
  cases hcase with
  | claim invite user now record hr =>
    exact .inr ⟨rfl, rfl, rfl, fun _ _ _ hk => hk, fun _ _ _ ht => .inl ⟨ht, rfl⟩,
      fun _ _ _ ht => ht, fun _ => .inl rfl⟩
  | connect user => exact .inr (.connect h user)
  | request c rid request ho ht => exact .inr (.request ht rid request)
  | advance c full now rid t sec next hgoes =>
    exact .inl ⟨c, full, now, rid, t, sec, next, rfl, hgoes, rfl⟩
  | writer a s' hstore hhub hnext htags hconns =>
    refine .inr ⟨by rw [hstore], by rw [hstore], by rw [hhub], fun _ _ _ hk => by rwa [hhub] at hk,
      fun k rid t ht => .inl ⟨?_, (hconns k).user⟩, fun k rid t ht => ?_,
      fun k => .inl (hconns k).history⟩
    · rwa [(hconns k).task] at ht
    · rwa [(hconns k).task]
  | close c ho ht => exact .inr (.close ho ht)

theorem quiet_step (h : s.Valid) {a : Action π} (hadvance : ∀ c full now, a ≠ .advance c full now) :
    Quiet s (s.step admins a) := by
  rcases section_or_quiet h a with ⟨c, full, now, -, -, -, -, heq, -⟩ | hquiet
  · exact absurd heq (hadvance c full now)
  · exact hquiet

/-- The group that a handler is about to delete. -/
def Task.deletes : Task π → Option String
  | .deleting group => some group
  | _ => none

@[inherit_doc Task.deletes]
def Conn.deletes (conn : Conn π) : Option String := conn.task.bind fun t => t.2.deletes

/-! ### Runs -/

/-- A handler goes through its next section, and no queue is full. -/
def go (c : ℕ) : Action π := .advance c (fun _ => false) 0

/-- A connection makes a request and goes through some sections. -/
def requested (c : ℕ) (request : Request π) (sections : ℕ) : List (Action π) :=
  .request c 0 request :: List.replicate sections (go c)

end Server

end Quorum
