import Quorum.Server.Subscribers

/-!
# The order of delivery

`Send` appends a message to the log and fans it out afterwards, both under the send lock of the
group; `Subscribe` reads the log and registers under the lock of the hub, which `Send` has only for
the fan-out. A subscriber may therefore be given a message with the backlog that is still to be
fanned out.

At most one message of a group is in that state, the last one of its log (`InOrder`).  So what a
connection is sent while its subscription lasts is the backlog and what is fanned out after it, in
the order of the log, with at most the last message of the backlog twice (`delivery_in_order`).
-/

namespace Quorum

namespace Server

open Relay (StoredMessage)

variable {π : Type} {admins : List String} {s : App π} {full : ℕ → Bool} {c rid now : ℕ}

/-! ### What is fanned out -/

/-- The message that a handler of a user is about to fan out. -/
def Task.pending (user : String) : Task π → Option (StoredMessage π)
  | .fanning group epoch seq payload => some { group, seq, epoch, sender := user, payload }
  | _ => none

@[inherit_doc Task.pending]
def Conn.pending (conn : Conn π) : Option (StoredMessage π) :=
  conn.task.bind fun t => t.2.pending conn.user

/-- The group whose send lock a handler has. -/
def Task.holds : Task π → Option String
  | .appending group _ _ _ => some group
  | .fanning group _ _ _ => some group
  | .sent group _ => some group
  | _ => none

@[inherit_doc Task.holds]
def Conn.holds (conn : Conn π) : Option String := conn.task.bind fun t => t.2.holds

/-- What was fanned out to each group, noted when it is. -/
def App.noteFanned (s : App π) (fanned : String → List (StoredMessage π)) :
    Action π → String → List (StoredMessage π)
  | .advance c _ _ =>
    match (s.conns c).pending with
    | some m => Function.update fanned m.group (fanned m.group ++ [m])
    | none => fanned
  | _ => fanned

/-- The step does not delete a group. -/
def App.Spares (group : String) (s : App π) : Action π → Prop
  | .advance c _ _ => (s.conns c).deletes ≠ some group
  | _ => True

instance App.Spares.decidable (group : String) (s : App π) :
    (a : Action π) → Decidable (s.Spares group a)
  | .advance c _ _ => inferInstanceAs (Decidable ((s.conns c).deletes ≠ some group))
  | .claim .. | .connect .. | .request .. | .recv .. | .write .. | .stop .. | .close .. =>
    .isTrue trivial

/-- The log of a group, which is empty while the group is not there. -/
def App.logOf (s : App π) (group : String) : List (StoredMessage π) :=
  ((s.store.logs.groups group).map (·.log)).getD []

/-! ### The log and the lock -/

variable {t : Task π} {group : String}

theorem pending_eq (ht : (s.conns c).task = some (rid, t)) :
    (s.conns c).pending = t.pending (s.conns c).user := by
  rw [Conn.pending, ht]
  rfl

theorem holds_eq (ht : (s.conns c).task = some (rid, t)) :
    (s.conns c).holds = t.holds := by
  rw [Conn.holds, ht]
  rfl

theorem Task.pending_eq_some {user : String} {m : StoredMessage π} (h : t.pending user = some m) :
    t = .fanning m.group m.epoch m.seq m.payload ∧ m.sender = user := by
  cases t with
  | fanning group epoch seq payload =>
    cases h
    exact ⟨rfl, rfl⟩
  | _ => cases h

/-- Who is about to fan a message out has the lock. -/
theorem holds_of_pending {conn : Conn π} {m : StoredMessage π} (h : conn.pending = some m) :
    conn.holds = some m.group := by
  obtain ⟨⟨rid, t⟩, ht, hp⟩ := Option.bind_eq_some_iff.mp h
  obtain ⟨rfl, -⟩ := Task.pending_eq_some hp
  rw [Conn.holds, ht]
  rfl

/-- The lock of a group is taken and given back by the sections that say so. -/
theorem locks_perform {sec : Section π} (hlock : ∀ k, sec ≠ .lock group k)
    (hunlock : sec ≠ .unlock group) :
    (s.perform full sec).hub.locks group = s.hub.locks group := by
  cases sec with
  | lock group' k => exact Function.update_of_ne (fun heq => hlock k (by rw [heq])) ..
  | unlock group' => exact Function.update_of_ne (fun heq => hunlock (by rw [heq])) ..
  | deliver recipient sender group' after payload =>
    dsimp only [App.perform, App.deliver]
    split <;> rfl
  | _ => rfl

theorem logOf_congr {s s' : App π} (h : s'.store.logs.groups group = s.store.logs.groups group) :
    s'.logOf group = s.logOf group := by
  rw [App.logOf, App.logOf, h]

/-- The log of a group that is not deleted stays, or is one message longer. -/
theorem logOf_perform {sec : Section π} (hstems : sec.Stems s c rid now t)
    (hkeep : sec ≠ .deleteGroup group) :
    (s.perform full sec).logOf group = s.logOf group ∨
      ∃ epoch sender payload commit, sec = .appendMessage group epoch sender payload commit := by
  cases sec with
  | createGroup group' creator =>
    left
    by_cases hg : group = group'
    · have hnone : s.store.logs.groups group = none := by
        rw [hg]
        exact Option.isNone_iff_eq_none.mp (by simpa [Store.has] using hstems.2.2)
      -- A group that is new has no log, and had none.
      subst hg
      simp [App.logOf, hnone, App.perform, App.setStore, Store.createGroup]
    · exact logOf_congr (Function.update_of_ne hg ..)
  | deleteGroup group' =>
    exact .inl (logOf_congr (Function.update_of_ne (fun heq => hkeep (by rw [heq])) ..))
  | appendMessage group' epoch sender payload commit =>
    by_cases hg : group = group'
    · subst hg
      exact .inr ⟨epoch, sender, payload, commit, rfl⟩
    · refine .inl (logOf_congr ?_)
      change (s.store.appendMessage group' epoch sender payload commit).logs.groups group = _
      rcases groups_appendMessage s.store group' epoch sender payload commit with
        heq | ⟨old, e, -, heq⟩ <;> rw [heq]
      exact Function.update_of_ne hg ..
  | allowMember group' user =>
    left
    dsimp only [App.perform, App.setStore, Store.allowMember]
    split <;> rfl
  | deliver recipient sender group' after payload =>
    left
    dsimp only [App.perform, App.deliver]
    split <;> rfl
  | _ => exact .inl rfl

/-- A message that is appended is at the end of the log, under the number the handler goes on with.
-/
theorem logOf_append {epoch seq : ℕ} {payload : π} {commit : Bool}
    {logs : Relay.MemoryStore π} {sender : String}
    (h : Relay.appendMessage group epoch sender payload commit s.store.logs = .ok seq logs) :
    (s.perform full (.appendMessage group epoch sender payload commit)).logOf group =
      s.logOf group ++ [⟨group, seq, epoch, sender, payload⟩] := by
  obtain ⟨data, epoch', hg, rfl, rfl⟩ := Relay.appendMessage_ok h
  have hlogs : (s.perform full (.appendMessage group epoch sender payload commit)).store.logs =
      s.store.logs.insert group
        { epoch := epoch', log := data.log ++ [data.entry group epoch sender payload] } :=
    finalState_of_ok h
  rw [App.logOf, App.logOf, hlogs, hg, Relay.MemoryStore.groups_insert_self]
  rfl

/-- A log is numbered from one on. -/
theorem seqs_logOf (h : s.Valid) (group : String) :
    (s.logOf group).map (·.seq) = List.range' 1 (s.logOf group).length := by
  unfold App.logOf
  cases hg : s.store.logs.groups group with
  | none => rfl
  | some data => exact (h.log group data hg).1

/-- **What was fanned out to a group is its log, but for a message whose handler has the lock.** -/
structure InOrder (group : String) (p : App π × (String → List (StoredMessage π))) : Prop where
  valid : p.1.Valid
  lock : ∀ k, (p.1.conns k).holds = some group → p.1.hub.locks group = some k
  log : (∃ k m, (p.1.conns k).pending = some m ∧ m.group = group ∧
      p.1.logOf group = p.2 group ++ [m]) ∨
    ((∀ k m, (p.1.conns k).pending = some m → m.group ≠ group) ∧ p.1.logOf group = p.2 group)

namespace InOrder

variable {fanned : String → List (StoredMessage π)} {sec : Section π} {next : Next π}

theorem start : InOrder group
    ((App.start, fun _ => []) : App π × (String → List (StoredMessage π))) where
  valid := .start
  lock _ h := by cases h
  log := .inr ⟨fun _ _ h => (by cases h), rfl⟩

/-- A step that begins handlers at most. -/
theorem of_quiet (h : InOrder group (s, fanned)) {a : Action π}
    (hquiet : Quiet s (s.step admins a)) : InOrder group (s.step admins a, fanned) := by
  have hpending : ∀ {k m}, ((s.step admins a).conns k).pending = some m →
      (s.conns k).pending = some m := by
    intro k m hp
    obtain ⟨⟨rid, t⟩, ht, hm⟩ := Option.bind_eq_some_iff.mp hp
    rcases hquiet.begins k rid t ht with ⟨hold, huser⟩ | ⟨request, rfl⟩
    · rw [pending_eq hold, ← huser]
      exact hm
    · cases hm
  have hlog : (s.step admins a).logOf group = s.logOf group := logOf_congr (by rw [hquiet.logs])
  refine ⟨h.valid.step a, fun k hk => ?_, ?_⟩
  · obtain ⟨⟨rid, t⟩, ht, hh⟩ := Option.bind_eq_some_iff.mp hk
    rcases hquiet.begins k rid t ht with ⟨hold, -⟩ | ⟨request, rfl⟩
    · have hlock : s.hub.locks group = some k := h.lock k (by rw [holds_eq hold]; exact hh)
      exact (congrFun hquiet.locks group).trans hlock
    · cases hh
  · rcases h.log with ⟨k, m, hp, hg, hl⟩ | ⟨hnone, hl⟩
    · left
      obtain ⟨⟨rid, t⟩, ht, hm⟩ := Option.bind_eq_some_iff.mp hp
      refine ⟨k, m, ?_, hg, hlog.trans hl⟩
      rw [pending_eq (hquiet.stays k rid t ht), user_step a (lt_next_of_task h.valid ht)]
      exact hm
    · exact .inr ⟨fun k m hp => hnone k m (hpending hp), hlog.trans hl⟩

/-- The handler that has the lock after a section. -/
theorem lock_advance (h : InOrder group (s, fanned)) (hgoes : s.Goes admins c rid now t sec next)
    {k : ℕ} (hk : (((s.perform full sec).settle c rid next).conns k).holds = some group) :
    (s.perform full sec).hub.locks group = some k := by
  have hstems := hgoes.stems
  have ht := hgoes.task
  obtain ⟨⟨rid', t'⟩, ht', hh⟩ := Option.bind_eq_some_iff.mp hk
  by_cases hkc : k = c
  · subst hkc
    rw [task_section_self] at ht'
    obtain ⟨-, rfl | ⟨rfl, g, e, q, m, rfl⟩⟩ := hgoes.stands ht'
    · have hleads := hgoes.leads
      have heq := hgoes.eq
      have hheld : t.holds = some group → s.hub.locks group = some k := fun ho =>
        h.lock k (by rw [holds_eq ht]; exact ho)
      -- The handler has just taken the lock, or had it before and goes on with it.
      cases t' with
      | appending group' epoch payload commit =>
        cases hh
        obtain ⟨rfl, hfree⟩ := hleads
        dsimp only [Task.next] at heq
        rw [hfree] at heq
        cases heq
        exact Function.update_self ..
      | fanning group' epoch seq payload =>
        cases hh
        obtain ⟨commit, logs, rfl, hok⟩ := hleads
        dsimp only [Task.next] at heq
        rw [hok] at heq
        cases heq
        exact hheld rfl
      | sent group' seq =>
        cases hh
        obtain ⟨epoch, payload, rfl⟩ := hleads
        cases heq
        exact hheld rfl
      | _ => cases hh
    · cases hh
  · rw [task_section_of_ne _ _ hkc] at ht'
    have hheld : s.hub.locks group = some k := h.lock k (by rw [holds_eq ht']; exact hh)
    -- Another handler has it: `c` could take it only if it were free, and give back only its own.
    rw [locks_perform, hheld]
    · rintro k' rfl
      rw [hstems.2.1] at hheld
      cases hheld
    · rintro rfl
      have hmine : s.hub.locks group = some c := by
        refine h.lock c ?_
        rw [holds_eq ht]
        rcases hstems with ⟨seq, rfl⟩ | ⟨epoch, payload, commit, rfl⟩ <;> rfl
      rw [hmine] at hheld
      exact hkc (Option.some.inj hheld).symm

/-- Two handlers with the lock are one. -/
theorem holder_eq (h : InOrder group (s, fanned)) {k k' : ℕ} (hk : (s.conns k).holds = some group)
    (hk' : (s.conns k').holds = some group) : k = k' := by
  have hsome := (h.lock k hk).symm.trans (h.lock k' hk')
  exact Option.some.inj hsome

theorem pending_section_of_ne (sec : Section π) (next : Next π) {k : ℕ} (hk : k ≠ c) :
    (((s.perform full sec).settle c rid next).conns k).pending = (s.conns k).pending := by
  rw [Conn.pending, Conn.pending, task_section_of_ne _ _ hk, user_section]

/-- What is noted when a handler comes to its next section. -/
theorem noteFanned_eq (ht : (s.conns c).task = some (rid, t))
    (hp : ∀ m, t.pending (s.conns c).user = some m → m.group ≠ group) :
    s.noteFanned fanned (.advance c full now) group = fanned group := by
  dsimp only [App.noteFanned]
  rw [pending_eq ht]
  cases hm : t.pending (s.conns c).user with
  | some m => exact Function.update_of_ne (hp m hm).symm ..
  | none => rfl

/-- A handler fans its message out. -/
theorem fan (h : InOrder group (s, fanned)) (full : ℕ → Bool) (now : ℕ) {epoch seq : ℕ} {payload : π}
    (ht : (s.conns c).task = some (rid, .fanning group epoch seq payload)) :
    s.logOf group = s.noteFanned fanned (.advance c full now) group ∧
      ∀ k ≠ c, ∀ m, (s.conns k).pending = some m → m.group ≠ group := by
  have hholds : (s.conns c).holds = some group := by
    rw [holds_eq ht]
    rfl
  have hpending := pending_eq ht
  have hother : ∀ k ≠ c, ∀ m, (s.conns k).pending = some m → m.group ≠ group := by
    rintro k hk m hp rfl
    exact hk (h.holder_eq (holds_of_pending hp) hholds)
  refine ⟨?_, hother⟩
  dsimp only [App.noteFanned]
  rw [hpending]
  change s.logOf group = Function.update fanned group _ group
  rw [Function.update_self]
  rcases h.log with ⟨k, m, hp, hg, hl⟩ | ⟨hnone, -⟩
  · have hkc : k = c := by
      by_contra hk
      exact hother k hk m hp hg
    rw [hkc, hpending] at hp
    cases hp
    exact hl
  · exact absurd rfl (hnone c _ hpending)

/-- A handler appends its message. -/
theorem append (h : InOrder group (s, fanned)) {epoch : ℕ} {payload : π} {commit : Bool}
    (ht : (s.conns c).task = some (rid, .appending group epoch payload commit)) :
    s.logOf group = fanned group := by
  rcases h.log with ⟨k, m, hp, hg, -⟩ | ⟨-, hl⟩
  · have hkc : k = c := h.holder_eq (hg ▸ holds_of_pending hp) (by rw [holds_eq ht]; rfl)
    rw [hkc, pending_eq ht] at hp
    cases hp
  · exact hl

/-- A handler has a message to fan out after a section only if it has just appended it. -/
theorem appending_of_pending (hgoes : s.Goes admins c rid now t sec next) {m : StoredMessage π}
    (hp : (((s.perform full sec).settle c rid next).conns c).pending = some m) :
    ∃ commit logs, t = .appending m.group m.epoch m.payload commit ∧
      m.sender = (s.conns c).user ∧
      Relay.appendMessage m.group m.epoch m.sender m.payload commit s.store.logs =
        .ok m.seq logs := by
  obtain ⟨⟨rid', t'⟩, ht', hm⟩ := Option.bind_eq_some_iff.mp hp
  rw [user_section] at hm
  obtain ⟨rfl, hsender⟩ := Task.pending_eq_some hm
  rw [task_section_self] at ht'
  obtain ⟨-, rfl | ⟨heq, g, e, q, m', rfl⟩⟩ := hgoes.stands ht'
  · obtain ⟨commit, logs, rfl, hok⟩ := hgoes.leads
    exact ⟨commit, logs, rfl, hsender, hsender ▸ hok⟩
  · cases heq

/-- A section of a handler that has nothing to fan out, before it or after, leaves the log. -/
theorem logOf_of_idle (hgoes : s.Goes admins c rid now t sec next)
    (hspares : s.Spares group (.advance c full now))
    (hnew : ∀ m, (((s.perform full sec).settle c rid next).conns c).pending = some m →
      m.group ≠ group) : (s.perform full sec).logOf group = s.logOf group := by
  have hkeep : sec ≠ .deleteGroup group := by
    rintro rfl
    obtain rfl := hgoes.stems
    exact hspares (by rw [Conn.deletes, hgoes.task]; rfl)
  rcases logOf_perform hgoes.stems hkeep with hl | ⟨epoch, sender, payload, commit, rfl⟩
  · exact hl
  · obtain ⟨rfl, rfl, seq, logs, hok⟩ := hgoes.stems
    refine absurd rfl (hnew ⟨group, seq, epoch, (s.conns c).user, payload⟩ ?_)
    have heq := hgoes.eq
    dsimp only [Task.next] at heq
    rw [hok] at heq
    cases heq
    rw [Conn.pending, task_section_self, user_section]
    rfl

/-- A section keeps the order, whether it appends, fans out or does neither. -/
theorem advance (h : InOrder group (s, fanned)) (hgoes : s.Goes admins c rid now t sec next)
    (hspares : s.Spares group (.advance c full now)) :
    InOrder group ((s.perform full sec).settle c rid next,
      s.noteFanned fanned (.advance c full now)) := by
  have ht := hgoes.task
  have hlogOf : ((s.perform full sec).settle c rid next).logOf group =
      (s.perform full sec).logOf group := logOf_congr (by rw [store_settle])
  refine ⟨h.valid.advance hgoes, fun k hk => ?_, ?_⟩
  · rw [hub_settle]
    exact h.lock_advance hgoes hk
  dsimp only
  rw [hlogOf]
  by_cases hfan : ∃ epoch seq payload, t = .fanning group epoch seq payload
  -- The message that was pending is fanned out.
  · obtain ⟨epoch, seq, payload, rfl⟩ := hfan
    cases hgoes.eq
    obtain ⟨hl, hother⟩ := h.fan full now ht
    refine .inr ⟨fun k m hp hg => ?_, hl⟩
    by_cases hkc : k = c
    · rw [hkc] at hp
      obtain ⟨commit, logs, heq, -⟩ := appending_of_pending hgoes hp
      cases heq
    · rw [pending_section_of_ne _ _ hkc] at hp
      exact hother k hkc m hp hg
  have hnote : s.noteFanned fanned (.advance c full now) group = fanned group := by
    refine noteFanned_eq ht fun m hm hg => hfan ?_
    exact ⟨m.epoch, m.seq, m.payload, hg ▸ (Task.pending_eq_some hm).1⟩
  rw [hnote]
  by_cases hnew : ∃ m, (((s.perform full sec).settle c rid next).conns c).pending = some m ∧
      m.group = group
  -- A message is appended, and it is the one that is pending now.
  · obtain ⟨m, hp, rfl⟩ := hnew
    obtain ⟨commit, logs, rfl, hsender, hok⟩ := appending_of_pending hgoes hp
    refine .inl ⟨c, m, hp, rfl, ?_⟩
    have heq := hgoes.eq
    dsimp only [Task.next] at heq
    rw [← hsender, hok] at heq
    cases heq
    rw [logOf_append hok, h.append ht]
  -- Neither: what was pending elsewhere still is.
  · rw [logOf_of_idle hgoes hspares fun m hp hg => hnew ⟨m, hp, hg⟩]
    rcases h.log with ⟨k, m, hp, hg, hl⟩ | ⟨hnone, hl⟩
    · have hkc : k ≠ c := by
        rintro rfl
        rw [pending_eq ht] at hp
        exact hfan ⟨m.epoch, m.seq, m.payload, hg ▸ (Task.pending_eq_some hp).1⟩
      exact .inl ⟨k, m, (pending_section_of_ne _ _ hkc).trans hp, hg, hl⟩
    · refine .inr ⟨fun k m hp hg => ?_, hl⟩
      by_cases hkc : k = c
      · exact hnew ⟨m, hkc ▸ hp, hg⟩
      · rw [pending_section_of_ne _ _ hkc] at hp
        exact hnone k m hp hg

theorem step {p : App π × (String → List (StoredMessage π))} (h : InOrder group p) (a : Action π)
    (hspares : p.1.Spares group a) :
    InOrder group (noting (App.step admins) App.noteFanned p a) := by
  obtain ⟨s, fanned⟩ := p
  cases a with
  | advance c full now =>
    dsimp only [noting, App.step]
    cases ht : (s.conns c).task with
    | none =>
      have hnote : s.noteFanned fanned (.advance c full now) = fanned := by
        dsimp only [App.noteFanned]
        rw [Conn.pending, ht]
        rfl
      rw [hnote, advance_of_idle ht]
      exact h
    | some rt =>
      have hgoes := App.goes admins now ht
      rw [hgoes.advance]
      exact h.advance hgoes hspares
  | _ => exact h.of_quiet (quiet_step h.valid (by simp))

/-- What was fanned out is numbered from one on. -/
theorem seqs_fanned {p : App π × (String → List (StoredMessage π))} (h : InOrder group p) :
    (p.2 group).map (·.seq) = List.range' 1 (p.2 group).length ∧
      (p.1.logOf group = p.2 group ∨
        ∃ m, p.1.logOf group = p.2 group ++ [m] ∧ m.seq = (p.2 group).length + 1) := by
  have hlog := seqs_logOf h.valid group
  rcases h.log with ⟨k, m, -, -, hl⟩ | ⟨-, hl⟩
  · rw [hl, List.map_append, List.length_append, List.length_singleton, List.range'_1_concat] at hlog
    obtain ⟨hseqs, hlast⟩ := List.append_inj hlog (by simp)
    refine ⟨hseqs, .inr ⟨m, hl, ?_⟩⟩
    rw [Nat.add_comm]
    exact List.singleton_inj.mp hlast
  · rw [hl] at hlog
    exact ⟨hlog, .inl hl⟩

end InOrder

/-! ### What a subscriber is sent -/

/-- The number of a message of a group. -/
def Frame.seqIn (group : String) : Frame π → Option ℕ
  | .msg m => if m.group = group then some m.seq else none
  | _ => none

/-- The numbers of the messages of a group among some frames. -/
def msgSeqs (group : String) (l : List (Frame π)) : List ℕ := l.filterMap (Frame.seqIn group)

theorem msgSeqs_append (group : String) (l l' : List (Frame π)) :
    msgSeqs group (l ++ l') = msgSeqs group l ++ msgSeqs group l' :=
  List.filterMap_append ..

/-- The numbers of the messages of a group that were fanned out by others than a user. -/
def liveSeqs (group user : String) (l : List (StoredMessage π)) : List ℕ :=
  (l.filter fun m => m.group = group ∧ m.sender ≠ user).map (·.seq)

/-- A connection is the one of a subscriber of a group, and does not subscribe again. -/
def App.Stays (c : ℕ) (group user : String) (s : App π) : Action π → Prop
  | .advance k _ _ =>
    s.hub.subscribers group user = some c ∧ (k = c → (s.conns c).enrolls ≠ some group)
  | _ => s.hub.subscribers group user = some c

instance App.Stays.decidable (c : ℕ) (group user : String) (s : App π) :
    (a : Action π) → Decidable (s.Stays c group user a)
  | .advance k _ _ => inferInstanceAs (Decidable
      (s.hub.subscribers group user = some c ∧ (k = c → (s.conns c).enrolls ≠ some group)))
  | .claim .. | .connect .. | .request .. | .recv .. | .write .. | .stop .. | .close .. =>
    inferInstanceAs (Decidable (s.hub.subscribers group user = some c))

variable {group user : String}

theorem App.Stays.subscribed {a : Action π} (h : s.Stays c group user a) :
    s.hub.subscribers group user = some c := by
  cases a with
  | advance k full now => exact h.1
  | _ => exact h

theorem msgSeqs_backlog (h : s.Valid) {data : Relay.GroupData π}
    (hg : s.store.logs.groups group = some data) (after : ℕ) (group' : String) :
    msgSeqs group' ((Relay.messagesAfter data.log after).map .msg) =
      if group = group' then (Relay.messagesAfter data.log after).map (·.seq) else [] := by
  have hgroup : ∀ m ∈ Relay.messagesAfter data.log after, m.group = group := fun m hm =>
    (h.log group data hg).2 m (List.mem_filter.mp hm).1
  rw [msgSeqs, List.filterMap_map]
  split
  · next heq =>
    rw [← List.filterMap_eq_map]
    refine List.filterMap_congr fun m hm => ?_
    exact if_pos ((hgroup m hm).trans heq)
  · next hne =>
    refine List.filterMap_eq_nil_iff.mpr fun m hm => ?_
    exact if_neg fun heq => hne ((hgroup m hm).symm.trans heq)

/-- Frames that are no messages of a group. -/
theorem msgSeqs_eq_nil {l : List (Frame π)}
    (h : ∀ frame ∈ l, frame.seqIn group = none) : msgSeqs group l = [] :=
  List.filterMap_eq_nil_iff.mpr h

theorem msgSeqs_settle (next : Next π) (k : ℕ) (group : String) :
    msgSeqs group ((s.settle c rid next).conns k).history = msgSeqs group (s.conns k).history := by
  rcases history_settle s c rid next k with hsame | ⟨r, hnew⟩
  · rw [hsame]
  · rw [hnew, msgSeqs_append]
    exact List.append_nil _

/-- A message is fanned out to a subscriber, who is subscribed afterwards too. -/
theorem msgSeqs_fanOut {sender : String} {m : StoredMessage π} (hsender : m.sender = sender)
    (hsub : s.hub.subscribers group user = some c) (huser : (s.conns c).user = user)
    (hstill : (s.fanOut full m.group sender (.msg m)).hub.subscribers group user = some c) :
    msgSeqs group ((s.fanOut full m.group sender (.msg m)).conns c).history =
      msgSeqs group (s.conns c).history ++ liveSeqs group user [m] := by
  by_cases hlive : m.group = group ∧ m.sender ≠ user
  · obtain ⟨rfl, hne⟩ := hlive
    have hlistens : s.listens m.group sender c = true := by
      rw [App.listens, huser, hsub]
      simp [hsender ▸ hne.symm]
    have haccepts : s.accepts full c = true := by
      change Function.update s.hub.subscribers m.group _ m.group user = some c at hstill
      rw [Function.update_self, if_neg (hsender ▸ hne.symm)] at hstill
      exact (Option.filter_eq_some_iff.mp hstill).2
    have hrunning : (s.conns c).running = true := (Bool.and_eq_true_iff.mp haccepts).2
    dsimp only [App.fanOut]
    rw [hlistens, haccepts, Bool.and_self, if_pos rfl, Conn.put, if_pos hrunning, msgSeqs_append]
    simp [msgSeqs, Frame.seqIn, liveSeqs, hne]
  · have hnil : liveSeqs group user [m] = [] := by
      rw [liveSeqs, List.filter_cons_of_neg (by simpa using hlive)]
      rfl
    rw [hnil, List.append_nil]
    dsimp only [App.fanOut]
    split
    · next hl =>
      have hne : m.group ≠ group := by
        rintro rfl
        have hother := of_decide_eq_true (Bool.and_eq_true_iff.mp (Bool.and_eq_true_iff.mp hl).1).2
        exact hlive ⟨rfl, fun heq => hother (huser.trans (heq.symm.trans hsender))⟩
      unfold Conn.put
      split
      · rw [msgSeqs_append]
        refine List.append_right_eq_self.mpr (msgSeqs_eq_nil fun frame hf => ?_)
        rw [List.mem_singleton.mp hf]
        exact if_neg hne
      · rfl
    · rfl

/-- **What a section sends to a subscriber is what it fans out.** -/
theorem msgSeqs_section (h : s.Valid) {k : ℕ} {sec : Section π} {next : Next π}
    (hgoes : s.Goes admins k rid now t sec next) (hsub : s.hub.subscribers group user = some c)
    (hstill : (s.perform full sec).hub.subscribers group user = some c)
    (hrenews : k = c → (s.conns c).enrolls ≠ some group) :
    msgSeqs group (((s.perform full sec).settle k rid next).conns c).history =
      msgSeqs group (s.conns c).history ++ liveSeqs group user (s.conns k).pending.toList := by
  have hstems := hgoes.stems
  have huser : (s.conns c).user = user := (h.subscriber group user c hsub).1
  rw [msgSeqs_settle, pending_eq hgoes.task]
  cases hp : t.pending (s.conns k).user with
  | some m =>
    obtain ⟨rfl, hsender⟩ := Task.pending_eq_some hp
    have hsec : sec = .fanOut m.group (s.conns k).user (.msg m) := by
      have heq := hgoes.eq
      dsimp only [Task.next] at heq
      rw [← hsender] at heq ⊢
      cases heq
      rfl
    rw [hsec] at hstill ⊢
    exact msgSeqs_fanOut hsender hsub huser hstill
  | none =>
    rw [Option.toList_none]
    change _ = _ ++ []
    rw [List.append_nil]
    rcases history_perform s full sec c with hsame | ⟨frames, hnew, hfrom⟩
    · rw [hsame]
    · rw [hnew, msgSeqs_append]
      refine List.append_right_eq_self.mpr (msgSeqs_eq_nil fun frame hf => ?_)
      -- The backlog of another group, a signal or a Welcome.
      rcases hfrom with ⟨g, rfl⟩ | ⟨g, sender, f, rfl, -, rfl⟩ | ⟨w, rfl⟩
      · obtain ⟨rfl, ⟨-, rfl⟩ | ⟨after, data, rfl, hg, rfl⟩⟩ := hstems
        · cases hf
        · rcases List.mem_cons.mp hf with rfl | hf
          · rfl
          · obtain ⟨m, hm, rfl⟩ := List.mem_map.mp hf
            refine if_neg fun heq => hrenews rfl ?_
            rw [Conn.enrolls, hgoes.task, ← heq, (h.log g data hg).2 m (List.mem_filter.mp hm).1]
            rfl
      · obtain rfl := List.mem_singleton.mp hf
        obtain ⟨-, ⟨e, q, p, rfl, -⟩ | ⟨p, -, rfl⟩⟩ := hstems
        · cases hp
        · rfl
      · obtain rfl := List.mem_singleton.mp hf
        rfl

/-- The relay after some steps, and what was fanned out. -/
def runFanned (admins : List String) (l : List (Action π)) :
    App π × (String → List (StoredMessage π)) :=
  l.foldl (noting (App.step admins) App.noteFanned) (App.start, fun _ => [])

theorem noteFanned_append (fanned : String → List (StoredMessage π)) (k : ℕ) (group : String) :
    s.noteFanned fanned (.advance k full now) group =
      fanned group ++ (s.conns k).pending.toList.filter (·.group = group) := by
  dsimp only [App.noteFanned]
  cases (s.conns k).pending with
  | none => exact (List.append_nil _).symm
  | some m =>
    dsimp only
    rw [Function.update_apply]
    split
    · next hg => simp [hg]
    · next hg => simp [Ne.symm hg]

/-- One step of a subscription. -/
theorem msgSeqs_step (h : s.Valid) (fanned : String → List (StoredMessage π))
    {a : Action π} (hstays : s.Stays c group user a)
    (hstill : (s.step admins a).hub.subscribers group user = some c) :
    ∃ now, s.noteFanned fanned a group = fanned group ++ now ∧
      msgSeqs group ((s.step admins a).conns c).history =
        msgSeqs group (s.conns c).history ++ (now.filter (·.sender ≠ user)).map (·.seq) := by
  have hsub := hstays.subscribed
  have hidle : ∀ (a : Action π), Quiet s (s.step admins a) →
      msgSeqs group ((s.step admins a).conns c).history = msgSeqs group (s.conns c).history := by
    intro a hquiet
    rcases hquiet.history c with hsame | ⟨rfl, -⟩
    · rw [hsame]
    · exact absurd (lt_next h (h.subscriber group user _ hsub).2) (lt_irrefl _)
  cases a with
  | advance k full now =>
    refine ⟨_, noteFanned_append fanned k group, ?_⟩
    cases ht : (s.conns k).task with
    | none =>
      rw [App.step, advance_of_idle ht, Conn.pending, ht]
      exact (List.append_nil _).symm
    | some rt =>
      have hgoes := App.goes admins now ht
      rw [App.step, hgoes.advance] at hstill ⊢
      rw [hub_settle] at hstill
      rw [msgSeqs_section h hgoes hsub hstill hstays.2, liveSeqs, List.filter_filter]
      simp only [Bool.decide_and, Bool.and_comm]
  | _ =>
    refine ⟨[], (List.append_nil _).symm, (hidle _ (quiet_step h (by simp))).trans ?_⟩
    exact (List.append_nil _).symm

/-- While a subscription lasts, the connection is sent what others have fanned out, and nothing
else. -/
theorem msgSeqs_run (fanned : String → List (StoredMessage π)) {l : List (Action π)} (h : s.Valid)
    (hstays : Along (App.step admins) (App.Stays c group user) s l)
    (hend : (s.run admins l).hub.subscribers group user = some c) :
    ∃ new, (l.foldl (noting (App.step admins) App.noteFanned) (s, fanned)).2 group =
        fanned group ++ new ∧
      msgSeqs group ((s.run admins l).conns c).history =
        msgSeqs group (s.conns c).history ++ (new.filter (·.sender ≠ user)).map (·.seq) := by
  induction l generalizing s fanned with
  | nil => exact ⟨[], (List.append_nil _).symm, (List.append_nil _).symm⟩
  | cons a l ih =>
    have hsub : s.hub.subscribers group user = some c := hstays.1.subscribed
    have hstill : (s.step admins a).hub.subscribers group user = some c := by
      cases l with
      | nil => exact hend
      | cons b l => exact hstays.2.1.subscribed
    obtain ⟨new, hnew, hseqs⟩ := ih (s.noteFanned fanned a) (h.step a) hstays.2 hend
    obtain ⟨now, hnoted, hsent⟩ := msgSeqs_step h fanned hstays.1 hstill
    refine ⟨now ++ new, ?_, ?_⟩
    · rw [List.foldl_cons, noting, hnew, hnoted, List.append_assoc]
    · rw [List.filter_append, List.map_append, ← List.append_assoc, ← hsent]
      exact hseqs

/-! ### The backlog and what comes after it -/

section

variable {before new log : List (StoredMessage π)} {after : ℕ} {p : StoredMessage π → Bool}

/-- The numbers of what is fanned out later go on where those of what was fanned out before end. -/
theorem seqs_new (hbefore : before.map (·.seq) = List.range' 1 before.length)
    (hall : (before ++ new).map (·.seq) = List.range' 1 (before ++ new).length) :
    new.map (·.seq) = List.range' (before.length + 1) new.length := by
  rw [List.map_append, hbefore, List.length_append, ← List.range'_append_1] at hall
  rw [List.append_cancel_left hall, Nat.add_comm]

/-- All of it is above where the subscription starts. -/
theorem lt_of_mem_window (hbefore : before.map (·.seq) = List.range' 1 before.length)
    (hall : (before ++ new).map (·.seq) = List.range' 1 (before ++ new).length)
    (hafter : after ≤ before.length) {q : ℕ}
    (hq : q ∈ (Relay.messagesAfter log after).map (·.seq) ++ (new.filter p).map (·.seq)) :
    after < q := by
  rcases List.mem_append.mp hq with hq | hq
  · obtain ⟨m, hm, rfl⟩ := List.mem_map.mp hq
    exact of_decide_eq_true (List.mem_filter.mp hm).2
  · have hmem : q ∈ new.map (·.seq) := (List.filter_sublist.map _).subset hq
    rw [seqs_new hbefore hall, List.mem_range'_1] at hmem
    omega

/-- Nothing that others have fanned out is missing. -/
theorem mem_window (hlog : before <+: log) {m : StoredMessage π} (hm : m ∈ before ++ new)
    (hafter : after < m.seq) (hp : p m = true) :
    m.seq ∈ (Relay.messagesAfter log after).map (·.seq) ++ (new.filter p).map (·.seq) := by
  rcases List.mem_append.mp hm with hm | hm
  · refine List.mem_append_left _ (List.mem_map_of_mem (List.mem_filter.mpr ⟨?_, ?_⟩))
    · exact hlog.subset hm
    · exact decide_eq_true hafter
  · exact List.mem_append_right _ (List.mem_map_of_mem (List.mem_filter.mpr ⟨hm, hp⟩))

/-- **In order, but for the last message of the backlog.** -/
theorem window_sorted (hbefore : before.map (·.seq) = List.range' 1 before.length)
    (hall : (before ++ new).map (·.seq) = List.range' 1 (before ++ new).length)
    (hlog : log = before ∨ ∃ m, log = before ++ [m] ∧ m.seq = before.length + 1)
    (hafter : after ≤ before.length) :
    ((Relay.messagesAfter log after).map (·.seq) ++ (new.filter p).map (·.seq)).Pairwise (· < ·) ∨
      ∃ backlog q live, (Relay.messagesAfter log after).map (·.seq) = backlog ++ [q] ∧
        (Relay.messagesAfter log after).map (·.seq) ++ (new.filter p).map (·.seq) =
          backlog ++ q :: q :: live ∧
        (backlog ++ q :: live).Pairwise (· < ·) := by
  have hsorted : ((before ++ new).map (·.seq)).Pairwise (· < ·) := by
    rw [hall]
    exact List.pairwise_lt_range' ..
  rcases hlog with rfl | ⟨m, rfl, hm⟩
  · left
    refine hsorted.sublist ?_
    rw [List.map_append]
    exact (List.filter_sublist.map _).append (List.filter_sublist.map _)
  -- the backlog has a message that is appended and not fanned out yet
  have hbacklog : (Relay.messagesAfter (before ++ [m]) after).map (·.seq) =
      (Relay.messagesAfter before after).map (·.seq) ++ [m.seq] := by
    have hlast : after < m.seq := by omega
    simp [Relay.messagesAfter, hlast]
  have hold : ((Relay.messagesAfter before after).map (·.seq)).Sublist (before.map (·.seq)) :=
    List.filter_sublist.map _
  rw [hbacklog]
  cases new with
  | nil =>
    left
    have hlast : (before.map (·.seq) ++ [m.seq]).Pairwise (· < ·) := by
      rw [hbefore, hm, Nat.add_comm, ← List.range'_1_concat]
      exact List.pairwise_lt_range' ..
    simpa using hlast.sublist (hold.append_right _)
  | cons x new =>
    have hx : x.seq = m.seq := by
      have hhead := seqs_new hbefore hall
      rw [List.map_cons, List.length_cons, List.range'_succ] at hhead
      rw [hm]
      exact (List.cons.inj hhead).1
    have hone : ((Relay.messagesAfter before after).map (·.seq) ++
        m.seq :: (new.filter p).map (·.seq)).Pairwise (· < ·) := by
      refine hsorted.sublist ?_
      rw [List.map_append, List.map_cons, hx]
      exact hold.append ((List.filter_sublist.map _).cons_cons _)
    by_cases hpx : p x = true
    · -- it is fanned out to this connection too, right after the backlog
      right
      refine ⟨_, m.seq, (new.filter p).map (·.seq), rfl, ?_, hone⟩
      rw [List.filter_cons_of_pos hpx, List.map_cons, hx]
      simp
    · left
      rw [List.filter_cons_of_neg hpx, List.append_assoc]
      exact hone

/-- The number of the last message, or nought. -/
def lastSeq (l : List (StoredMessage π)) : ℕ := (l.getLast?.map (·.seq)).getD 0

theorem lastSeq_eq (h : log.map (·.seq) = List.range' 1 log.length) : lastSeq log = log.length := by
  rw [lastSeq, ← List.getLast?_map, h]
  cases log.length with
  | zero => rfl
  | succ n =>
    rw [List.range'_1_concat, List.getLast?_concat, Option.getD_some, Nat.add_comm]

end

/-- The backlog is sent in the step that subscribes. -/
theorem msgSeqs_subscribe (h : s.Valid) {after : ℕ}
    (ht : (s.conns c).task = some (rid, .subscribing group after))
    (hrunning : (s.conns c).running = true) (hthere : s.store.has group = true) :
    msgSeqs group ((s.step admins (.advance c full now)).conns c).history =
      msgSeqs group (s.conns c).history ++
        (Relay.messagesAfter (s.logOf group) after).map (·.seq) := by
  obtain ⟨data, hg⟩ := Option.isSome_iff_exists.mp hthere
  have hlog : s.logOf group = data.log := by
    rw [App.logOf, hg]
    rfl
  rw [App.step, (App.goes admins now ht).advance, msgSeqs_settle, hlog]
  dsimp only [Task.next]
  rw [hg]
  dsimp only [App.perform]
  rw [conns_setConn_self, Conn.put, if_pos hrunning]
  rw [msgSeqs_append]
  congr 1
  exact (msgSeqs_backlog h hg after group).trans (if_pos rfl)

/-- **Delivery is in order.**  A connection of a user subscribes to a group that is not deleted,
from a number on that is not above the last message that was fanned out.  Up to any moment at which
it is still the subscriber, and has not subscribed again, the numbers of the messages it was sent
are above that number and go up, except that the last one of the backlog may come twice in a row;
and every message above that number that others have sent and that was fanned out is among them. -/
theorem delivery_in_order (admins : List String) (l₁ l₂ : List (Action π)) (c rid now after : ℕ)
    (full : ℕ → Bool) (group : String)
    (hspares : Along (App.step admins) (App.Spares group) App.start
      (l₁ ++ .advance c full now :: l₂))
    (htask : ((App.start.run admins l₁).conns c).task = some (rid, .subscribing group after))
    (hrunning : ((App.start.run admins l₁).conns c).running = true)
    (hthere : (App.start.run admins l₁).store.has group = true)
    (hafter : after ≤ lastSeq ((runFanned admins l₁).2 group))
    (hstays : Along (App.step admins)
      (App.Stays c group ((App.start.run admins l₁).conns c).user)
      (App.start.run admins (l₁ ++ [.advance c full now])) l₂)
    (hend : (App.start.run admins (l₁ ++ .advance c full now :: l₂)).hub.subscribers group
      ((App.start.run admins l₁).conns c).user = some c) :
    ∃ seqs, msgSeqs group
        ((App.start.run admins (l₁ ++ .advance c full now :: l₂)).conns c).history =
        msgSeqs group ((App.start.run admins l₁).conns c).history ++ seqs ∧
      (∀ q ∈ seqs, after < q) ∧
      (seqs.Pairwise (· < ·) ∨ ∃ backlog q live,
        (Relay.messagesAfter ((App.start.run admins l₁).logOf group) after).map (·.seq) =
          backlog ++ [q] ∧
        seqs = backlog ++ q :: q :: live ∧ (backlog ++ q :: live).Pairwise (· < ·)) ∧
      ∀ m ∈ (runFanned admins (l₁ ++ .advance c full now :: l₂)).2 group, after < m.seq →
        m.sender ≠ ((App.start.run admins l₁).conns c).user → m.seq ∈ seqs := by
  set s := App.start.run admins l₁ with hs
  set user := (s.conns c).user
  have horder : ∀ l, Along (App.step admins) (App.Spares group) App.start l →
      InOrder group (runFanned admins l : App π × (String → List (StoredMessage π))) := by
    intro l hl
    exact (hl.noting (App.step admins) App.noteFanned (p := (App.start, fun _ => []))).preserves
      (fun _ a hp ha => hp.step a ha) .start
  have hvalid : s.Valid := .run admins l₁
  have hfst : (runFanned admins l₁).1 = s := fst_foldl_noting ..
  obtain ⟨hbefore, hlog⟩ := (horder l₁ (along_append.mp hspares).1).seqs_fanned
  rw [hfst] at hlog
  -- nothing is fanned out in the step that subscribes
  have hnote : s.noteFanned (runFanned admins l₁).2 (.advance c full now) group =
      (runFanned admins l₁).2 group := by
    refine InOrder.noteFanned_eq htask fun m hm => ?_
    cases hm
  have hafterwards : App.start.run admins (l₁ ++ [.advance c full now]) =
      s.step admins (.advance c full now) := List.foldl_append ..
  have hfinal : App.start.run admins (l₁ ++ .advance c full now :: l₂) =
      (s.step admins (.advance c full now)).run admins l₂ := List.foldl_append ..
  have hnoted : runFanned admins (l₁ ++ .advance c full now :: l₂) =
      l₂.foldl (noting (App.step admins) App.noteFanned) (s.step admins (.advance c full now),
        s.noteFanned (runFanned admins l₁).2 (.advance c full now)) := by
    rw [runFanned, List.foldl_append, List.foldl_cons, noting, ← hfst]
    rfl
  rw [hafterwards] at hstays
  rw [hfinal] at hend ⊢
  obtain ⟨new, hnew, hseqs⟩ := msgSeqs_run
    (s.noteFanned (runFanned admins l₁).2 (.advance c full now)) (hvalid.step _) hstays hend
  rw [← hnoted, hnote] at hnew
  have hall := (horder _ hspares).seqs_fanned.1
  rw [hnew] at hall
  rw [lastSeq_eq hbefore] at hafter
  have hprefix : (runFanned admins l₁).2 group <+: s.logOf group := by
    rcases hlog with heq | ⟨m, heq, -⟩
    · rw [heq]
    · rw [heq]
      exact List.prefix_append ..
  refine ⟨(Relay.messagesAfter (s.logOf group) after).map (·.seq) ++
    (new.filter (·.sender ≠ user)).map (·.seq), ?_,
    fun q hq => lt_of_mem_window hbefore hall hafter hq,
    window_sorted hbefore hall hlog hafter, fun m hm hlt hsender => ?_⟩
  · rw [hseqs, msgSeqs_subscribe hvalid htask hrunning hthere, List.append_assoc]
  · rw [hnew] at hm
    exact mem_window hprefix hm hlt (decide_eq_true hsender)

/-- `alice` has a message in the log that is not fanned out yet, and `bob` is about to subscribe. -/
def subscribesInBetween : List (Action ℕ) :=
  alicesGroup ++ requested 0 (.send "g" 0 (some 7) false) 3 ++ requested 1 (.subscribe "g" 0) 1

/-- The message is fanned out, and `alice` sends another one. -/
def fannedOutLater : List (Action ℕ) :=
  [go 0, go 0] ++ requested 0 (.send "g" 0 (some 8) false) 5

theorem last_of_backlog_twice :
    msgSeqs "g" ((App.start.run [] (subscribesInBetween ++ go 1 :: fannedOutLater)).conns 1).history =
      [1, 1, 2] ∧
    ∃ seqs, msgSeqs "g"
        ((App.start.run [] (subscribesInBetween ++ go 1 :: fannedOutLater)).conns 1).history =
        msgSeqs "g" ((App.start.run [] subscribesInBetween).conns 1).history ++ seqs ∧
      ∀ q ∈ seqs, 0 < q := by
  refine ⟨by decide +kernel, ?_⟩
  obtain ⟨seqs, hsent, habove, -⟩ := delivery_in_order [] subscribesInBetween fannedOutLater 1 0 0 0
    (fun _ => false) "g" (by decide +kernel) (by decide +kernel) (by decide +kernel)
    (by decide +kernel) (by decide +kernel) (by decide +kernel) (by decide +kernel)
  exact ⟨seqs, hsent, habove⟩

end Server

end Quorum
