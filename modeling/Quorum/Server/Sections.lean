import Quorum.Relay.Serial
import Quorum.Server

/-!
# What a handler may do

Every invariant of the relay is about some of what it keeps, and most sections leave that alone.
Here is, once, what a section leaves alone, which handlers come to a section (`App.Goes.stems`), and
what is known of a handler that has come to stand somewhere (`App.Goes.leads`); both are read off
the handlers together (`comes_next`).
-/

namespace Quorum

namespace Server

variable {π : Type} {admins : List String} {s : App π} {full : ℕ → Bool} {c rid now : ℕ}

/-! ### Connections -/

@[simp] theorem user_put (conn : Conn π) (l : List (Frame π)) : (conn.put l).user = conn.user := by
  unfold Conn.put
  split <;> rfl

@[simp] theorem task_put (conn : Conn π) (l : List (Frame π)) : (conn.put l).task = conn.task := by
  unfold Conn.put
  split <;> rfl

@[simp] theorem isOpen_put (conn : Conn π) (l : List (Frame π)) :
    (conn.put l).isOpen = conn.isOpen := by
  unfold Conn.put
  split <;> rfl

@[simp] theorem running_put (conn : Conn π) (l : List (Frame π)) :
    (conn.put l).running = conn.running := by
  unfold Conn.put
  split <;> rfl

@[simp] theorem conns_setConn_self (conn : Conn π) : (s.setConn c conn).conns c = conn :=
  Function.update_self ..

theorem conns_setConn_of_ne {k : ℕ} (h : k ≠ c) (conn : Conn π) :
    (s.setConn c conn).conns k = s.conns k :=
  Function.update_of_ne h ..

/-- What frames do not change about a connection. -/
structure Conn.Same (conn conn' : Conn π) : Prop where
  user : conn'.user = conn.user
  task : conn'.task = conn.task
  isOpen : conn'.isOpen = conn.isOpen
  running : conn'.running = conn.running

theorem Conn.Same.refl (conn : Conn π) : conn.Same conn := ⟨rfl, rfl, rfl, rfl⟩

theorem Conn.same_put (conn : Conn π) (l : List (Frame π)) : conn.Same (conn.put l) :=
  ⟨user_put conn l, task_put conn l, isOpen_put conn l, running_put conn l⟩

theorem Conn.same_update {conns : ℕ → Conn π} {conn : Conn π} (h : (conns c).Same conn)
    (k : ℕ) : (conns k).Same (Function.update conns c conn k) := by
  by_cases hk : k = c
  · rw [hk, Function.update_self]
    exact h
  · rw [Function.update_of_ne hk]
    exact .refl _

/-- A section gives connections frames, and that is all it does to them. -/
theorem same_perform (s : App π) (full : ℕ → Bool) (sec : Section π) (k : ℕ) :
    (s.conns k).Same ((s.perform full sec).conns k) := by
  cases sec with
  | subscribe group c frames => exact Conn.same_update (Conn.same_put _ _) k
  | fanOut group sender frame =>
    dsimp only [App.perform, App.fanOut]
    split
    · exact Conn.same_put _ _
    · exact .refl _
  | deliver recipient sender group after payload =>
    dsimp only [App.perform, App.deliver]
    split
    · exact Conn.same_update (Conn.same_put _ _) k
    · exact .refl _
  | _ => exact .refl _

theorem Conn.put_of_stopped {conn : Conn π} (h : conn.running = false) (l : List (Frame π)) :
    conn.put l = conn := by
  rw [Conn.put, if_neg (by simp [h])]

/-- A connection whose writer has ended gets nothing. -/
theorem conns_perform_of_stopped {k : ℕ} (h : (s.conns k).running = false) (sec : Section π) :
    (s.perform full sec).conns k = s.conns k := by
  cases sec with
  | subscribe group c frames =>
    dsimp only [App.perform]
    by_cases hk : k = c
    · rw [hk, conns_setConn_self, Conn.put_of_stopped (hk ▸ h)]
    · rw [conns_setConn_of_ne hk]
      rfl
  | fanOut group sender frame =>
    dsimp only [App.perform, App.fanOut]
    rw [Conn.put_of_stopped h, ite_self]
  | deliver recipient sender group after payload =>
    dsimp only [App.perform, App.deliver]
    split
    · next c hc =>
      -- The connection that is found accepts frames, so it is another one.
      have hk : k ≠ c := by
        rintro rfl
        have hacc := (Option.filter_eq_some_iff.mp hc).2
        simp [App.accepts, h] at hacc
      exact conns_setConn_of_ne hk _
    · rfl
  | _ => rfl

theorem Conn.history_put (conn : Conn π) (l : List (Frame π)) :
    (conn.put l).history = conn.history ∨ (conn.put l).history = conn.history ++ l := by
  unfold Conn.put
  split
  · exact .inr rfl
  · exact .inl rfl

theorem history_setConn_put (s : App π) (c k : ℕ) (l : List (Frame π)) :
    ((s.setConn c ((s.conns c).put l)).conns k).history = (s.conns k).history ∨
      k = c ∧
        ((s.setConn c ((s.conns c).put l)).conns k).history = (s.conns k).history ++ l := by
  by_cases hk : k = c
  · subst hk
    rw [conns_setConn_self]
    exact (Conn.history_put _ l).imp_right fun h => ⟨rfl, h⟩
  · rw [conns_setConn_of_ne hk]
    exact .inl rfl

/-- What a section gives to a connection: the frames it is subscribed with, a frame that goes to all
who listen to a group, or a Welcome. -/
theorem history_perform (s : App π) (full : ℕ → Bool) (sec : Section π) (k : ℕ) :
    ((s.perform full sec).conns k).history = (s.conns k).history ∨
      ∃ frames, ((s.perform full sec).conns k).history = (s.conns k).history ++ frames ∧
        ((∃ group, sec = .subscribe group k frames) ∨
          (∃ group sender frame, sec = .fanOut group sender frame ∧
            s.listens group sender k = true ∧ frames = [frame]) ∨
          ∃ w, frames = [.welcome w]) := by
  cases sec with
  | subscribe group c frames =>
    rcases history_setConn_put s c k frames with h | ⟨rfl, h⟩
    · exact .inl h
    · exact .inr ⟨frames, h, .inl ⟨group, rfl⟩⟩
  | fanOut group sender frame =>
    dsimp only [App.perform, App.fanOut]
    split
    · next hl =>
      rcases Conn.history_put (s.conns k) [frame] with h | h
      · exact .inl h
      · exact .inr ⟨[frame], h,
          .inr (.inl ⟨group, sender, frame, rfl, (Bool.and_eq_true_iff.mp hl).1, rfl⟩)⟩
    · exact .inl rfl
  | deliver recipient sender group after payload =>
    dsimp only [App.perform, App.deliver]
    split
    · exact (history_setConn_put ..).imp_right fun h => ⟨_, h.2, .inr (.inr ⟨_, rfl⟩)⟩
    -- The recipient is not online: the Welcome is stored.
    · exact .inl rfl
  | _ => exact .inl rfl

/-! ### Leaving a section -/

/-- Where the handler of a connection stands after a section. -/
def Next.task (rid : ℕ) (old : Option (ℕ × Task π)) : Next π → Option (ℕ × Task π)
  | .goOn task => some (rid, task)
  | .reply _ => none
  | .done => none
  | .wait => old

@[simp] theorem store_settle (next : Next π) : (s.settle c rid next).store = s.store := by
  cases next <;> rfl

@[simp] theorem hub_settle (next : Next π) : (s.settle c rid next).hub = s.hub := by
  cases next <;> rfl

@[simp] theorem next_settle (next : Next π) : (s.settle c rid next).next = s.next := by
  cases next <;> rfl

/-- Only the connection whose handler leaves the section is changed. -/
theorem conns_settle_of_ne (next : Next π) {k : ℕ} (h : k ≠ c) :
    (s.settle c rid next).conns k = s.conns k := by
  cases next with
  | wait => rfl
  | _ => exact Function.update_of_ne h _ _

theorem task_settle_self (next : Next π) :
    ((s.settle c rid next).conns c).task = next.task rid (s.conns c).task := by
  cases next with
  | wait => rfl
  | _ => simp [App.settle, App.setConn, Next.task]

/-- What a connection gets when a section is left: the reply, if there is one. -/
theorem history_settle (s : App π) (c rid : ℕ) (next : Next π) (k : ℕ) :
    ((s.settle c rid next).conns k).history = (s.conns k).history ∨
      ∃ r, ((s.settle c rid next).conns k).history = (s.conns k).history ++ [.reply rid r] := by
  by_cases hk : k = c
  · subst hk
    cases next with
    | reply r =>
      dsimp only [App.settle]
      rw [conns_setConn_self]
      rcases Conn.history_put { s.conns k with task := none } [.reply rid r] with h | h
      · exact .inl h
      · exact .inr ⟨r, h⟩
    | wait => exact .inl rfl
    | _ => exact .inl (by simp [App.settle])
  · rw [conns_settle_of_ne next hk]
    exact .inl rfl

/-- Leaving a section closes no connection, and gives none to another user. -/
theorem same_settle (next : Next π) (k : ℕ) :
    ((s.settle c rid next).conns k).user = (s.conns k).user ∧
      ((s.settle c rid next).conns k).isOpen = (s.conns k).isOpen := by
  by_cases hk : k = c
  · subst hk
    cases next with
    | wait => exact ⟨rfl, rfl⟩
    | _ => simp [App.settle, App.setConn]
  · rw [conns_settle_of_ne next hk]
    exact ⟨rfl, rfl⟩

/-! ### Where sections and tasks come from -/

/-- Which handlers come to a section, and what they have found. -/
def Section.Stems (s : App π) (c rid now : ℕ) (t : Task π) : Section π → Prop
  | .read => True
  | .createGroup group creator =>
    t = .start (.createGroup group) ∧ creator = (s.conns c).user ∧ s.store.has group = false
  | .allowMember group user =>
    s.store.has group = true ∧
      (t = .allowing group user ∨ ∃ invite payload, t = .joining invite group payload ∧
        user = (s.conns c).user)
  | .setMemberRole group user role => t = .settingRole group user role
  | .disallowMember group user => t = .disallowing group user
  | .deleteGroup group => t = .deleting group
  | .appendMessage group epoch sender payload commit =>
    t = .appending group epoch payload commit ∧ sender = (s.conns c).user ∧
      ∃ seq logs, Relay.appendMessage group epoch sender payload commit s.store.logs = .ok seq logs
  | .createInvite invite record =>
    t = .creatingInvite invite record ∧ s.store.has record.group = true
  | .setInvite invite record =>
    (t = .withdrawing invite ∧ record = none) ∨
      ∃ old payload, t = .updating invite payload ∧ s.store.invites invite = some old ∧
        record = some { old with payload }
  | .redeem invite user record =>
    t = .start (.redeemInvite invite) ∧ user = (s.conns c).user ∧
      s.store.redeemable invite user now = .ok record
  | .subscribe group c' frames =>
    c' = c ∧ ((t = .registering group ∧ frames = []) ∨
      ∃ after data, t = .subscribing group after ∧ s.store.logs.groups group = some data ∧
        frames = .reply rid (.ok ((Relay.messagesAfter data.log after).getLast?.map (·.seq))) ::
          (Relay.messagesAfter data.log after).map .msg)
  | .unsubscribe group user => t = .unsubscribing group user
  | .dropGroup group => t = .dropping group
  | .lock group c' =>
    c' = c ∧ s.hub.locks group = none ∧
      ∃ epoch payload commit, t = .locking group epoch payload commit
  | .unlock group =>
    (∃ seq, t = .sent group seq) ∨ ∃ epoch payload commit, t = .appending group epoch payload commit
  | .fanOut group sender frame =>
    sender = (s.conns c).user ∧
      ((∃ epoch seq payload, t = .fanning group epoch seq payload ∧
          frame = .msg { group, seq, epoch, sender, payload }) ∨
        ∃ payload, t = .signaling group payload ∧ frame = .eph group sender payload)
  | .deliver recipient sender group after payload =>
    t = .delivering recipient group after payload ∧ sender = (s.conns c).user

/-- What is known of a handler that goes on from a section. -/
def Task.LeadsTo (admins : List String) (s : App π) (c : ℕ) (t : Task π) : Task π → Prop
  | .start _ => False
  | .registering group => t = .start (.createGroup group) ∧ s.store.has group = false
  | .allowing group _ => s.requireAdmin admins group (s.conns c).user = .ok ()
  | .demoting group _ => s.requireAdmin admins group (s.conns c).user = .ok ()
  | .settingRole group target role =>
    role = .admin ∨ (t = .demoting group target ∧ s.guardDemotion group target = .ok ())
  | .removing group _ => s.requireAdmin admins group (s.conns c).user = .ok ()
  | .disallowing group target =>
    s.guardRemoval group target = .ok () ∧
      (t = .removing group target ∨
        (t = .start (.disallow group target) ∧ target = (s.conns c).user))
  | .unsubscribing group target => t = .disallowing group target
  | .deleting group => s.requireAdmin admins group (s.conns c).user = .ok ()
  | .dropping group => t = .deleting group
  | .subscribing group _ => s.requireMember group (s.conns c).user = .ok ()
  | .locking group _ _ _ => s.requireMember group (s.conns c).user = .ok ()
  | .appending group epoch payload commit =>
    t = .locking group epoch payload commit ∧ s.hub.locks group = none
  | .fanning group epoch seq payload =>
    ∃ commit logs, t = .appending group epoch payload commit ∧
      Relay.appendMessage group epoch (s.conns c).user payload commit s.store.logs = .ok seq logs
  | .sent group seq => ∃ epoch payload, t = .fanning group epoch seq payload
  | .signaling group _ => s.requireMember group (s.conns c).user = .ok ()
  | .checking _ group _ _ => s.requireMember group (s.conns c).user = .ok ()
  | .delivering recipient group _ _ => s.requireMember group recipient = .ok ()
  | .creatingInvite _ record => s.requireAdmin admins record.group (s.conns c).user = .ok ()
  | .authorizing _ _ _ => True
  | .updating _ _ => True
  | .revoking _ _ => True
  | .withdrawing _ => True
  | .joining invite group _ =>
    t = .start (.redeemInvite invite) ∧
      ∃ now record, s.store.redeemable invite (s.conns c).user now = .ok record ∧
        record.group = group

/-- What is known of the next section of a handler, and of where it goes on from there. -/
structure Task.Comes (admins : List String) (s : App π) (c rid now : ℕ) (t : Task π)
    (out : Section π × Next π) : Prop where
  stems : out.1.Stems s c rid now t
  leads : ∀ t', out.2 = .goOn t' → t.LeadsTo admins s c t'
  /-- Only `Send` waits, for the lock of its group. -/
  waits : out.2 = .wait →
    ∃ group epoch payload commit, t = .locking group epoch payload commit

namespace Task.Comes

variable {t t' : Task π} {sec : Section π} {result : Except Refusal Unit}

theorem reply {r : Reply π} (h : sec.Stems s c rid now t) :
    t.Comes admins s c rid now (sec, .reply r) := ⟨h, nofun, nofun⟩

theorem refuse (e : Refusal) : t.Comes admins s c rid now (App.refuse e) :=
  ⟨trivial, nofun, nofun⟩

theorem goOn (h : sec.Stems s c rid now t) (h' : t.LeadsTo admins s c t') :
    t.Comes admins s c rid now (sec, .goOn t') := by
  refine ⟨h, fun t'' ht'' => ?_, nofun⟩
  cases ht''
  exact h'

/-- A check reads, and lets a handler go on if it passes. -/
theorem check (h : result = .ok () → t.LeadsTo admins s c t') :
    t.Comes admins s c rid now (App.check result t') := by
  unfold App.check
  split
  · exact goOn trivial (h rfl)
  · exact refuse _

/-- The same with a payload, which has to be base64 as well. -/
theorem checkPayload {next : π → Task π} (payload : Option π)
    (h : result = .ok () → ∀ p, t.LeadsTo admins s c (next p)) :
    t.Comes admins s c rid now (App.checkPayload result payload next) := by
  unfold App.checkPayload
  split
  · exact goOn trivial (h rfl _)
  · exact refuse _
  · exact refuse _

/-- A section on a group that has gone is a refusal. -/
theorem ifGroup {group : String} {out : Section π × Next π}
    (h : s.store.has group = true → t.Comes admins s c rid now out) :
    t.Comes admins s c rid now (s.ifGroup group out) := by
  unfold App.ifGroup
  split
  next hhas => exact h hhas
  next => exact refuse _

end Task.Comes

/-- **Every handler comes to its own sections, and goes on from them to where it should.** -/
theorem comes_next (admins : List String) (s : App π) (c rid now : ℕ) (t : Task π) :
    t.Comes admins s c rid now (t.next admins s c rid now) := by
  unfold Task.next
  cases t with
  | start request =>
    cases request with
    | createGroup group =>
      dsimp only [Request.begin]
      split
      -- There is such a group already.
      · exact .refuse _
      · next h =>
        have hfree := Bool.eq_false_iff.mpr h
        exact .goOn ⟨rfl, rfl, hfree⟩ ⟨rfl, hfree⟩
    | allow group target => exact .check id
    | setRole group target role =>
      dsimp only [Request.begin]
      split
      -- The text is no role; a promotion is only checked, a demotion is guarded as well.
      · exact .refuse _
      · exact .check fun _ => .inl rfl
      · exact .check id
    | disallow group target =>
      dsimp only [Request.begin]
      split
      -- Whoever leaves by themselves need not be an admin.
      · next hself => exact .check fun hr => ⟨hr, .inr ⟨rfl, hself⟩⟩
      · exact .check id
    | deleteGroup group => exact .check id
    | subscribe group after => exact .check id
    | send group epoch payload commit | ephemeral group payload =>
      exact .checkPayload payload fun hr _ => hr
    | welcome recipient group after payload => exact .check id
    | createInvite invite group payload expiresAt maxUses =>
      exact .checkPayload payload fun hr _ => hr
    | updateInvite invite payload =>
      dsimp only [Request.begin]
      split
      · exact .refuse _
      · exact .goOn trivial trivial
    | revokeInvite invite =>
      dsimp only [Request.begin]
      split
      -- No such invite is no error here, in contrast to `UpdateInvite`.
      · exact ⟨trivial, nofun, nofun⟩
      · exact .goOn trivial trivial
    | redeemInvite invite =>
      dsimp only [Request.begin]
      split
      · exact .refuse _
      · next record hr => exact .goOn ⟨rfl, rfl, hr⟩ ⟨rfl, now, record, hr, rfl⟩
  | registering group => exact .reply ⟨rfl, .inl ⟨rfl, rfl⟩⟩
  | allowing group target => exact .ifGroup fun h => .reply ⟨h, .inl rfl⟩
  | demoting group target => exact .check fun hr => .inr ⟨rfl, hr⟩
  | settingRole group target role =>
    refine .ifGroup fun _ => ?_
    split
    · exact .reply rfl
    · exact .refuse _
  | removing group target => exact .check fun hr => ⟨hr, .inl rfl⟩
  | disallowing group target => exact .goOn rfl rfl
  | unsubscribing group target => exact .reply rfl
  | deleting group => exact .goOn rfl rfl
  | dropping group => exact .reply rfl
  | subscribing group after =>
    dsimp only
    split
    · exact .refuse _
    · next data h => exact ⟨⟨rfl, .inr ⟨after, data, rfl, h, rfl⟩⟩, nofun, nofun⟩
  | locking group epoch payload commit =>
    dsimp only
    split
    -- Another connection holds the lock.
    · exact ⟨trivial, nofun, fun _ => ⟨group, epoch, payload, commit, rfl⟩⟩
    · next h => exact .goOn ⟨rfl, h, epoch, payload, commit, rfl⟩ ⟨rfl, h⟩
  | appending group epoch payload commit =>
    dsimp only
    split
    · next seq logs h => exact .goOn ⟨rfl, rfl, seq, logs, h⟩ ⟨commit, logs, rfl, h⟩
    -- The store has refused the message, and the lock is given back at once.
    · exact .reply (.inr ⟨epoch, payload, commit, rfl⟩)
  | fanning group epoch seq payload =>
    exact .goOn ⟨rfl, .inl ⟨epoch, seq, payload, rfl, rfl⟩⟩ ⟨epoch, payload, rfl⟩
  | sent group seq => exact .reply (.inl ⟨seq, rfl⟩)
  | signaling group payload => exact .reply ⟨rfl, .inr ⟨payload, rfl, rfl⟩⟩
  | checking recipient group after payload => exact .checkPayload payload fun hr _ => hr
  | delivering recipient group after payload => exact .reply ⟨rfl, rfl⟩
  | creatingInvite invite record => exact .ifGroup fun h => .reply ⟨rfl, h⟩
  | authorizing invite group payload => exact .checkPayload payload fun _ _ => trivial
  | updating invite payload =>
    dsimp only
    split
    · exact .refuse _
    · next old h => exact .reply (.inr ⟨old, payload, rfl, h, rfl⟩)
  | revoking invite group => exact .check fun _ => trivial
  | withdrawing invite => exact .reply (.inl ⟨rfl, rfl⟩)
  | joining invite group payload =>
    exact .ifGroup fun h => .reply ⟨h, .inr ⟨invite, payload, rfl, rfl⟩⟩

/-- The handler of a connection comes to a section, and to where it goes on from there. -/
structure App.Goes (admins : List String) (s : App π) (c rid now : ℕ) (t : Task π) (sec : Section π)
    (next : Next π) : Prop where
  task : (s.conns c).task = some (rid, t)
  eq : t.next admins s c rid now = (sec, next)

namespace App.Goes

variable {t t' : Task π} {sec : Section π} {next : Next π}

theorem comes (h : s.Goes admins c rid now t sec next) : t.Comes admins s c rid now (sec, next) :=
  h.eq ▸ comes_next admins s c rid now t

/-- **A section is come to by its own handlers.** -/
theorem stems (h : s.Goes admins c rid now t sec next) : sec.Stems s c rid now t := h.comes.stems

/-- **A handler stands where it has come to.** -/
theorem leads (h : s.Goes admins c rid now t sec (.goOn t')) : t.LeadsTo admins s c t' :=
  h.comes.leads t' rfl

/-- Where the handler stands after its next section: where it has gone on to, or where it waits. -/
theorem stands (h : s.Goes admins c rid now t sec next) {rid' : ℕ}
    (ht' : next.task rid (s.conns c).task = some (rid', t')) :
    rid' = rid ∧ (next = .goOn t' ∨
      (t' = t ∧ ∃ group epoch payload commit, t = .locking group epoch payload commit)) := by
  rw [h.task] at ht'
  -- A reply and an end leave no handler behind.
  cases next <;> cases ht'
  · exact ⟨rfl, .inl rfl⟩
  · exact ⟨rfl, .inr ⟨rfl, h.comes.waits rfl⟩⟩

end App.Goes

/-! ### The hub -/

/-- What holds of a value of an updated function holds of the new value, or did before. -/
theorem of_update {α β : Type} [DecidableEq α] {P : β → Prop} {f : α → β} {a b : α} {v : β}
    (h : P (Function.update f a v b)) : b = a ∧ P v ∨ P (f b) := by
  rw [Function.update_apply] at h
  split at h
  · next heq => exact .inl ⟨heq, h⟩
  · exact .inr h

@[simp] theorem online_perform (sec : Section π) :
    (s.perform full sec).hub.online = s.hub.online := by
  cases sec with
  | deliver recipient sender group after payload =>
    dsimp only [App.perform, App.deliver]
    split <;> rfl
  | _ => rfl

@[simp] theorem next_perform (sec : Section π) : (s.perform full sec).next = s.next := by
  cases sec with
  | deliver recipient sender group after payload =>
    dsimp only [App.perform, App.deliver]
    split <;> rfl
  | _ => rfl

/-- A section subscribes the connection it names, and takes subscriptions away. -/
theorem subscribers_perform {sec : Section π} {group user : String} {k : ℕ}
    (h : (s.perform full sec).hub.subscribers group user = some k) :
    s.hub.subscribers group user = some k ∨
      ∃ frames, sec = .subscribe group k frames ∧ user = (s.conns k).user := by
  -- The four sections that write to the table of subscribers, each to the row of one group.
  cases sec with
  | subscribe group' k' frames =>
    rcases of_update (P := fun row : String → Option ℕ => row user = some k) h with ⟨hg, h⟩ | h
    · rcases of_update (P := (· = some k)) h with ⟨hu, h⟩ | h
      · cases h
        exact .inr ⟨frames, by rw [hg], hu⟩
      · exact .inl (hg ▸ h)
    · exact .inl h
  | unsubscribe group' user' =>
    rcases of_update (P := fun row : String → Option ℕ => row user = some k) h with ⟨hg, h⟩ | h
    · rcases of_update (P := (· = some k)) h with ⟨-, h⟩ | h
      · cases h
      · exact .inl (hg ▸ h)
    · exact .inl h
  | dropGroup group' =>
    rcases of_update (P := fun row : String → Option ℕ => row user = some k) h with ⟨-, h⟩ | h
    · cases h
    · exact .inl h
  | fanOut group' sender frame =>
    rcases of_update (P := fun row : String → Option ℕ => row user = some k) h with ⟨hg, h⟩ | h
    · dsimp only at h
      -- The sender's subscription stays; another's goes if its buffer is full.
      split at h
      · exact .inl (hg ▸ h)
      · exact .inl (hg ▸ Option.eq_some_of_filter_eq_some h)
    · exact .inl h
  | deliver recipient sender group' after payload =>
    refine .inl ?_
    dsimp only [App.perform, App.deliver] at h
    split at h <;> exact h
  | _ => exact .inl h

/-! ### Members -/

theorem map_fst_withRole (user : String) (role : Role) (l : List (String × Role)) :
    (Store.withRole user role l).map Prod.fst = l.map Prod.fst := by
  induction l with
  | nil => rfl
  | cons m l ih =>
    unfold Store.withRole
    split
    · rfl
    · rw [List.map_cons, List.map_cons, ih]

/-- A section that changes who is a member of a group, or which groups there are. -/
def Section.onMembers : Section π → Bool
  | .createGroup _ _ => true
  | .allowMember _ _ => true
  | .setMemberRole _ _ _ => true
  | .disallowMember _ _ => true
  | .deleteGroup _ => true
  | _ => false

/-- What a message does to the logs: nothing, or it is at the end of one of them. -/
theorem groups_appendMessage (store : Store π) (group : String) (epoch : ℕ) (sender : String)
    (payload : π) (commit : Bool) :
    (store.appendMessage group epoch sender payload commit).logs = store.logs ∨
      ∃ data epoch', store.logs.groups group = some data ∧
        (store.appendMessage group epoch sender payload commit).logs = store.logs.insert group
          { epoch := epoch', log := data.log ++ [data.entry group epoch sender payload] } := by
  cases h : Relay.appendMessage group epoch sender payload commit store.logs with
  | ok seq logs =>
    obtain ⟨data, epoch', hg, -, rfl⟩ := Relay.appendMessage_ok h
    exact .inr ⟨data, epoch', hg, finalState_of_ok h⟩
  | error e logs => exact .inl ((finalState_of_error h).trans (Relay.appendMessage_error h))

/-- A message neither makes a group nor removes one. -/
theorem has_appendMessage (store : Store π) (group : String) (epoch : ℕ) (sender : String)
    (payload : π) (commit : Bool) (group' : String) :
    (store.appendMessage group epoch sender payload commit).has group' = store.has group' := by
  rcases groups_appendMessage store group epoch sender payload commit with h | ⟨data, e, hg, h⟩
  · rw [Store.has, h]
    rfl
  · by_cases heq : group' = group
    · rw [Store.has, Store.has, h, heq, Relay.MemoryStore.groups_insert_self, hg]
      rfl
    · rw [Store.has, Store.has, h]
      exact congrArg Option.isSome (Function.update_of_ne heq _ _)

/-- The log of a group is as it was, new, or one message longer. -/
theorem logs_perform {sec : Section π} {group : String} {data : Relay.GroupData π}
    (h : (s.perform full sec).store.logs.groups group = some data) :
    s.store.logs.groups group = some data ∨ data.log = [] ∨
      ∃ old epoch sender payload commit, sec = .appendMessage group epoch sender payload commit ∧
        s.store.logs.groups group = some old ∧
        data.log = old.log ++ [old.entry group epoch sender payload] := by
  cases sec with
  | createGroup group' creator =>
    rcases of_update (P := (· = some data)) h with ⟨-, h⟩ | h
    · cases h
      exact .inr (.inl rfl)
    · exact .inl h
  | deleteGroup group' =>
    rcases of_update (P := (· = some data)) h with ⟨-, h⟩ | h
    · cases h
    · exact .inl h
  | allowMember group' user =>
    dsimp only [App.perform, App.setStore, Store.allowMember] at h
    split at h <;> exact .inl h
  | appendMessage group' epoch sender payload commit =>
    change (s.store.appendMessage group' epoch sender payload commit).logs.groups group = _ at h
    rcases groups_appendMessage s.store group' epoch sender payload commit with
      heq | ⟨old, e, hg, heq⟩
    · rw [heq] at h
      exact .inl h
    · rw [heq] at h
      rcases of_update (P := (· = some data)) h with ⟨rfl, h⟩ | h
      · cases h
        exact .inr (.inr ⟨old, epoch, sender, payload, commit, rfl, hg, rfl⟩)
      · exact .inl h
  | deliver recipient sender group' after payload =>
    dsimp only [App.perform, App.deliver] at h
    split at h <;> exact .inl h
  | _ => exact .inl h

/-- The other sections leave members and groups alone. -/
theorem members_perform {sec : Section π} (h : sec.onMembers = false) :
    (s.perform full sec).store.members = s.store.members ∧
      (s.perform full sec).store.has = s.store.has := by
  cases sec with
  | createGroup group creator => cases h
  | allowMember group user => cases h
  | setMemberRole group user role => cases h
  | disallowMember group user => cases h
  | deleteGroup group => cases h
  | appendMessage group epoch sender payload commit =>
    exact ⟨rfl, funext fun group' => has_appendMessage ..⟩
  | deliver recipient sender group after payload =>
    dsimp only [App.perform, App.deliver]
    split <;> exact ⟨rfl, rfl⟩
  | _ => exact ⟨rfl, rfl⟩

section

variable (store : Store π) (group user group' user' : String)

theorem isMember_iff : store.isMember group user = true ↔
    store.has group = true ∧ user ∈ (store.members group).map Prod.fst := by
  rw [Store.isMember, Bool.and_eq_true, List.any_eq_true, List.mem_map]
  simp only [decide_eq_true_eq]

/-- Whoever makes a group is its member, and the only one. -/
theorem isMember_createGroup : (store.createGroup group' user').isMember group user = true ↔
    if group = group' then user = user' else store.isMember group user = true := by
  simp only [isMember_iff]
  by_cases hg : group = group'
  · subst hg
    simp [Store.createGroup, Store.has]
  · simp [Store.createGroup, Store.has, Relay.MemoryStore.insert, hg]

theorem isMember_allowMember : (store.allowMember group' user').isMember group user = true ↔
    store.isMember group user = true ∨ store.has group = true ∧ group = group' ∧ user = user' := by
  simp only [isMember_iff]
  unfold Store.allowMember
  split
  -- Whoever is a member already is not added again.
  next hin =>
    refine ⟨.inl, fun h => h.elim id ?_⟩
    rintro ⟨hhas, rfl, rfl⟩
    obtain ⟨m, hm, hu⟩ := List.any_eq_true.mp hin
    exact ⟨hhas, List.mem_map.mpr ⟨m, hm, of_decide_eq_true hu⟩⟩
  next =>
    by_cases hg : group = group'
    · subst hg
      simp only [Store.has, Function.update_self, List.map_append, List.mem_append, List.map_cons,
        List.map_nil, List.mem_singleton]
      tauto
    · simp [Store.has, hg]

theorem isMember_setMemberRole (role : Role) :
    (store.setMemberRole group' user' role).isMember group user = true ↔
      store.isMember group user = true := by
  simp only [isMember_iff]
  by_cases hg : group = group'
  · subst hg
    simp [Store.setMemberRole, Store.has, map_fst_withRole]
  · simp [Store.setMemberRole, Store.has, hg]

theorem isMember_disallowMember : (store.disallowMember group' user').isMember group user = true ↔
    store.isMember group user = true ∧ ¬(group = group' ∧ user = user') := by
  simp only [isMember_iff]
  by_cases hg : group = group'
  · subst hg
    simp only [Store.disallowMember, Store.has, Function.update_self, List.mem_map, List.mem_filter,
      decide_eq_true_eq, true_and]
    grind
  · simp [Store.disallowMember, Store.has, hg]

theorem isMember_deleteGroup : (store.deleteGroup group').isMember group user = true ↔
    store.isMember group user = true ∧ group ≠ group' := by
  simp only [isMember_iff]
  by_cases hg : group = group'
  · subst hg
    simp [Store.deleteGroup, Store.has]
  · simp [Store.deleteGroup, Store.has, hg]

end

/-- A section takes a membership away when it says so. -/
theorem isMember_perform (full : ℕ → Bool) {t : Task π} {sec : Section π}
    (hstems : sec.Stems s c rid now t) {group user : String} (h : s.store.isMember group user = true) :
    (s.perform full sec).store.isMember group user = true ∨
      sec = .disallowMember group user ∨ sec = .deleteGroup group := by
  cases sec with
  | createGroup group' creator =>
    refine .inl ((isMember_createGroup ..).mpr ?_)
    split
    next hg =>
      -- a name that is free has no members
      rw [isMember_iff, hg, hstems.2.2] at h
      exact absurd h.1 Bool.false_ne_true
    next => exact h
  | allowMember group' user' => exact .inl ((isMember_allowMember ..).mpr (.inl h))
  | setMemberRole group' user' role => exact .inl ((isMember_setMemberRole ..).mpr h)
  | disallowMember group' user' =>
    by_cases heq : group = group' ∧ user = user'
    · exact .inr (.inl (by rw [heq.1, heq.2]))
    · exact .inl ((isMember_disallowMember ..).mpr ⟨h, heq⟩)
  | deleteGroup group' =>
    by_cases heq : group = group'
    · exact .inr (.inr (by rw [heq]))
    · exact .inl ((isMember_deleteGroup ..).mpr ⟨h, heq⟩)
  | _ =>
    left
    rw [Store.isMember, (members_perform rfl).1, (members_perform rfl).2]
    exact h

/-- A section gives a membership when it says so. -/
theorem isMember_of_perform {sec : Section π} {group user : String}
    (h : (s.perform full sec).store.isMember group user = true) :
    s.store.isMember group user = true ∨ sec = .allowMember group user ∨
      sec = .createGroup group user := by
  cases sec with
  | createGroup group' creator =>
    have h := (isMember_createGroup ..).mp h
    split at h
    next hg => exact .inr (.inr (by rw [hg, h]))
    next => exact .inl h
  | allowMember group' user' =>
    rcases (isMember_allowMember ..).mp h with h | ⟨-, hg, hu⟩
    · exact .inl h
    · exact .inr (.inl (by rw [hg, hu]))
  | setMemberRole group' user' role => exact .inl ((isMember_setMemberRole ..).mp h)
  | disallowMember group' user' => exact .inl ((isMember_disallowMember ..).mp h).1
  | deleteGroup group' => exact .inl ((isMember_deleteGroup ..).mp h).1
  | _ =>
    rw [Store.isMember, (members_perform rfl).1, (members_perform rfl).2] at h
    exact .inl h

end Server

end Quorum
