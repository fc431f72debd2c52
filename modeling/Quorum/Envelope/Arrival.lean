import Quorum.Envelope.Frame
import Quorum.Order.Along

/-!
# Envelopes in log order

Group messages reach a device in the order of the log, and each has a handler of its own
(`onGroupMessage`).  The worker opens them one after the other.  What follows is not held back by
anything: a change of membership is taken over at once, an ordinary envelope is applied at once, and
one that needs an admin is applied at once when the roles this device has cached say that its sender
is one.  Otherwise `senderIsAdmin` asks the relay for the roster first, and the envelope waits while
the handlers of later messages go on.

An envelope that waits is therefore overtaken (`overtaken_removal`).  As long as nothing that takes
effect at once is opened while an envelope waits, and rosters come in the order they were asked
for, envelopes are applied in log order, and two devices end with one record
(`applied_in_log_order`).
-/

namespace Quorum

open Js

/-! ### The call a device is in -/

/-- Two contexts that differ at most in the call their device is in. -/
structure Ctx.Agrees (c c' : Ctx) : Prop where
  isAdmin : c.isAdmin = c'.isAdmin
  now : c.now = c'.now
  clock : c.clock = c'.clock
  platform : c.platform = c'.platform

/-- Leaving a call is an effect and changes no record. -/
theorem quiet_leaveCall {σ : Type} (env : Envelope) (ch : Value) :
    Quiet (env.leaveCall ch : Act Effect σ Unit) := by
  unfold Envelope.leaveCall
  split
  · exact Quiet.emit _
  · exact Quiet.pure ()

/-- What the removal of a voice room changes is the same in every call. -/
theorem state_applyVchanDel (env : Envelope) (rooms : Rooms) :
    (env.applyVchanDel rooms).state =
      if includes rooms.voice (env.field "ch") then
        { rooms with
          voiceChannels := some (removeFrom (env.field "ch") rooms.voice)
          deletedVoice := markDeleted rooms.deletedVoice (env.field "ch") }
      else rooms := by
  unfold Envelope.applyVchanDel
  rw [Act.state_bind]
  dsimp only [Act.read]
  split
  · rw [Act.state_update_bind, Act.state_update_bind]
    exact (Quiet.bind (quiet_leaveCall env _)
      (fun _ => Quiet.lift_bind fun _ => Quiet.emit_bind fun _ => Quiet.emit _) _).symm
  · rfl

/-- What the new name of a voice room changes is the same in every call. -/
theorem state_applyVchanRen (env : Envelope) (rooms : Rooms) :
    (env.applyVchanRen rooms).state =
      if includes rooms.voice (env.field "ch") && !includes rooms.voice (env.field "to") then
        { rooms with
          voiceChannels := some (renameIn (env.field "ch") (env.field "to") rooms.voice)
          deletedVoice :=
            clearDeleted (markDeleted rooms.deletedVoice (env.field "ch")) (env.field "to") }
      else rooms := by
  unfold Envelope.applyVchanRen
  rw [Act.state_bind]
  dsimp only [Act.read]
  split
  · rw [Act.state_update_bind, Act.state_update_bind, Act.state_update_bind]
    exact (Quiet.bind (quiet_leaveCall env _) (fun _ => Quiet.lift_bind fun _ =>
      Quiet.lift_bind fun _ => Quiet.emit_bind fun _ => Quiet.emit _) _).symm
  · rfl

/-- **The call a device is in makes no difference to the record.** -/
theorem Delivery.apply_inCall (record : Record) (sender : Str) (content : Value) (c : Ctx)
    (inCall : Option (Str × Str)) :
    Delivery.apply record ⟨sender, content, { c with inCall }⟩ =
      Delivery.apply record ⟨sender, content, c⟩ := by
  have hreaches : Delivery.reaches ⟨sender, content, { c with inCall }⟩ record.id =
      Delivery.reaches ⟨sender, content, c⟩ record.id := rfl
  rw [Delivery.apply_eq, Delivery.apply_eq, hreaches]
  -- the two envelopes have the same fields
  let env := Delivery.envelope ⟨sender, content, c⟩ record.id
  let env' := Delivery.envelope ⟨sender, content, { c with inCall }⟩ record.id
  cases Delivery.reaches ⟨sender, content, c⟩ record.id with
  | none => rfl
  | some kind =>
    cases kind with
    | vchanRen =>
      exact congrArg (fun rooms => { record with rooms })
        ((state_applyVchanRen env' record.rooms).trans (state_applyVchanRen env record.rooms).symm)
    | vchanDel =>
      exact congrArg (fun rooms => { record with rooms })
        ((state_applyVchanDel env' record.rooms).trans (state_applyVchanDel env record.rooms).symm)
    | _ => rfl

theorem Delivery.apply_agrees (record : Record) (sender : Str) (content : Value) {c c' : Ctx}
    (h : c.Agrees c') :
    Delivery.apply record ⟨sender, content, c⟩ = Delivery.apply record ⟨sender, content, c'⟩ := by
  have hc : c = { c' with inCall := c.inCall } := by
    obtain ⟨h₁, h₂, h₃, h₄⟩ := h
    rw [← h₁, ← h₂, ← h₃, ← h₄]
  rw [hc, Delivery.apply_inCall]

/-! ### Messages -/

namespace Arrival

/-- What the worker finds in a group message. -/
inductive Opened
  | message (sender : Str) (content : Value)
  | membershipChange (members : List Str)

/-- A group message, and what is in it if the worker can open it. -/
structure Message where
  seq : ℕ
  opened : Option Opened

namespace Message

/-- The worker can open a message. -/
def readable (m : Message) : Bool := m.opened.isSome

/-- A message is an envelope. -/
def isEnvelope (m : Message) : Bool :=
  match m.opened with
  | some (.message _ _) => true
  | _ => false

/-- What a message changes in the record when it takes effect. -/
def effect (m : Message) (ctx : Ctx) (record : Record) : Record :=
  match m.opened with
  | some (.message sender content) => Delivery.apply record ⟨sender, content, ctx⟩
  | some (.membershipChange members) => { record with members := some members }
  | none => record

theorem effect_agrees (m : Message) {c c' : Ctx} (h : m.isEnvelope = true → c.Agrees c')
    (record : Record) : m.effect c record = m.effect c' record := by
  unfold isEnvelope at h
  unfold effect
  generalize m.opened = o at h ⊢
  cases o with
  | none => rfl
  | some opened =>
    cases opened with
    | message sender content => exact Delivery.apply_agrees record sender content (h rfl)
    | membershipChange members => rfl

end Message

/-! ### The handlers of a device -/

/-- A handler that waits for the roster before it applies its envelope. -/
structure Check where
  message : Message
  sender : Str
  need : Requirement

/-- The handlers of the group messages of a circle that stays on the device. -/
structure Device where
  record : Record
  /-- `record.roles`. -/
  roles : Option Table
  /-- The messages that the worker has not opened yet. -/
  inbox : List Message
  waiting : List Check
  /-- What has taken effect, in that order, with what it was applied with. -/
  applied : List (Message × Ctx)

inductive Action
  /-- The relay pushes a message. -/
  | deliver (m : Message)
  /-- The worker answers the oldest request. -/
  | answer (ctx : Ctx)
  /-- A request for the roster that a handler waits for ends, with the roster or without. -/
  | roster (i : ℕ) (reply : Option (List (Str × Value))) (ctx : Ctx)
  /-- A roster that something else asked for arrives. -/
  | refresh (members : List (Str × Value))

/-- The message an action delivers. -/
def Action.delivers : Action → Option Message
  | .deliver m => some m
  | _ => none

def delivered (l : List Action) : List Message := l.filterMap Action.delivers

namespace Device

def start (record : Record) (roles : Option Table) : Device where
  record
  roles
  inbox := []
  waiting := []
  applied := []

/-- `record.roles?.[sender]`. -/
def role (d : Device) (sender : Str) : Value :=
  match d.roles with
  | some roles => roles.get sender
  | none => .undefined

/-- `refreshRoles(serverId)` with the answer to its request, if one came. -/
def refreshRoles (d : Device) (reply : Option (List (Str × Value))) : Device :=
  match reply with
  | some members =>
    { d with roles := some (members.foldl (fun roles m => roles.define m.1 m.2) .empty) }
  | none => d

/-- What `senderIsAdmin` answers after the roster was asked for: a role that is still unknown passes
unless the envelope is destructive. -/
def senderIsAdmin (d : Device) (sender : Str) (need : Requirement) : Bool :=
  let fresh := d.role sender
  if isOp fresh "admin" then true
  else if fresh.truthy then false
  else !need.destructive

def take (d : Device) (m : Message) (ctx : Ctx) : Device :=
  { d with record := m.effect ctx d.record, applied := d.applied ++ [(m, ctx)] }

/-- What the handler of a message does when the worker has answered, up to where it waits. -/
def onOpened (d : Device) (m : Message) (ctx : Ctx) : Device :=
  match m.opened with
  | none => d
  | some (.membershipChange _) => d.take m ctx
  | some (.message sender content) =>
    match adminRequirement content with
    | none => d.take m { ctx with isAdmin := none }
    | some need =>
      if isOp (d.role sender) "admin" then d.take m { ctx with isAdmin := some true }
      else { d with waiting := d.waiting ++ [{ message := m, sender, need }] }

def step (d : Device) : Action → Device
  | .deliver m => { d with inbox := d.inbox ++ [m] }
  | .answer ctx =>
    match d.inbox with
    | [] => d
    | m :: inbox => { d with inbox }.onOpened m ctx
  | .roster i reply ctx =>
    match d.waiting[i]? with
    | none => d
    | some check =>
      let d := { d.refreshRoles reply with waiting := d.waiting.eraseIdx i }
      d.take check.message { ctx with isAdmin := some (d.senderIsAdmin check.sender check.need) }
  | .refresh members => d.refreshRoles (some members)

def run (d : Device) (l : List Action) : Device := l.foldl step d

/-- The calls of `applyEnvelope`, by the sequence numbers of the envelopes. -/
def calls (d : Device) : List ℕ := ((d.applied.map Prod.fst).filter (·.isEnvelope)).map (·.seq)

/-- No message is on its way to taking effect. -/
def Settled (d : Device) : Prop := d.inbox = [] ∧ d.waiting = []

/-- A message takes effect as soon as the worker has answered. -/
def atOnce (d : Device) (m : Message) : Bool :=
  match m.opened with
  | none => false
  | some (.membershipChange _) => true
  | some (.message sender content) =>
    (adminRequirement content).isNone || isOp (d.role sender) "admin"

/-- The worker opens nothing that takes effect at once while an envelope waits for the roster, and
rosters come in the order they were asked for. -/
def Safe (d : Device) : Action → Prop
  | .answer _ => d.inbox.head?.any d.atOnce = true → d.waiting.isEmpty = true
  | .roster i _ _ => i = 0
  | _ => True

instance decidableSafe (d : Device) : (a : Action) → Decidable (d.Safe a)
  | .answer _ => inferInstanceAs (Decidable (_ → _))
  | .roster i _ _ => inferInstanceAs (Decidable (i = 0))
  | .deliver _ => .isTrue trivial
  | .refresh _ => .isTrue trivial

/-- What becomes of a message that the worker has answered: nothing if it cannot be opened, and
else it takes effect or waits. -/
theorem onOpened_cases (d : Device) (m : Message) (ctx : Ctx) :
    (m.readable = false ∧ d.onOpened m ctx = d) ∨
      (m.readable = true ∧ d.atOnce m = true ∧ ∃ c, d.onOpened m ctx = d.take m c) ∨
      (m.readable = true ∧ ∃ check : Check, check.message = m ∧
        d.onOpened m ctx = { d with waiting := d.waiting ++ [check] }) := by
  unfold onOpened atOnce Message.readable
  cases m.opened with
  | none => exact .inl ⟨rfl, rfl⟩
  | some opened =>
    cases opened with
    | membershipChange members => exact .inr (.inl ⟨rfl, rfl, ctx, rfl⟩)
    | message sender content =>
      dsimp only
      cases adminRequirement content with
      | none => exact .inr (.inl ⟨rfl, rfl, _, rfl⟩)
      | some need =>
        cases isOp (d.role sender) "admin" with
        | true => exact .inr (.inl ⟨rfl, rfl, _, rfl⟩)
        | false => exact .inr (.inr ⟨rfl, { message := m, sender, need }, rfl, rfl⟩)

end Device

/-! ### The order -/

/-- What has taken effect, what waits and what is still to be opened stand in the order of the log,
and the record is what replaying the first of these gives. -/
structure InLine (record : Record) (log : List Message) (d : Device) : Prop where
  line : d.applied.map Prod.fst ++ d.waiting.map (·.message) ++ d.inbox.filter (·.readable) =
    log.filter (·.readable)
  replay : d.record = d.applied.foldl (fun r p => p.1.effect p.2 r) record

namespace InLine

variable {record : Record} {log : List Message} {d : Device}

theorem start (record : Record) (roles : Option Table) :
    InLine record [] (Device.start record roles) := ⟨rfl, rfl⟩

/-- A message that takes effect while none waits is the next one. -/
theorem take {m : Message} (h : InLine record log d) (hw : d.waiting = []) (ctx : Ctx)
    {inbox : List Message} (hi : d.inbox = m :: inbox) (hm : m.readable = true) :
    InLine record log ({ d with inbox }.take m ctx) := by
  refine ⟨?_, ?_⟩
  · have hline := h.line
    rw [hw, hi, List.filter_cons_of_pos hm] at hline
    simpa [Device.take, hw] using hline
  · change m.effect ctx d.record = (d.applied ++ [(m, ctx)]).foldl _ record
    rw [List.foldl_append, ← h.replay]
    rfl

theorem onOpened {m : Message} (h : InLine record log d) (ctx : Ctx) {inbox : List Message}
    (hi : d.inbox = m :: inbox) (hfree : d.atOnce m = true → d.waiting = []) :
    InLine record log ({ d with inbox }.onOpened m ctx) := by
  have hline := h.line
  obtain ⟨hm, he⟩ | ⟨hm, hat, c, he⟩ | ⟨hm, check, rfl, he⟩ :=
    { d with inbox }.onOpened_cases m ctx <;> rw [he]
  · rw [hi, List.filter_cons_of_neg (by simp [hm])] at hline
    exact ⟨hline, h.replay⟩
  · exact h.take (hfree hat) c hi hm
  · rw [hi, List.filter_cons_of_pos hm] at hline
    exact ⟨by simpa using hline, h.replay⟩

theorem answer (h : InLine record log d) (ctx : Ctx) (hsafe : d.Safe (.answer ctx)) :
    InLine record log (d.step (.answer ctx)) := by
  unfold Device.step
  cases hi : d.inbox with
  | nil => exact h
  | cons m inbox =>
    refine h.onOpened ctx hi fun hm => List.isEmpty_iff.mp (hsafe ?_)
    rw [hi]
    exact hm

theorem roster (h : InLine record log d) (reply : Option (List (Str × Value))) (ctx : Ctx) :
    InLine record log (d.step (.roster 0 reply ctx)) := by
  unfold Device.step
  cases hw : d.waiting with
  | nil => exact h
  | cons check waiting =>
    have hline := h.line
    rw [hw] at hline
    have hsame : (d.refreshRoles reply).record = d.record ∧
        (d.refreshRoles reply).inbox = d.inbox ∧
        (d.refreshRoles reply).applied = d.applied := by
      unfold Device.refreshRoles
      split <;> exact ⟨rfl, rfl, rfl⟩
    obtain ⟨hrecord, hinbox, happlied⟩ := hsame
    refine ⟨?_, ?_⟩
    · simpa [Device.take, hinbox, happlied] using hline
    · simp only [Device.take, List.getElem?_cons_zero, hrecord, happlied, List.foldl_append, ← h.replay]
      rfl

/-- What one safe step keeps. -/
theorem step (h : InLine record log d) (a : Action) (hsafe : d.Safe a) :
    InLine record (log ++ delivered [a]) (d.step a) := by
  cases a with
  | deliver m =>
    refine ⟨?_, h.replay⟩
    change d.applied.map Prod.fst ++ d.waiting.map (·.message) ++ (d.inbox ++ [m]).filter _ =
      (log ++ [m]).filter _
    rw [List.filter_append, List.filter_append, ← List.append_assoc, h.line]
  | answer ctx =>
    rw [show delivered [Action.answer ctx] = [] from rfl, List.append_nil]
    exact h.answer ctx hsafe
  | roster i reply ctx =>
    obtain rfl : i = 0 := hsafe
    rw [show delivered [Action.roster 0 reply ctx] = [] from rfl, List.append_nil]
    exact h.roster reply ctx
  | refresh members =>
    rw [show delivered [Action.refresh members] = [] from rfl, List.append_nil]
    exact ⟨h.line, h.replay⟩

/-- What a run of safe steps keeps. -/
theorem run {l : List Action} (h : InLine record log d) (hsafe : Along Device.step Device.Safe d l) :
    InLine record (log ++ delivered l) (d.run l) := by
  induction l generalizing log d with
  | nil => simpa [delivered, Device.run] using h
  | cons a l ih =>
    have hrest := ih (h.step a hsafe.1) hsafe.2
    rwa [List.append_assoc, show delivered [a] ++ delivered l = delivered (a :: l) from
      (List.filterMap_append (l := [a])).symm] at hrest

/-- What has taken effect is the beginning of the log, as far as it can be opened. -/
theorem applied_prefix (h : InLine record log d) :
    d.applied.map Prod.fst <+: log.filter (·.readable) :=
  ⟨_, by rw [← h.line, List.append_assoc]⟩

/-- On a settled device all of the log has taken effect. -/
theorem applied_of_settled (h : InLine record log d) (hd : d.Settled) :
    d.applied.map Prod.fst = log.filter (·.readable) := by
  rw [← h.line, hd.1, hd.2]
  simp

/-- Envelopes are applied in the order of the log. -/
theorem calls_increasing (h : InLine record log d) (hlog : log.Pairwise (·.seq < ·.seq)) :
    d.calls.Pairwise (· < ·) := by
  have hsub : ((d.applied.map Prod.fst).filter (·.isEnvelope)).Sublist log :=
    (List.filter_sublist.trans h.applied_prefix.sublist).trans List.filter_sublist
  exact List.pairwise_map.mpr (hlog.sublist hsub)

end InLine

/-- Two replays of the same messages under contexts that agree give the same record. -/
theorem replay_agrees {ps ps' : List (Message × Ctx)} (hfst : ps.map Prod.fst = ps'.map Prod.fst)
    (hctx : ∀ p ∈ ps, ∀ p' ∈ ps', p.1.seq = p'.1.seq → p.1.isEnvelope = true → p.2.Agrees p'.2)
    (record : Record) :
    ps.foldl (fun r p => p.1.effect p.2 r) record =
      ps'.foldl (fun r p => p.1.effect p.2 r) record := by
  induction ps generalizing ps' record with
  | nil =>
    rw [List.map_eq_nil_iff.mp hfst.symm]
  | cons p ps ih =>
    cases ps' with
    | nil => cases hfst
    | cons p' ps' =>
      obtain ⟨hp, hps⟩ := List.cons.inj hfst
      have hhead := hctx p List.mem_cons_self p' List.mem_cons_self (by rw [hp])
      rw [List.foldl_cons, List.foldl_cons, Message.effect_agrees p.1 hhead record, hp]
      exact ih hps (fun q hq q' hq' =>
        hctx q (List.mem_cons_of_mem p hq) q' (List.mem_cons_of_mem p' hq')) _

/-- **Envelopes take effect in log order**, as long as nothing that takes effect at once is opened
while an envelope waits.  Two such devices that were delivered the same log, and that gave the same
answer about every sender at the same time, end with the same record. -/
theorem applied_in_log_order (record : Record) (roles : Option Table) (l : List Action)
    (hlog : (delivered l).Pairwise (·.seq < ·.seq))
    (hsafe : Along Device.step Device.Safe (Device.start record roles) l) :
    ((Device.start record roles).run l).calls.Pairwise (· < ·) ∧
      ∀ (roles' : Option Table) (l' : List Action), delivered l' = delivered l →
        Along Device.step Device.Safe (Device.start record roles') l' →
        ((Device.start record roles).run l).Settled →
        ((Device.start record roles').run l').Settled →
        (∀ p ∈ ((Device.start record roles).run l).applied,
          ∀ p' ∈ ((Device.start record roles').run l').applied,
          p.1.seq = p'.1.seq → p.1.isEnvelope = true → p.2.Agrees p'.2) →
        ((Device.start record roles).run l).record =
          ((Device.start record roles').run l').record := by
  have h : InLine record (delivered l) ((Device.start record roles).run l) :=
    (InLine.start record roles).run hsafe
  refine ⟨h.calls_increasing hlog, fun roles' l' hl hsafe' hd hd' hctx => ?_⟩
  have h' : InLine record (delivered l') ((Device.start record roles').run l') :=
    (InLine.start record roles').run hsafe'
  rw [h.replay, h'.replay]
  refine replay_agrees ?_ hctx record
  rw [h.applied_of_settled hd, h'.applied_of_settled hd', hl]

/-! ### An envelope that waits -/

/-- Text under a key of an envelope. -/
def textFields (ref : ℕ) (fields : List (String × String)) : Value :=
  .obj ref (fields.map fun f => (lit f.1, .str (lit f.2)))

/-- One admin removes the second channel, and another makes it anew. -/
def removal : Message :=
  ⟨1, some (.message (lit "ana") (textFields 1 [("k", "chan-del"), ("ch", "lobby")]))⟩

def renewal : Message :=
  ⟨2, some (.message (lit "bob") (textFields 2 [("k", "chan"), ("ch", "lobby")]))⟩

/-- A circle with two channels. -/
def twoChannels : Record :=
  { emptyCircle with
    rooms := { emptyCircle.rooms with channels := [.str (lit "general"), .str (lit "lobby")] } }

/-- A roster of admins. -/
def admins (names : List String) : List (Str × Value) :=
  names.map fun name => (lit name, .str (lit "admin"))

/-- A device of the circle that knows some of the admins. -/
def knowing (names : List String) : Device :=
  (Device.start twoChannels none).refreshRoles (some (admins names))

/-- The roster comes after the second message. -/
def rosterLate : List Action :=
  [.deliver removal, .deliver renewal, .answer plainCtx, .answer plainCtx,
    .roster 0 (some (admins ["ana", "bob"])) plainCtx]

/-- The roster comes before the second message is opened. -/
def rosterSoon : List Action :=
  [.deliver removal, .deliver renewal, .answer plainCtx,
    .roster 0 (some (admins ["ana", "bob"])) plainCtx, .answer plainCtx]

/-- The removal is applied after the channel was made anew, and the channel is gone on this device
only. -/
theorem overtaken_removal :
    ((knowing ["bob"]).run rosterLate).calls = [2, 1] ∧
      ((knowing ["ana", "bob"]).run rosterSoon).calls = [1, 2] ∧
      (((knowing ["bob"]).run rosterLate).applied.map fun p => p.2.isAdmin) =
        [some true, some true] ∧
      (((knowing ["ana", "bob"]).run rosterSoon).applied.map fun p => p.2.isAdmin) =
        [some true, some true] ∧
      includes ((knowing ["bob"]).run rosterLate).record.rooms.channels (.str (lit "lobby")) =
        false ∧
      includes ((knowing ["ana", "bob"]).run rosterSoon).record.rooms.channels
        (.str (lit "lobby")) = true := by
  decide +kernel

/-- With the roster in time the two devices agree. -/
theorem roster_in_time :
    ((knowing ["bob"]).run rosterSoon).calls.Pairwise (· < ·) ∧
      ((knowing ["bob"]).run rosterSoon).record =
        ((knowing ["ana", "bob"]).run rosterSoon).record := by
  have hlog : (delivered rosterSoon).Pairwise (·.seq < ·.seq) := by decide
  have h := applied_in_log_order twoChannels (knowing ["bob"]).roles rosterSoon hlog
    (by decide +kernel)
  refine ⟨h.1, h.2 (knowing ["ana", "bob"]).roles rosterSoon rfl (by decide +kernel) ⟨rfl, rfl⟩
    ⟨rfl, rfl⟩ ?_⟩
  have happlied : ((knowing ["bob"]).run rosterSoon).applied =
      [(removal, { plainCtx with isAdmin := some true }),
        (renewal, { plainCtx with isAdmin := some true })] := rfl
  have happlied' : ((knowing ["ana", "bob"]).run rosterSoon).applied =
      [(removal, { plainCtx with isAdmin := some true }),
        (renewal, { plainCtx with isAdmin := some true })] := rfl
  have hctx : ∀ p ∈ [(removal, { plainCtx with isAdmin := some true }),
      (renewal, { plainCtx with isAdmin := some true })],
      p.2 = { plainCtx with isAdmin := some true } := by simp
  intro p hp p' hp' _ _
  rw [hctx p (happlied ▸ hp), hctx p' (happlied' ▸ hp')]
  exact ⟨rfl, rfl, rfl, rfl⟩

end Arrival

end Quorum
