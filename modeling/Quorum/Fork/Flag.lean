import Quorum.Fork
import Quorum.Order.Along

/-!
# The flag on a circle

`onGroupMessage` tells the watch of every blob, and a blob that failed to open also lets `noteFork`
write the verdict to the flag of the circle.  A blob that opens does not: the verdict is then never
that the circle is out of sync, and a flag that was set stays.

So the flag follows the verdict just as long as nothing opens in a circle that is out of sync
(`flag_follows_iff`).
-/

namespace Quorum.Fork

open Js

/-! ### The device -/

/-- A circle's record, as far as the watch is concerned.  The flag is absent or a boolean; what is
kept is whether it is `true`. -/
structure Circle where
  name : Option Str
  epoch : Value
  restored : Bool
  lastSeq : ℕ
  outOfSync : Bool

/-- What the controller holds about forks. -/
structure Device where
  me : Str
  servers : Dict Str Circle
  catchUpTo : Dict Str ℕ
  forks : Watch
  forkWarned : List Str

inductive Effect
  | servers
  | toast (text : Str)
  | systemMessage (group text : Str)

/-- What `receive` makes of a blob.  Content may leave the circle with another name. -/
inductive Opened
  | message (name : Option Str)
  | membershipChange (members : List Str) (epoch : Value)
  | other

/-- A group message.  `opened` is absent if the blob failed to open. -/
structure Message where
  group : Str
  sender : Str
  epoch : Value
  seq : ℕ
  opened : Option Opened

/-! ### Notices -/

/-- `forkMessage(verdict, name)`. -/
def forkMessage (verdict : Verdict) (name : Str) : Option Str :=
  if verdict.outOfSync then
    some (lit "\"" ++ name ++ lit "\" is out of sync — this device is on a branch of its own and " ++
      lit "cannot read new messages. Ask a member for a fresh invite link and open it to rejoin.")
  else
    match verdict.stranded with
    | [] => none
    | [sender] => some (lit "messages from " ++ sender ++ lit " in \"" ++ name ++
        lit "\" cannot be read — their device may need to rejoin via a fresh invite link.")
    | senders => some (lit "messages from " ++ join (lit ", ") senders ++ lit " in \"" ++ name ++
        lit "\" cannot be read — their devices may need to rejoin via a fresh invite link.")

/-- Under what a notice counts as given. -/
def forkKey (group : Str) (verdict : Verdict) : Str :=
  group ++ lit ":" ++ if verdict.outOfSync then lit "self" else join (lit ",") verdict.stranded

/-- `noteFork(record)`. -/
def noteFork (d : Device) (group : Str) (record : Circle) : Device × List Effect :=
  let verdict := d.forks.verdict group
  match forkMessage verdict (record.name.getD group) with
  | none => (d, [])
  | some text =>
    let flagged := { d with
      servers := d.servers.set group { record with outOfSync := verdict.outOfSync } }
    let changed := if record.outOfSync = verdict.outOfSync then [] else [Effect.servers]
    if d.forkWarned.contains (forkKey group verdict) then (flagged, changed)
    else
      ({ flagged with forkWarned := d.forkWarned ++ [forkKey group verdict] },
        changed ++ [.toast text, .systemMessage group text])

/-- `forgetServerLocal(serverId)`. -/
def forgetServerLocal (d : Device) (group : Str) : Device :=
  { d with
    servers := d.servers.delete group
    forks := d.forks.clear group
    forkWarned := d.forkWarned.filter fun key => !(group ++ lit ":").isPrefixOf key }

/-- What the controller tells the watch of a blob that failed. -/
def Device.info (d : Device) (record : Circle) (msg : Message) : Info where
  sender := msg.sender
  epoch := msg.epoch
  me := d.me
  groupEpoch := record.epoch
  restored := record.restored
  replay := msg.seq ≤ (d.catchUpTo.get? msg.group).getD 0

/-- A blob that opened is applied. -/
def applyOpened (d : Device) (group : Str) (record : Circle) : Opened → Device × List Effect
  | .message name => ({ d with servers := d.servers.set group { record with name := name } }, [])
  | .membershipChange members epoch =>
    if members.contains d.me then
      ({ d with servers := d.servers.set group { record with epoch := epoch } }, [])
    else
      (forgetServerLocal d group,
        [.toast (lit "you were removed from \"" ++ record.name.getD (lit "undefined") ++ lit "\""),
          .servers])
  | .other => (d, [])

/-- The resume point moves past the message. -/
def Circle.advance (record : Circle) (seq : ℕ) : Circle :=
  { record with lastSeq := max record.lastSeq seq }

/-- The device has the record advanced, and told the watch of the message. -/
def Device.noted (d : Device) (msg : Message) (record : Circle) : Device :=
  { d with
    servers := d.servers.set msg.group (record.advance msg.seq)
    forks :=
      match msg.opened with
      | some _ => d.forks.succeeded msg.group msg.sender
      | none => (d.forks.failed msg.group (d.info record msg)).1 }

/-- `onGroupMessage(msg)`. -/
def onGroupMessage (d : Device) (msg : Message) : Device × List Effect :=
  match d.servers.get? msg.group with
  | none => (d, [])
  | some record =>
    match msg.opened with
    | some opened => applyOpened (d.noted msg record) msg.group (record.advance msg.seq) opened
    | none => noteFork (d.noted msg record) msg.group (record.advance msg.seq)

def receive (d : Device) (msg : Message) : Device := (onGroupMessage d msg).1

/-! ### The flag and the verdict -/

/-- The circle is flagged just if the verdict is that it is out of sync. -/
def Device.AgreesOn (d : Device) (group : Str) : Prop :=
  ∀ record, d.servers.get? group = some record →
    record.outOfSync = (d.forks.verdict group).outOfSync

def Device.Agrees (d : Device) : Prop := ∀ group, d.AgreesOn group

/-- The message opens in a circle that is out of sync, and leaves the device in it. -/
def Message.Reopens (d : Device) (msg : Message) : Prop :=
  d.servers.has msg.group = true ∧ (d.forks.verdict msg.group).outOfSync = true ∧
    ∃ opened, msg.opened = some opened ∧
      ∀ members epoch, opened = .membershipChange members epoch → d.me ∈ members

variable {group : Str} {d : Device} {record : Circle} {msg : Message}

theorem verdict_step_of_ne (w : Watch) {event : Event} (h : event.group ≠ group) :
    (step w event).verdict group = w.verdict group := by
  unfold Watch.verdict
  rw [threshold_step, state_step, Event.tally_of_ne h]

/-- A circle something just opened in is not out of sync: the sender was seen and has no count. -/
theorem outOfSync_succeeded (w : Watch) (group sender : Str) :
    ((w.succeeded group sender).verdict group).outOfSync = false := by
  rw [← Bool.not_eq_true, Watch.outOfSync_iff]
  rintro ⟨-, hseen⟩
  have hstate : (w.succeeded group sender).state group = (w.state group).succeed sender :=
    (state_set w group _ group).trans (if_pos rfl)
  have hstranded := hseen sender (by
    rw [hstate, Group.mem_seen_succeed]
    exact .inr rfl)
  have hcount := (Group.mem_stranded.mp hstranded).1
  rw [hstate, Group.count_succeed, if_pos rfl] at hcount
  exact Nat.lt_irrefl 0 hcount

/-- A failure frees nobody. -/
theorem stranded_subset_failed (w : Watch) (group : Str) (info : Info) :
    (w.verdict group).stranded ⊆ ((w.failed group info).1.verdict group).stranded := by
  intro sender h
  obtain ⟨hpos, hle⟩ := Group.mem_stranded.mp h
  have hcount : (w.state group).count sender ≤
      ((w.failed group info).1.state group).count sender := by
    have hstep := state_step w (.failed group info) group
    rw [step] at hstep
    rw [hstep, count_tally]
    exact Nat.le_add_right _ _
  refine Group.mem_stranded.mpr ⟨hpos.trans_le hcount, ?_⟩
  have hthreshold := threshold_step w (.failed group info)
  rw [step] at hthreshold
  rw [hthreshold]
  exact hle.trans hcount

theorem forkMessage_eq_none_iff (verdict : Verdict) (name : Str) :
    forkMessage verdict name = none ↔ verdict.outOfSync = false ∧ verdict.stranded = [] := by
  unfold forkMessage
  cases verdict.outOfSync with
  | true => simp
  | false =>
    rw [if_neg Bool.false_ne_true]
    split <;> simp_all

/-! ### One message -/

theorem Device.agreesOn_set (hrecord : d.servers.get? group = some record) :
    d.AgreesOn group ↔ record.outOfSync = (d.forks.verdict group).outOfSync := by
  unfold AgreesOn
  rw [hrecord]
  simp

theorem forks_noteFork (d : Device) (group : Str) (record : Circle) :
    (noteFork d group record).1.forks = d.forks := by
  unfold noteFork
  dsimp only
  cases forkMessage (d.forks.verdict group) (record.name.getD group) with
  | none => rfl
  | some text =>
    dsimp only
    by_cases hkey : d.forkWarned.contains (forkKey group (d.forks.verdict group)) = true
    · rw [if_pos hkey]
    · rw [if_neg hkey]

theorem servers_noteFork (d : Device) (group : Str) (record : Circle) :
    (noteFork d group record).1.servers =
      if (d.forks.verdict group).stranded = [] then d.servers
      else d.servers.set group { record with outOfSync := (d.forks.verdict group).outOfSync } := by
  have hnone := forkMessage_eq_none_iff (d.forks.verdict group) (record.name.getD group)
  unfold noteFork
  dsimp only
  cases htext : forkMessage (d.forks.verdict group) (record.name.getD group) with
  | none => rw [if_pos (hnone.mp htext).2]
  | some text =>
    have hstranded : (d.forks.verdict group).stranded ≠ [] := by
      intro h
      have hout := (Watch.outOfSync_iff d.forks group).not.mpr fun hand => hand.1 h
      rw [hnone.mpr ⟨Bool.eq_false_of_not_eq_true hout, h⟩] at htext
      cases htext
    dsimp only
    rw [if_neg hstranded]
    by_cases hkey : d.forkWarned.contains (forkKey group (d.forks.verdict group)) = true
    · rw [if_pos hkey]
    · rw [if_neg hkey]

/-- `noteFork` writes the verdict to the flag, unless nobody is stranded. -/
theorem agreesOn_noteFork (hrecord : d.servers.get? group = some record)
    (hflag : record.outOfSync = true → (d.forks.verdict group).stranded ≠ []) :
    (noteFork d group record).1.AgreesOn group := by
  unfold Device.AgreesOn
  rw [servers_noteFork, forks_noteFork]
  split
  · rename_i hstranded
    have hout := (Watch.outOfSync_iff d.forks group).not.mpr fun hand => hand.1 hstranded
    rw [hrecord, Bool.eq_false_of_not_eq_true hout]
    intro found hfound
    rw [← Option.some.inj hfound]
    exact Bool.eq_false_of_not_eq_true fun h => hflag h hstranded
  · rw [Dict.get?_set_self]
    intro found hfound
    rw [← Option.some.inj hfound]

theorem applyOpened_of_ne (d : Device) {g group : Str} (h : g ≠ group) (record : Circle)
    (opened : Opened) :
    (applyOpened d g record opened).1.servers.get? group = d.servers.get? group ∧
      (applyOpened d g record opened).1.forks.verdict group = d.forks.verdict group := by
  cases opened with
  | message name => exact ⟨Dict.get?_set_of_ne _ _ h, rfl⟩
  | other => exact ⟨rfl, rfl⟩
  | membershipChange members epoch =>
    rw [applyOpened]
    split
    · exact ⟨Dict.get?_set_of_ne _ _ h, rfl⟩
    · refine ⟨?_, verdict_step_of_ne d.forks (show (Event.clear g).group ≠ group from h)⟩
      refine (Dict.get?_delete _ _ _).trans (if_neg ?_)
      rwa [beq_iff_eq]

theorem noted_of_ne (d : Device) (h : msg.group ≠ group) (record : Circle) :
    (d.noted msg record).servers.get? group = d.servers.get? group ∧
      (d.noted msg record).forks.verdict group = d.forks.verdict group := by
  refine ⟨Dict.get?_set_of_ne _ _ h, ?_⟩
  unfold Device.noted
  cases msg.opened with
  | some opened =>
    exact verdict_step_of_ne d.forks
      (show (Event.succeeded msg.group msg.sender).group ≠ group from h)
  | none => exact verdict_step_of_ne d.forks (show (Event.failed msg.group _).group ≠ group from h)

/-- A message of another circle is nothing to a circle. -/
theorem receive_of_ne (d : Device) (h : msg.group ≠ group) :
    (receive d msg).servers.get? group = d.servers.get? group ∧
      (receive d msg).forks.verdict group = d.forks.verdict group := by
  unfold receive onGroupMessage
  cases d.servers.get? msg.group with
  | none => exact ⟨rfl, rfl⟩
  | some record =>
    obtain ⟨hservers, hforks⟩ := noted_of_ne d h record
    cases msg.opened with
    | some opened =>
      obtain ⟨hservers', hforks'⟩ := applyOpened_of_ne (d.noted msg record) h _ opened
      exact ⟨hservers'.trans hservers, hforks'.trans hforks⟩
    | none =>
      rw [servers_noteFork, forks_noteFork]
      refine ⟨?_, hforks⟩
      split
      · exact hservers
      · exact (Dict.get?_set_of_ne _ _ h).trans hservers

/-- A blob that opened leaves the flag as it was, and the circle in sync. -/
theorem agreesOn_applyOpened_iff (hrecord : d.servers.get? group = some record)
    (hsync : (d.forks.verdict group).outOfSync = false) (opened : Opened) :
    (applyOpened d group record opened).1.AgreesOn group ↔
      (record.outOfSync = true →
        ∃ members epoch, opened = .membershipChange members epoch ∧ d.me ∉ members) := by
  have hkept (record' : Circle) (servers : Dict Str Circle)
      (hget : servers.get? group = some record') (hflag : record'.outOfSync = record.outOfSync) :
      ({ d with servers := servers } : Device).AgreesOn group ↔ record.outOfSync = false := by
    rw [Device.agreesOn_set hget, hflag]
    exact Eq.congr_right hsync
  cases opened with
  | message name =>
    refine (hkept { record with name := name } _ (Dict.get?_set_self _ _ _) rfl).trans ?_
    simp
  | other =>
    refine (hkept record _ hrecord rfl).trans ?_
    simp
  | membershipChange members epoch =>
    rw [applyOpened]
    split
    · rename_i hme
      refine (hkept { record with epoch := epoch } _ (Dict.get?_set_self _ _ _) rfl).trans ?_
      simp [List.contains_iff_mem.mp hme]
    · rename_i hme
      have hnot : d.me ∉ members := fun h => hme (List.contains_iff_mem.mpr h)
      refine iff_of_true ?_ fun _ => ⟨members, epoch, rfl, hnot⟩
      intro found hfound
      rw [forgetServerLocal, Dict.get?_delete, if_pos (beq_self_eq_true group)] at hfound
      cases hfound

/-- The flag follows the verdict through a message, unless it opens where the circle is out of
sync. -/
theorem agreesOn_receive_iff (hd : d.AgreesOn msg.group) :
    (receive d msg).AgreesOn msg.group ↔ ¬ msg.Reopens d := by
  unfold receive onGroupMessage Message.Reopens
  rw [Dict.has_eq_isSome]
  cases hrecord : d.servers.get? msg.group with
  | none => simpa using hd
  | some record =>
    have hflag := (Device.agreesOn_set hrecord).mp hd
    have hget : (d.noted msg record).servers.get? msg.group = some (record.advance msg.seq) :=
      Dict.get?_set_self _ _ _
    cases hopened : msg.opened with
    | some opened =>
      have hsync : ((d.noted msg record).forks.verdict msg.group).outOfSync = false := by
        unfold Device.noted
        rw [hopened]
        exact outOfSync_succeeded d.forks msg.group msg.sender
      refine (agreesOn_applyOpened_iff hget hsync opened).trans ?_
      rw [← hflag]
      constructor
      · rintro h ⟨-, hout, found, hfound, hmem⟩
        obtain rfl := Option.some.inj hfound
        obtain ⟨members, epoch, hchange, hme⟩ := h hout
        exact hme (hmem members epoch hchange)
      · intro h hout
        by_contra hno
        refine h ⟨rfl, hout, opened, rfl, fun members epoch hchange => ?_⟩
        by_contra hme
        exact hno ⟨members, epoch, hchange, hme⟩
    | none =>
      refine iff_of_true (agreesOn_noteFork hget fun h => ?_) (by simp)
      have hstranded := ((Watch.outOfSync_iff d.forks msg.group).mp (hflag ▸ h)).1
      unfold Device.noted
      rw [hopened]
      exact fun hnil => hstranded (List.subset_nil.mp (hnil ▸ stranded_subset_failed d.forks _ _))

/-! ### Runs -/

/-- At boot no circle is flagged, and the watch knows nothing. -/
theorem agrees_boot (hforks : ∃ threshold, d.forks = .new threshold)
    (hflags : ∀ group record, d.servers.get? group = some record → record.outOfSync = false) :
    d.Agrees := by
  obtain ⟨threshold, hforks⟩ := hforks
  intro group record hrecord
  rw [hflags group record hrecord, hforks]
  rfl

theorem agrees_receive_iff (hd : d.Agrees) :
    (receive d msg).Agrees ↔ ¬ msg.Reopens d := by
  refine ⟨fun h => (agreesOn_receive_iff (hd msg.group)).mp (h msg.group), fun h group => ?_⟩
  by_cases hgroup : msg.group = group
  · subst hgroup
    exact (agreesOn_receive_iff (hd msg.group)).mpr h
  · obtain ⟨hservers, hforks⟩ := receive_of_ne d hgroup
    unfold Device.AgreesOn
    rw [hservers, hforks]
    exact hd group

/-- The flag follows the verdict through every message of a run just if none of them opens in a
circle that is out of sync. -/
theorem flag_follows_iff {d : Device} (hd : d.Agrees) (msgs : List Message) :
    Along receive (fun d msg => (receive d msg).Agrees) d msgs ↔
      Along receive (fun d msg => ¬ msg.Reopens d) d msgs := by
  induction msgs generalizing d with
  | nil => exact Iff.rfl
  | cons msg msgs ih =>
    constructor
    · rintro ⟨h, hrest⟩
      exact ⟨(agrees_receive_iff hd).mp h, (ih h).mp hrest⟩
    · rintro ⟨h, hrest⟩
      have hagrees := (agrees_receive_iff hd).mpr h
      exact ⟨hagrees, (ih hagrees).mpr hrest⟩

/-- A device of alice in the circle `g1`. -/
def aliceDevice : Device where
  me := lit "alice"
  servers := Dict.ofList [(lit "g1", ⟨some (lit "team"), .null, false, 0, false⟩)]
  catchUpTo := .empty
  forks := .new forkThreshold
  forkWarned := []

/-- A message of bob, who is at an epoch that alice has reached. -/
def fromBob (seq : ℕ) (opened : Option Opened) : Message :=
  ⟨lit "g1", lit "bob", .null, seq, opened⟩

/-- Bob's first message opens and the next two do not, which is too few for a verdict. -/
theorem flag_follows_bob :
    Along receive (fun d msg => (receive d msg).Agrees) aliceDevice
      [fromBob 1 (some .other), fromBob 2 none, fromBob 3 none] := by
  have hboot : aliceDevice.Agrees := by
    refine agrees_boot ⟨forkThreshold, rfl⟩ fun group record hrecord => ?_
    have hmem := Dict.mem_entries_iff.mpr hrecord
    obtain hentry := List.mem_singleton.mp hmem
    cases hentry
    rfl
  refine (flag_follows_iff hboot _).mpr ⟨?_, ?_, ?_, trivial⟩
  · rintro ⟨-, hout, -⟩
    exact absurd hout (by decide +kernel)
  · rintro ⟨-, -, opened, hopened, -⟩
    cases hopened
  · rintro ⟨-, -, opened, hopened, -⟩
    cases hopened

/-- After five messages of bob failed alice's circle is out of sync, and flagged.  Then a message of
bob opens: the verdict is taken back, and the flag stays. -/
theorem flag_stays_after_bob_opens :
    let failed := [fromBob 1 none, fromBob 2 none, fromBob 3 none, fromBob 4 none, fromBob 5 none]
    let d := failed.foldl receive aliceDevice
    let d' := receive d (fromBob 6 (some (.message (some (lit "team")))))
    (d.forks.verdict (lit "g1")).outOfSync = true ∧
    ((d.servers.get? (lit "g1")).map Circle.outOfSync) = some true ∧
    (d'.forks.verdict (lit "g1")).outOfSync = false ∧
    ((d'.servers.get? (lit "g1")).map Circle.outOfSync) = some true := by
  decide +kernel

end Quorum.Fork
