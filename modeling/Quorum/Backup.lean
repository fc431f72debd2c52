import Quorum.Order.Along

/-!
# When the circles are parked

Every change of a circle asks for the account's circles to be parked (`scheduleBackup`).  A change
of their shape is parked at once and any other a little later; one upload runs at a time, and what
changed meanwhile is parked after it (`flushBackup`).

An upload that declines to write leaves the shape of the circles as it is, and not the one that was
parked, so the next is due at once: the client spins until the relay is back.  A call that comes
later than the time a change may wait starts the timer for now, and not for then.  In every other
run the scheduler neither stalls nor overlaps nor spins (`scheduler_kept`).

Times are milliseconds.  What the circles look like (`circleShape`) is compared, and nothing else.
-/

namespace Quorum.Backup

/-! ### The scheduler -/

def BACKUP_DEBOUNCE : ℕ := 3000

def BACKUP_MAX_WAIT : ℕ := 8000

/-- What the controller keeps of its backups, the time its timer is set for, what the upload in
flight has sealed, and the shape of the circles. -/
structure Scheduler (Shape : Type) where
  backupDirty : Bool
  backupInFlight : Bool
  backupRetry : Bool
  backupPendingSince : Option ℕ
  parkedShape : Option Shape
  backupTimer : Option ℕ
  sealedShape : Shape
  circleShape : Shape

inductive Outcome
  | written
  /-- `uploadBackup` returns false. -/
  | declined
  /-- `uploadBackup` throws. -/
  | failed
deriving DecidableEq

section

variable {Shape : Type} [DecidableEq Shape]

/-- How long a change waits that is asked to be parked, one having waited `since` then. -/
def wait (s : Scheduler Shape) (since now : ℕ) : ℕ :=
  if some s.circleShape ≠ s.parkedShape ∧ s.backupRetry = false then 0
  else min BACKUP_DEBOUNCE (since + BACKUP_MAX_WAIT - now)

/-- `scheduleBackup()`. -/
def scheduleBackup (s : Scheduler Shape) (now : ℕ) : Scheduler Shape :=
  let s := { s with backupDirty := true }
  if s.backupInFlight then s
  else
    let since := s.backupPendingSince.getD now
    { s with backupPendingSince := some since, backupTimer := some (now + wait s since now) }

/-- `flushBackup()`, up to the upload. -/
def flushBackup (s : Scheduler Shape) : Scheduler Shape :=
  { s with
    backupTimer := none
    backupPendingSince := none
    backupDirty := false
    backupInFlight := true
    sealedShape := s.circleShape }

/-- What `flushBackup()` makes of the outcome. -/
def settle (s : Scheduler Shape) : Outcome → Scheduler Shape
  | .written => { s with parkedShape := some s.sealedShape, backupRetry := false }
  | .declined => { s with backupDirty := true, backupRetry := false }
  | .failed => { s with backupDirty := true, backupRetry := true }

/-- `flushBackup()`, after the upload. -/
def flushed (s : Scheduler Shape) (outcome : Outcome) (now : ℕ) : Scheduler Shape :=
  let s := { settle s outcome with backupInFlight := false }
  if s.backupDirty then scheduleBackup s now else s

/-! ### Runs -/

inductive Event (Shape : Type)
  /-- The circles change their shape. -/
  | reshape (shape : Shape)
  /-- Something changed: `scheduleBackup` is called. -/
  | schedule (now : ℕ)
  /-- The timer fires. -/
  | fire (now : ℕ)
  /-- The upload ends. -/
  | finish (outcome : Outcome) (now : ℕ)

/-- The timer is set, for a time that has come. -/
def Due (s : Scheduler Shape) (now : ℕ) : Prop := ∃ due ∈ s.backupTimer, due ≤ now

instance Due.decidable (s : Scheduler Shape) (now : ℕ) : Decidable (Due s now) :=
  match h : s.backupTimer with
  | none => .isFalse (by simp [Due, h])
  | some due => decidable_of_iff (due ≤ now) (by simp [Due, h])

/-- What an event does; a timer that is not due does not fire, and only an upload that runs ends. -/
def step (s : Scheduler Shape) : Event Shape → Scheduler Shape
  | .reshape shape => { s with circleShape := shape }
  | .schedule now => scheduleBackup s now
  | .fire now => if Due s now then flushBackup s else s
  | .finish outcome now => if s.backupInFlight then flushed s outcome now else s

structure Log where
  /-- The last time the clock was read. -/
  clock : ℕ
  /-- How many uploads run. -/
  running : ℕ
  /-- When the last upload ended. -/
  ended : ℕ
  /-- When the first change came that no upload has covered, apart from those that came while one
  runs. -/
  uncovered : Option ℕ
  /-- When the first change came while an upload runs. -/
  landed : Option ℕ
  /-- The last upload has ended and wrote nothing. -/
  wroteNothing : Bool
  /-- The circles have changed their shape since the last upload started. -/
  reshaped : Bool

def note (s : Scheduler Shape) (log : Log) : Event Shape → Log
  | .reshape shape => { log with reshaped := log.reshaped || shape ≠ s.circleShape }
  | .schedule now =>
    if s.backupInFlight then { log with clock := now, landed := log.landed.or (some now) }
    else { log with clock := now, uncovered := log.uncovered.or (some now) }
  | .fire now =>
    if Due s now then
      { log with clock := now, running := log.running + 1, wroteNothing := false, reshaped := false }
    else { log with clock := now }
  | .finish outcome now =>
    if s.backupInFlight then
      { log with
        clock := now
        running := log.running - 1
        ended := now
        uncovered := if outcome = .written then log.landed else log.uncovered.or log.landed
        landed := none
        wroteNothing := outcome ≠ .written }
    else { log with clock := now }

def started (shape : Shape) : Scheduler Shape :=
  ⟨false, false, false, none, none, none, shape, shape⟩

def noLog : Log := ⟨0, 0, 0, none, none, false, false⟩

def run (shape : Shape) (events : List (Event Shape)) : Scheduler Shape × Log :=
  events.foldl (noting step note) (started shape, noLog)

/-! ### What a run keeps -/

/-- The scheduler does not overlap, stall or spin: at most one upload runs; if none does and there
is a change that none has covered, the timer is set for a time not too late; and if the last upload
wrote nothing, and the circles have the shape they had, it is not set for the time it ended. -/
structure Fair (s : Scheduler Shape) (log : Log) : Prop where
  single : log.running ≤ 1
  armed : s.backupInFlight = false → ∀ t ∈ log.uncovered,
    ∃ due ∈ s.backupTimer, due ≤ max t log.ended + BACKUP_MAX_WAIT
  patient : log.wroteNothing = true → log.reshaped = false → ∀ due ∈ s.backupTimer, log.ended < due

/-- The clock does not go back; nobody asks for a backup once a change has waited too long; and an
upload declines to write only if the shape is the one parked, or was changed meanwhile. -/
def Allowed (p : Scheduler Shape × Log) : Event Shape → Prop
  | .reshape _ => True
  | .schedule now =>
    p.2.clock ≤ now ∧ ∀ since ∈ p.1.backupPendingSince, now ≤ since + BACKUP_MAX_WAIT
  | .fire now => p.2.clock ≤ now
  | .finish outcome now =>
    p.2.clock ≤ now ∧
      (outcome = .declined → some p.1.circleShape = p.1.parkedShape ∨ p.2.reshaped = true)

instance Allowed.decidable (p : Scheduler Shape × Log) : (e : Event Shape) → Decidable (Allowed p e)
  | .reshape _ => .isTrue trivial
  | .schedule now => inferInstanceAs (Decidable (p.2.clock ≤ now ∧ _))
  | .fire now => inferInstanceAs (Decidable (p.2.clock ≤ now))
  | .finish outcome now => inferInstanceAs (Decidable (p.2.clock ≤ now ∧ (outcome = _ → _)))

/-- No upload runs and no change waits. -/
structure Idle (s : Scheduler Shape) (log : Log) : Prop where
  timer : s.backupTimer = none
  pending : s.backupPendingSince = none
  uncovered : log.uncovered = none
  wrote : log.wroteNothing = false

/-- No upload runs and the changes since `t` wait. -/
structure Waiting (s : Scheduler Shape) (log : Log) (t due since : ℕ) : Prop where
  uncovered : log.uncovered = some t
  timer : s.backupTimer = some due
  pending : s.backupPendingSince = some since
  after : log.ended ≤ since
  soon : since ≤ max t log.ended
  inTime : due ≤ since + BACKUP_MAX_WAIT
  patient : log.wroteNothing = true → log.reshaped = false →
    (s.backupRetry = true ∨ some s.circleShape = s.parkedShape) ∧ log.ended < due

structure Uploading (s : Scheduler Shape) (log : Log) : Prop where
  timer : s.backupTimer = none
  pending : s.backupPendingSince = none
  uncovered : log.uncovered.isSome = true
  dirty : s.backupDirty = log.landed.isSome

structure Kept (s : Scheduler Shape) (log : Log) : Prop where
  running : log.running = if s.backupInFlight then 1 else 0
  ended : log.ended ≤ log.clock
  uploading : s.backupInFlight = true → Uploading s log
  landed : s.backupInFlight = false → log.landed = none
  resting : s.backupInFlight = false → Idle s log ∨ ∃ t due since, Waiting s log t due since

omit [DecidableEq Shape] in
theorem Kept.of_uploading {s : Scheduler Shape} {log : Log} (hflight : s.backupInFlight = true)
    (hrunning : log.running = 1) (hended : log.ended ≤ log.clock) (h : Uploading s log) :
    Kept s log := by
  refine ⟨by rw [hrunning, if_pos hflight], hended, fun _ => h, ?_, ?_⟩ <;>
  · intro hrest
    rw [hflight] at hrest
    cases hrest

omit [DecidableEq Shape] in
theorem Kept.of_resting {s : Scheduler Shape} {log : Log} (hflight : s.backupInFlight = false)
    (hrunning : log.running = 0) (hended : log.ended ≤ log.clock) (hlanded : log.landed = none)
    (h : Idle s log ∨ ∃ t due since, Waiting s log t due since) : Kept s log := by
  refine ⟨by rw [hrunning, hflight]; rfl, hended, ?_, fun _ => hlanded, fun _ => h⟩
  intro hupload
  rw [hflight] at hupload
  cases hupload

omit [DecidableEq Shape] in
theorem Kept.running_uploading {s : Scheduler Shape} {log : Log} (h : Kept s log)
    (hflight : s.backupInFlight = true) : log.running = 1 :=
  h.running.trans (if_pos hflight)

omit [DecidableEq Shape] in
theorem Kept.running_resting {s : Scheduler Shape} {log : Log} (h : Kept s log)
    (hflight : s.backupInFlight = false) : log.running = 0 :=
  h.running.trans (by rw [hflight]; rfl)

omit [DecidableEq Shape] in
theorem Kept.fair {s : Scheduler Shape} {log : Log} (h : Kept s log) : Fair s log := by
  refine ⟨?_, ?_, ?_⟩
  · rw [h.running]
    split <;> omega
  · intro hrest t ht
    obtain hidle | ⟨t', due, since, hwaiting⟩ := h.resting hrest
    · rw [hidle.uncovered] at ht
      cases ht
    · rw [hwaiting.uncovered, Option.mem_some_iff] at ht
      refine ⟨due, hwaiting.timer, ?_⟩
      have := hwaiting.inTime
      have := hwaiting.soon
      omega
  · intro hnothing hshape due hdue
    cases hflight : s.backupInFlight with
    | true =>
      rw [(h.uploading hflight).timer] at hdue
      cases hdue
    | false =>
      obtain hidle | ⟨t', due', since, hwaiting⟩ := h.resting hflight
      · rw [hidle.timer] at hdue
        cases hdue
      · rw [hwaiting.timer, Option.mem_some_iff] at hdue
        rw [← hdue]
        exact (hwaiting.patient hnothing hshape).2

/-! ### Steps -/

/-- `scheduleBackup()` while no upload runs: the change waits since then, or since an earlier one
does. -/
theorem scheduleBackup_resting {s : Scheduler Shape} (h : s.backupInFlight = false) (now : ℕ) :
    scheduleBackup s now =
      { s with
        backupDirty := true
        backupPendingSince := some (s.backupPendingSince.getD now)
        backupTimer := some (now + wait s (s.backupPendingSince.getD now) now) } := by
  unfold scheduleBackup
  rw [if_neg (by rw [h]; exact Bool.false_ne_true)]
  rfl

theorem add_wait_le (s : Scheduler Shape) {since now : ℕ} (h : now ≤ since + BACKUP_MAX_WAIT) :
    now + wait s since now ≤ since + BACKUP_MAX_WAIT := by
  unfold wait
  split <;> omega

/-- A change that is not parked at once is due after the upload that wrote nothing. -/
theorem lt_add_wait {s : Scheduler Shape} {since now ended : ℕ}
    (hshape : s.backupRetry = true ∨ some s.circleShape = s.parkedShape) (hnow : ended ≤ now)
    (hsince : ended ≤ since) : ended < now + wait s since now := by
  unfold wait
  rw [if_neg (by rintro ⟨hne, hretry⟩; rcases hshape with h | h <;> simp_all)]
  unfold BACKUP_DEBOUNCE BACKUP_MAX_WAIT
  omega

/-- **A change that is asked to be parked waits**, with the ones that wait already. -/
theorem waiting_scheduleBackup {s : Scheduler Shape} {log : Log} {now t : ℕ}
    (hrest : s.backupInFlight = false) (hnow : log.ended ≤ now) (huncovered : log.uncovered = some t)
    (hafter : log.ended ≤ s.backupPendingSince.getD now)
    (hsoon : s.backupPendingSince.getD now ≤ max t log.ended)
    (htime : now ≤ s.backupPendingSince.getD now + BACKUP_MAX_WAIT)
    (hpatient : log.wroteNothing = true → log.reshaped = false →
      s.backupRetry = true ∨ some s.circleShape = s.parkedShape) :
    ∃ due since, Waiting (scheduleBackup s now) log t due since := by
  rw [scheduleBackup_resting hrest]
  exact ⟨_, _, huncovered, rfl, rfl, hafter, hsoon, add_wait_le s htime, fun hnothing hshape =>
    ⟨hpatient hnothing hshape, lt_add_wait (hpatient hnothing hshape) hnow hafter⟩⟩

section

variable {s : Scheduler Shape} {log : Log}

theorem inFlight_scheduleBackup (s : Scheduler Shape) (now : ℕ) :
    (scheduleBackup s now).backupInFlight = s.backupInFlight := by
  unfold scheduleBackup
  dsimp only
  split <;> rfl

theorem kept_reshape (h : Kept s log) (shape : Shape) :
    Kept (step s (.reshape shape)) (note s log (.reshape shape)) := by
  cases hflight : s.backupInFlight with
  | true =>
    obtain ⟨htimer, hpending, huncovered, hdirty⟩ := h.uploading hflight
    exact .of_uploading hflight (h.running_uploading hflight) h.ended
      ⟨htimer, hpending, huncovered, hdirty⟩
  | false =>
    refine .of_resting hflight (h.running_resting hflight) h.ended (h.landed hflight) ?_
    obtain ⟨htimer, hpending, huncovered, hwrote⟩ | ⟨t, due, since, hwaiting⟩ := h.resting hflight
    · exact .inl ⟨htimer, hpending, huncovered, hwrote⟩
    · refine .inr ⟨t, due, since, hwaiting.uncovered, hwaiting.timer, hwaiting.pending,
        hwaiting.after, hwaiting.soon, hwaiting.inTime, ?_⟩
      intro hnothing hreshaped
      have hsame : log.reshaped = false ∧ shape = s.circleShape := by
        simpa [note] using hreshaped
      rw [hsame.2]
      exact hwaiting.patient hnothing hsame.1

theorem kept_schedule (h : Kept s log) {now : ℕ} (hallowed : Allowed (s, log) (.schedule now)) :
    Kept (step s (.schedule now)) (note s log (.schedule now)) := by
  obtain ⟨hclock, htime⟩ := hallowed
  have hended : log.ended ≤ now := h.ended.trans hclock
  cases hflight : s.backupInFlight with
  | true =>
    have hupload := h.uploading hflight
    have hstep : step s (.schedule now) = { s with backupDirty := true } := by
      simp [step, scheduleBackup, hflight]
    have hnote : note s log (.schedule now) =
        { log with clock := now, landed := log.landed.or (some now) } := by
      simp [note, hflight]
    rw [hstep, hnote]
    exact .of_uploading hflight (h.running_uploading hflight) hended
      ⟨hupload.timer, hupload.pending, hupload.uncovered, by simp⟩
  | false =>
    have hnote : note s log (.schedule now) =
        { log with clock := now, uncovered := log.uncovered.or (some now) } := by
      simp [note, hflight]
    rw [hnote]
    refine .of_resting ((inFlight_scheduleBackup s now).trans hflight) (h.running_resting hflight)
      hended (h.landed hflight) (.inr ?_)
    obtain hidle | ⟨t, due, since, hwaiting⟩ := h.resting hflight
    · -- the first change since the last upload
      refine ⟨now, waiting_scheduleBackup hflight hended ?_ ?_ ?_ ?_ ?_⟩
      · simp [hidle.uncovered]
      · simpa [hidle.pending] using hended
      · simp [hidle.pending]
      · simp [hidle.pending]
      · simp [hidle.wrote]
    · refine ⟨t, waiting_scheduleBackup hflight hended ?_ ?_ ?_ ?_ ?_⟩
      · simp [hwaiting.uncovered]
      · simpa [hwaiting.pending] using hwaiting.after
      · simpa [hwaiting.pending] using hwaiting.soon
      · simpa [hwaiting.pending] using htime since hwaiting.pending
      · exact fun hnothing hreshaped => (hwaiting.patient hnothing hreshaped).1

omit [DecidableEq Shape] in
/-- The clock is read and nothing is done. -/
theorem Kept.tick (h : Kept s log) {now : ℕ} (hended : log.ended ≤ now) :
    Kept s { log with clock := now } := by
  refine ⟨h.running, hended, fun hflight => { h.uploading hflight with }, h.landed, ?_⟩
  intro hflight
  obtain hidle | ⟨t, due, since, hwaiting⟩ := h.resting hflight
  · exact .inl { hidle with }
  · exact .inr ⟨t, due, since, { hwaiting with }⟩

theorem kept_fire (h : Kept s log) {now : ℕ} (hclock : log.clock ≤ now) :
    Kept (step s (.fire now)) (note s log (.fire now)) := by
  have hended : log.ended ≤ now := h.ended.trans hclock
  by_cases hdue : Due s now
  · -- a timer is set, so no upload runs
    have hflight : s.backupInFlight = false := by
      obtain ⟨due, htimer, -⟩ := hdue
      by_contra hflight
      rw [(h.uploading (by simpa using hflight)).timer] at htimer
      cases htimer
    have hstep : step s (.fire now) = flushBackup s := if_pos hdue
    have hnote : note s log (.fire now) =
        { log with clock := now, running := log.running + 1, wroteNothing := false, reshaped := false } :=
      if_pos hdue
    rw [hstep, hnote]
    refine .of_uploading rfl ?_ hended ⟨rfl, rfl, ?_, ?_⟩
    · simp [h.running_resting hflight]
    · obtain ⟨due, htimer, -⟩ := hdue
      obtain hidle | ⟨t, due', since, hwaiting⟩ := h.resting hflight
      · rw [hidle.timer] at htimer
        cases htimer
      · simp [hwaiting.uncovered]
    · simp [flushBackup, h.landed hflight]
  · have hstep : step s (.fire now) = s := if_neg hdue
    have hnote : note s log (.fire now) = { log with clock := now } := if_neg hdue
    rw [hstep, hnote]
    exact h.tick hended

/-- An upload has ended and there is something to park. -/
theorem waiting_flushed {t now : ℕ} (hended : log.ended = now)
    (huncovered : log.uncovered = some t) (hrest : s.backupInFlight = false)
    (hpending : s.backupPendingSince = none)
    (hpatient : log.wroteNothing = true → log.reshaped = false →
      s.backupRetry = true ∨ some s.circleShape = s.parkedShape) :
    ∃ t due since, Waiting (scheduleBackup s now) log t due since := by
  refine ⟨t, waiting_scheduleBackup hrest hended.le huncovered ?_ ?_ ?_ hpatient⟩ <;>
    simp [hpending, hended]

theorem kept_finish (h : Kept s log) {outcome : Outcome} {now : ℕ}
    (hallowed : Allowed (s, log) (.finish outcome now)) :
    Kept (step s (.finish outcome now)) (note s log (.finish outcome now)) := by
  obtain ⟨hclock, hdeclined⟩ := hallowed
  by_cases hflight : s.backupInFlight = true
  · have hupload := h.uploading hflight
    have hrunning := h.running_uploading hflight
    have hstep : step s (.finish outcome now) = flushed s outcome now := if_pos hflight
    have hnote : note s log (.finish outcome now) = { log with
        clock := now
        running := log.running - 1
        ended := now
        uncovered := if outcome = .written then log.landed else log.uncovered.or log.landed
        landed := none
        wroteNothing := outcome ≠ .written } := if_pos hflight
    -- an upload that wrote nothing leaves the oldest change uncovered
    obtain ⟨t, ht⟩ := Option.isSome_iff_exists.mp hupload.uncovered
    have hcovers (outcome : Outcome) (hne : outcome ≠ .written) :
        (if outcome = .written then log.landed else log.uncovered.or log.landed) = some t := by
      rw [if_neg hne, ht]
      rfl
    rw [hstep, hnote]
    unfold flushed
    cases outcome with
    | written =>
      dsimp only [settle]
      cases hlanded : log.landed with
      | none =>
        have hdirty : s.backupDirty = false := by rw [hupload.dirty, hlanded]; rfl
        rw [if_neg (by rw [hdirty]; exact Bool.false_ne_true)]
        exact .of_resting rfl (by simp [hrunning]) le_rfl rfl
          (.inl ⟨hupload.timer, hupload.pending, by simp, by simp⟩)
      | some t' =>
        -- a change landed meanwhile, and the timer is set for it
        have hdirty : s.backupDirty = true := by rw [hupload.dirty, hlanded]; rfl
        rw [if_pos hdirty]
        refine .of_resting (inFlight_scheduleBackup _ _) (by simp [hrunning]) le_rfl rfl (.inr ?_)
        refine waiting_flushed rfl rfl rfl hupload.pending ?_
        simp
    | declined =>
      dsimp only [settle]
      rw [if_pos rfl]
      refine .of_resting (inFlight_scheduleBackup _ _) (by simp [hrunning]) le_rfl rfl (.inr ?_)
      refine waiting_flushed rfl (hcovers .declined (by decide)) rfl hupload.pending ?_
      intro _ hreshaped
      obtain hshape | hshape := hdeclined rfl
      · exact .inr hshape
      · exact absurd (hshape.symm.trans hreshaped) (by simp)
    | failed =>
      dsimp only [settle]
      rw [if_pos rfl]
      refine .of_resting (inFlight_scheduleBackup _ _) (by simp [hrunning]) le_rfl rfl (.inr ?_)
      exact waiting_flushed rfl (hcovers .failed (by decide)) rfl hupload.pending
        fun _ _ => .inl rfl
  · have hstep : step s (.finish outcome now) = s := if_neg hflight
    have hnote : note s log (.finish outcome now) = { log with clock := now } := if_neg hflight
    rw [hstep, hnote]
    exact h.tick (h.ended.trans hclock)

theorem kept_step {p : Scheduler Shape × Log} {e : Event Shape} (h : Kept p.1 p.2)
    (hallowed : Allowed p e) : Kept (noting step note p e).1 (noting step note p e).2 := by
  cases e with
  | reshape shape => exact kept_reshape h shape
  | schedule now => exact kept_schedule h hallowed
  | fire now => exact kept_fire h hallowed
  | finish outcome now => exact kept_finish h hallowed

/-- **The scheduler neither overlaps, stalls nor spins**, if nobody asks for a backup once a change
has waited too long and no upload declines to park a new shape. -/
theorem scheduler_kept {shape : Shape} {events : List (Event Shape)}
    (h : Along (noting step note) Allowed (started shape, noLog) events) :
    Fair (run shape events).1 (run shape events).2 := by
  have hkept : Kept (run shape events).1 (run shape events).2 :=
    h.preserves (P := fun p => Kept p.1 p.2) (fun _ _ => kept_step)
      (.of_resting rfl rfl le_rfl rfl (.inl ⟨rfl, rfl, rfl, rfl⟩))
  exact hkept.fair

end

end

/-- A circle is joined; the first upload fails and the second is written. -/
def joined : List (Event ℕ) :=
  [.reshape 1, .schedule 10, .fire 10, .finish .failed 20, .fire 3020, .finish .written 3030]

theorem scheduler_kept_joined : Fair (run 0 joined).1 (run 0 joined).2 :=
  scheduler_kept (by decide)

/-- A change while there is no relay: the upload declines at once. -/
def declined : List (Event ℕ) := [.schedule 10, .fire 10, .finish .declined 10]

/-- The next upload is due at the time the last one ended, and starts then, for the same circles; and
a change that comes while the timer is late puts it off. -/
theorem declined_spins :
    (run 0 declined).1.backupTimer = some 10 ∧ (run 0 declined).2.ended = 10 ∧
      (run 0 declined).2.wroteNothing = true ∧ (run 0 declined).2.reshaped = false ∧
      (run 0 (declined ++ [.fire 10])).1.backupInFlight = true ∧
      (run 0 (declined ++ [.fire 10])).2.clock = 10 ∧
      (run 0 [.schedule 10, .schedule 20000]).2.uncovered = some 10 ∧
      (run 0 [.schedule 10, .schedule 20000]).1.backupTimer = some 20000 := by
  decide

end Quorum.Backup
