import Quorum.Js.Value

/-!
# Watching for forks

A blob that does not open is mostly expected.  What remains, a message of someone else at an epoch
this device has reached, is counted by circle and sender (`fork.js`): a sender who fails often
enough is stranded, and a device that every sender is stranded for is on a branch of its own.

The watch keeps tallies.  What they mean is said of the events that led to them: the count of a
sender is the number of suspect failures since the sender's last success or the last `clear`
(`count_run`), and those in `seen` are the senders heard since the last `clear` (`mem_seen_run`).
-/

namespace Quorum.Fork

open Js

/-! ### Failures -/

/-- Why a blob failed to open. -/
inductive Why
  | self | ahead | replay | restored | suspect
deriving DecidableEq, Repr

/-- What `classifyFailure` is told. -/
structure Info where
  sender : Str
  epoch : Value
  me : Str
  groupEpoch : Value
  restored : Bool
  replay : Bool

/-- A blob from an epoch that was not reached yet.  An epoch that is no finite number is no excuse.
-/
def isAhead : Value → Value → Bool
  | .num epoch, .num groupEpoch => epoch.isFinite && groupEpoch.isFinite && groupEpoch.lt epoch
  | _, _ => false

/-- `classifyFailure(info)`. -/
def classifyFailure (info : Info) : Why :=
  if info.restored then .restored
  else if info.replay then .replay
  else if info.sender = info.me then .self
  else if isAhead info.epoch info.groupEpoch then .ahead
  else .suspect

/-! ### The tally of one circle -/

theorem mem_insertNew_iff {l : List Str} {x y : Str} : y ∈ insertNew l x ↔ y ∈ l ∨ y = x := by
  have h : y ∈ [x].foldl insertNew l ↔ y ∈ l ∨ y ∈ [x] := mem_foldl_insertNew
  rwa [List.mem_singleton] at h

/-- `counts` and `seen`.  Only a sender who was seen is counted, and never at nothing. -/
structure Group where
  counts : Dict Str ℕ
  seen : List Str
  positive : ∀ sender n, counts.get? sender = some n → 0 < n
  judged : ∀ sender, counts.has sender = true → sender ∈ seen
  distinct : Distinct seen

namespace Group

def empty : Group where
  counts := .empty
  seen := []
  positive := by simp
  judged := by simp [Dict.has_eq_isSome]
  distinct := .nil

def succeed (s : Group) (sender : Str) : Group where
  counts := s.counts.delete sender
  seen := insertNew s.seen sender
  positive name n h := s.positive name n (Dict.get?_of_delete h)
  judged name h := by
    rw [Dict.has_eq_isSome, Dict.get?_delete] at h
    split at h
    · cases h
    · exact mem_insertNew_of_mem (s.judged name (by rwa [Dict.has_eq_isSome])) _
  distinct := distinct_insertNew s.distinct sender

/-- A blob of the sender failed to open without excuse. -/
def suspect (s : Group) (sender : Str) : Group where
  counts := s.counts.set sender ((s.counts.get? sender).getD 0 + 1)
  seen := insertNew s.seen sender
  positive name n h := by
    rcases Dict.get?_set_cases h with ⟨-, rfl⟩ | ⟨-, h⟩
    · exact Nat.succ_pos _
    · exact s.positive name n h
  judged name h := by
    rw [Dict.has_eq_isSome, Dict.get?_set] at h
    split at h
    · rename_i hname
      rw [← beq_iff_eq.mp hname]
      exact mem_insertNew_iff.mpr (.inr rfl)
    · exact mem_insertNew_of_mem (s.judged name (by rwa [Dict.has_eq_isSome])) _
  distinct := distinct_insertNew s.distinct sender

def count (s : Group) (sender : Str) : ℕ := (s.counts.get? sender).getD 0

theorem count_succeed (s : Group) (sender name : Str) :
    (s.succeed sender).count name = if sender = name then 0 else s.count name := by
  unfold count succeed
  rw [Dict.get?_delete]
  simp only [beq_iff_eq]
  split <;> rfl

theorem count_suspect (s : Group) (sender name : Str) :
    (s.suspect sender).count name = if sender = name then s.count name + 1 else s.count name := by
  unfold count suspect
  rw [Dict.get?_set]
  simp only [beq_iff_eq]
  split
  · rename_i h
    rw [h]
    rfl
  · rfl

theorem mem_seen_succeed (s : Group) (sender name : Str) :
    name ∈ (s.succeed sender).seen ↔ name ∈ s.seen ∨ name = sender :=
  mem_insertNew_iff

theorem mem_seen_suspect (s : Group) (sender name : Str) :
    name ∈ (s.suspect sender).seen ↔ name ∈ s.seen ∨ name = sender :=
  mem_insertNew_iff

theorem has_counts_iff (s : Group) (sender : Str) :
    s.counts.has sender = true ↔ 0 < s.count sender := by
  unfold count
  rw [Dict.has_eq_isSome]
  cases h : s.counts.get? sender with
  | none => simp
  | some n => simpa using s.positive sender n h

/-- The senders whose messages cannot be read, in the order of their names. -/
def stranded (threshold : ℕ) (s : Group) : List Str :=
  ((s.counts.entries.filter fun p => threshold ≤ p.2).map Prod.fst).insertionSort (· ≤ ·)

theorem mem_stranded {threshold : ℕ} {s : Group} {sender : Str} :
    sender ∈ s.stranded threshold ↔ 0 < s.count sender ∧ threshold ≤ s.count sender := by
  unfold stranded count
  rw [(List.perm_insertionSort _ _).mem_iff]
  simp only [List.mem_map, List.mem_filter, decide_eq_true_eq, Prod.exists, exists_and_right,
    exists_eq_right]
  constructor
  · rintro ⟨n, hmem, hle⟩
    have hget := Dict.mem_entries_iff.mp hmem
    rw [hget]
    exact ⟨s.positive sender n hget, hle⟩
  · rintro ⟨hpos, hle⟩
    cases hget : s.counts.get? sender with
    | none =>
      rw [hget] at hpos
      exact absurd hpos (Nat.lt_irrefl 0)
    | some n =>
      rw [hget] at hle
      exact ⟨n, Dict.mem_entries_iff.mpr hget, hle⟩

theorem nodup_stranded (threshold : ℕ) (s : Group) : (s.stranded threshold).Nodup := by
  unfold stranded
  rw [(List.perm_insertionSort _ _).nodup_iff]
  exact s.counts.nodup_keys.sublist (List.filter_sublist.map Prod.fst)

theorem stranded_subset_seen (threshold : ℕ) (s : Group) : s.stranded threshold ⊆ s.seen :=
  fun sender h => s.judged sender ((s.has_counts_iff sender).mpr (mem_stranded.mp h).1)

/-- As many are stranded as were seen just if everyone who was seen is stranded. -/
theorem length_stranded_eq_iff {threshold : ℕ} {s : Group} :
    (s.stranded threshold).length = s.seen.length ↔ s.seen ⊆ s.stranded threshold := by
  have hsub := (nodup_stranded threshold s).subperm (stranded_subset_seen threshold s)
  refine ⟨fun hlength => (hsub.perm_of_length_le hlength.ge).symm.subset, fun hseen => ?_⟩
  have hsub' := (distinct_iff_nodup.mp s.distinct).subperm hseen
  exact hsub.length_le.antisymm hsub'.length_le

end Group

/-! ### The watch -/

/-- `ForkWatch`. -/
structure Watch where
  threshold : ℕ
  groups : Dict Str Group

/-- `FORK_THRESHOLD`. -/
def forkThreshold : ℕ := 5

/-- `verdict(group)`. -/
structure Verdict where
  stranded : List Str
  outOfSync : Bool
deriving DecidableEq, Repr

namespace Watch

/-- `new ForkWatch({ threshold })`. -/
def new (threshold : ℕ) : Watch := ⟨threshold, .empty⟩

/-- `#state(group)`, without the entry that it adds. -/
def state (w : Watch) (group : Str) : Group := (w.groups.get? group).getD .empty

/-- `succeeded(group, sender)`. -/
def succeeded (w : Watch) (group sender : Str) : Watch :=
  { w with groups := w.groups.set group ((w.state group).succeed sender) }

/-- `failed(group, info)`, and what it returns. -/
def failed (w : Watch) (group : Str) (info : Info) : Watch × Why :=
  match classifyFailure info with
  | .suspect =>
    ({ w with groups := w.groups.set group ((w.state group).suspect info.sender) }, .suspect)
  | why => (w, why)

/-- `verdict(group)`.  A circle without a tally has nobody stranded. -/
def verdict (w : Watch) (group : Str) : Verdict :=
  let s := w.state group
  let stranded := s.stranded w.threshold
  ⟨stranded, 0 < stranded.length && stranded.length == s.seen.length⟩

/-- `clear(group)`. -/
def clear (w : Watch) (group : Str) : Watch := { w with groups := w.groups.delete group }

/-- The circle is out of sync just if someone is stranded, and everyone who was seen is. -/
theorem outOfSync_iff (w : Watch) (group : Str) :
    (w.verdict group).outOfSync = true ↔ (w.verdict group).stranded ≠ [] ∧
      ∀ sender ∈ (w.state group).seen, sender ∈ (w.verdict group).stranded := by
  unfold verdict
  rw [Bool.and_eq_true, decide_eq_true_eq, beq_iff_eq, List.length_pos_iff,
    Group.length_stranded_eq_iff]
  rfl

end Watch

/-! ### Histories -/

inductive Event
  | succeeded (group sender : Str)
  | failed (group : Str) (info : Info)
  | clear (group : Str)

namespace Event

def group : Event → Str
  | succeeded group _ => group
  | failed group _ => group
  | clear group => group

/-- It is a suspect failure of the sender. -/
def suspects (group sender : Str) : Event → Bool
  | failed g info => g == group && info.sender == sender && classifyFailure info == .suspect
  | succeeded _ _ => false
  | clear _ => false

/-- It discards what is held against the sender. -/
def resets (group sender : Str) : Event → Bool
  | succeeded g s => g == group && s == sender
  | clear g => g == group
  | failed _ _ => false

/-- It lets the circle be forgotten. -/
def clears (group : Str) : Event → Bool
  | clear g => g == group
  | succeeded _ _ => false
  | failed _ _ => false

/-- It is a success or a suspect failure of the sender. -/
def hears (group sender : Str) (event : Event) : Bool :=
  event.suspects group sender || (event.resets group sender && !event.clears group)

end Event

def step (w : Watch) : Event → Watch
  | .succeeded group sender => w.succeeded group sender
  | .failed group info => (w.failed group info).1
  | .clear group => w.clear group

def run (threshold : ℕ) (events : List Event) : Watch := events.foldl step (.new threshold)

/-- The number of suspect failures since the sender's last success and the last `clear`. -/
def suspicions (events : List Event) (group sender : Str) : ℕ :=
  (events.rtakeWhile fun event => !event.resets group sender).countP (·.suspects group sender)

/-- The sender succeeded or failed suspectly since the last `clear`. -/
def heard (events : List Event) (group sender : Str) : Bool :=
  (events.rtakeWhile fun event => !event.clears group).any (·.hears group sender)

theorem suspicions_concat (events : List Event) (event : Event) (group sender : Str) :
    suspicions (events ++ [event]) group sender =
      if event.resets group sender then 0
      else suspicions events group sender + if event.suspects group sender then 1 else 0 := by
  unfold suspicions
  rw [List.rtakeWhile_concat]
  cases event.resets group sender with
  | true => rfl
  | false =>
    rw [Bool.not_false, if_pos rfl, List.countP_append, List.countP_singleton]
    rfl

theorem heard_concat (events : List Event) (event : Event) (group sender : Str) :
    heard (events ++ [event]) group sender =
      (!event.clears group && (heard events group sender || event.hears group sender)) := by
  unfold heard
  rw [List.rtakeWhile_concat]
  cases event.clears group with
  | true => rfl
  | false => simp

theorem run_concat (threshold : ℕ) (events : List Event) (event : Event) :
    run threshold (events ++ [event]) = step (run threshold events) event := by
  unfold run
  rw [List.foldl_append]
  rfl

/-- An expected failure changes nothing. -/
theorem failed_of_expected (w : Watch) (group : Str) {info : Info}
    (h : classifyFailure info ≠ .suspect) : w.failed group info = (w, classifyFailure info) := by
  unfold Watch.failed
  cases hwhy : classifyFailure info with
  | suspect => exact absurd hwhy h
  | self => rfl
  | ahead => rfl
  | replay => rfl
  | restored => rfl

theorem failed_of_suspect (w : Watch) (group : Str) {info : Info}
    (h : classifyFailure info = .suspect) : w.failed group info =
      ({ w with groups := w.groups.set group ((w.state group).suspect info.sender) },
        .suspect) := by
  unfold Watch.failed
  rw [h]

@[simp] theorem threshold_step (w : Watch) (event : Event) :
    (step w event).threshold = w.threshold := by
  cases event with
  | succeeded group sender => rfl
  | clear group => rfl
  | failed group info =>
    by_cases h : classifyFailure info = .suspect
    · rw [step, failed_of_suspect w group h]
    · rw [step, failed_of_expected w group h]

/-- What an event makes of the tally of a circle. -/
def Event.tally (group : Str) (s : Group) : Event → Group
  | .succeeded g sender => if g = group then s.succeed sender else s
  | .failed g info =>
    if g = group ∧ classifyFailure info = .suspect then s.suspect info.sender else s
  | .clear g => if g = group then .empty else s

theorem Event.tally_of_ne {group : Str} {event : Event} (h : event.group ≠ group) (s : Group) :
    event.tally group s = s := by
  cases event with
  | succeeded g sender => exact if_neg h
  | clear g => exact if_neg h
  | failed g info => exact if_neg fun hand => h hand.1

theorem state_set (w : Watch) (g : Str) (s : Group) (group : Str) :
    ({ w with groups := w.groups.set g s } : Watch).state group =
      if g = group then s else w.state group := by
  unfold Watch.state
  rw [Dict.get?_set]
  simp only [beq_iff_eq]
  split <;> rfl

/-- A step changes the tally of the circle it is about, and no other. -/
theorem state_step (w : Watch) (event : Event) (group : Str) :
    (step w event).state group = event.tally group (w.state group) := by
  cases event with
  | succeeded g sender =>
    refine (state_set w g _ group).trans ?_
    rw [Event.tally]
    by_cases hg : g = group
    · rw [if_pos hg, if_pos hg, hg]
    · rw [if_neg hg, if_neg hg]
  | clear g =>
    rw [Event.tally, step]
    unfold Watch.clear Watch.state
    rw [Dict.get?_delete]
    simp only [beq_iff_eq]
    split <;> rfl
  | failed g info =>
    rw [Event.tally, step]
    by_cases hwhy : classifyFailure info = .suspect
    · rw [failed_of_suspect w g hwhy, state_set]
      simp only [hwhy, and_true]
      by_cases hg : g = group
      · rw [if_pos hg, if_pos hg, hg]
      · rw [if_neg hg, if_neg hg]
    · rw [failed_of_expected w g hwhy, if_neg fun hand => hwhy hand.2]

theorem not_suspected {g group sender : Str} {info : Info}
    (h : ¬(g = group ∧ classifyFailure info = .suspect)) :
    (g == group && info.sender == sender && classifyFailure info == .suspect) = false := by
  simpa using fun hg _ hwhy => h ⟨hg, hwhy⟩

theorem count_tally (group : Str) (s : Group) (event : Event) (sender : Str) :
    (event.tally group s).count sender =
      if event.resets group sender then 0
      else s.count sender + if event.suspects group sender then 1 else 0 := by
  cases event with
  | succeeded g name =>
    rw [Event.tally, Event.resets, Event.suspects]
    by_cases hg : g = group
    · rw [if_pos hg, Group.count_succeed]
      simp [hg]
    · rw [if_neg hg]
      simp [hg]
  | clear g =>
    rw [Event.tally, Event.resets, Event.suspects]
    by_cases hg : g = group
    · simp [hg, Group.count, Group.empty]
    · simp [hg]
  | failed g info =>
    rw [Event.tally, Event.resets, Event.suspects]
    by_cases hand : g = group ∧ classifyFailure info = .suspect
    · rw [if_pos hand, Group.count_suspect]
      simp only [hand.1, hand.2, beq_self_eq_true, Bool.true_and, Bool.and_true, beq_iff_eq]
      split <;> rfl
    · rw [if_neg hand, not_suspected hand]
      rfl

theorem mem_seen_tally (group : Str) (s : Group) (event : Event) (sender : Str) :
    sender ∈ (event.tally group s).seen ↔
      event.clears group = false ∧ (sender ∈ s.seen ∨ event.hears group sender = true) := by
  cases event with
  | succeeded g name =>
    rw [Event.tally, Event.hears, Event.suspects, Event.resets, Event.clears]
    by_cases hg : g = group
    · rw [if_pos hg, Group.mem_seen_succeed]
      simp [hg, eq_comm (a := sender)]
    · rw [if_neg hg]
      simp [hg]
  | clear g =>
    rw [Event.tally, Event.hears, Event.suspects, Event.resets, Event.clears]
    by_cases hg : g = group
    · simp [hg, Group.empty]
    · simp [hg]
  | failed g info =>
    rw [Event.tally, Event.hears, Event.suspects, Event.resets, Event.clears]
    by_cases hand : g = group ∧ classifyFailure info = .suspect
    · rw [if_pos hand, Group.mem_seen_suspect]
      simp [hand.1, hand.2, eq_comm (a := sender)]
    · rw [if_neg hand, not_suspected hand]
      simp

/-- **The count of a sender is the number of unexplained failures.** -/
theorem count_run (threshold : ℕ) (events : List Event) (group sender : Str) :
    ((run threshold events).state group).count sender = suspicions events group sender := by
  induction events using List.reverseRecOn with
  | nil => rfl
  | append_singleton events event ih =>
    rw [run_concat, state_step, count_tally, suspicions_concat, ih]

/-- **Those in `seen` are the senders heard.** -/
theorem mem_seen_run (threshold : ℕ) (events : List Event) (group sender : Str) :
    sender ∈ ((run threshold events).state group).seen ↔ heard events group sender = true := by
  induction events using List.reverseRecOn with
  | nil => simp [run, Watch.new, Watch.state, Group.empty, heard]
  | append_singleton events event ih =>
    rw [run_concat, state_step, mem_seen_tally, heard_concat, ih]
    simp

@[simp] theorem threshold_run (threshold : ℕ) (events : List Event) :
    (run threshold events).threshold = threshold := by
  induction events using List.reverseRecOn with
  | nil => rfl
  | append_singleton events event ih => rw [run_concat, threshold_step, ih]

/-- A circle's tally depends on the events of that circle alone. -/
theorem state_run_filter (threshold : ℕ) (events : List Event) (group : Str) :
    (run threshold events).state group =
      (run threshold (events.filter fun event => event.group = group)).state group := by
  induction events using List.reverseRecOn with
  | nil => rfl
  | append_singleton events event ih =>
    rw [run_concat, state_step, ih, List.filter_append]
    by_cases hgroup : event.group = group
    · rw [List.filter_cons_of_pos (by simpa using hgroup), List.filter_nil, run_concat, state_step]
    · rw [List.filter_cons_of_neg (by simpa using hgroup), List.filter_nil, List.append_nil,
        Event.tally_of_ne hgroup]

/-- The watch reports exactly the unexplained failures. -/
theorem watch_exact (threshold : ℕ) (events : List Event) :
    (∀ group sender,
      ((run threshold events).state group).count sender = suspicions events group sender) ∧
    (∀ group info, classifyFailure info ≠ .suspect →
      ((run threshold events).failed group info).1 = run threshold events) ∧
    (∀ group, ((run threshold events).verdict group).stranded.Nodup ∧
      ∀ sender, sender ∈ ((run threshold events).verdict group).stranded ↔
        0 < suspicions events group sender ∧ threshold ≤ suspicions events group sender) ∧
    (∀ group, ((run threshold events).verdict group).outOfSync = true ↔
      ((run threshold events).verdict group).stranded ≠ [] ∧
        ∀ sender, heard events group sender = true →
          sender ∈ ((run threshold events).verdict group).stranded) ∧
    ∀ group, (run threshold events).verdict group =
      (run threshold (events.filter fun event => event.group = group)).verdict group := by
  refine ⟨count_run threshold events, fun group info h => ?_, fun group => ⟨?_, fun sender => ?_⟩,
    fun group => ?_, fun group => ?_⟩
  · rw [failed_of_expected _ group h]
  · exact Group.nodup_stranded _ _
  · rw [← count_run threshold]
    exact (Group.mem_stranded).trans (by rw [threshold_run])
  · rw [Watch.outOfSync_iff]
    simp only [mem_seen_run]
  · unfold Watch.verdict
    rw [threshold_run, threshold_run, state_run_filter]

end Quorum.Fork
