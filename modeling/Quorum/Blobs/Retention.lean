import Quorum.Blobs

/-!
# What a sweep deletes

A sweep removes regular files under valid ids only.  Their age exceeds the window it is given, in
seconds; whether that is the number of days that was asked for depends on the product with the
seconds of a day, which wraps around at `2 ^ 64`.  It is exactly if it does not
(`sweep_deletes_expired_iff`): otherwise the window is shorter, and there are files that go early.
-/

namespace Quorum.Blobs

variable {maxAge : ℕ} {now : SystemTime}

/-- A regular file under a valid id. -/
def Entry.Blob (entry : Entry) : Prop :=
  ∃ name metadata, entry.name = some name ∧ validId name = true ∧
    entry.metadata = some metadata ∧ metadata.isFile = true

/-- The file was last modified more than so many days ago. -/
def Entry.OlderThan (days : ℕ) (now : SystemTime) (entry : Entry) : Prop :=
  ∃ metadata m, entry.metadata = some metadata ∧ metadata.modified = some m ∧
    (days * 86400 * 10 ^ 9 : ℤ) < now.inNanos - m.inNanos

/-! ### One sweep -/

theorem swept_of_mem_sweepLoop {entries : List (Except String Entry)} {removed : ℕ} {entry : Entry}
    (h : entry ∈ (sweepLoop maxAge now entries removed).1) : entry.swept maxAge now = true := by
  induction entries generalizing removed with
  | nil => cases h
  | cons e rest ih =>
    cases e with
    | error e => cases h
    | ok e =>
      unfold sweepLoop at h
      split at h
      case isTrue hswept =>
        obtain rfl | h := List.mem_cons.mp h
        · exact hswept
        · exact ih h
      case isFalse => exact ih h

theorem swept_of_mem {entries : Except String (List (Except String Entry))} {entry : Entry}
    (h : entry ∈ (sweepOlderThan maxAge now entries).1) : entry.swept maxAge now = true := by
  cases entries with
  | error e => cases h
  | ok entries => exact swept_of_mem_sweepLoop h

theorem durationSince_exceeds_iff {k : ℕ} {m : SystemTime} :
    (durationSince now m).any (fun age => decide (k < age)) = true ↔
      (k : ℤ) < now.inNanos - m.inNanos := by
  unfold durationSince
  by_cases hle : m.inNanos ≤ now.inNanos
  · simp only [if_pos hle, Option.any_some, decide_eq_true_eq, Int.lt_toNat]
  · simp only [if_neg hle, Option.any_none, Bool.false_eq_true, false_iff]
    omega

theorem old_iff {metadata : Metadata} : metadata.old maxAge now = true ↔
    ∃ m, metadata.modified = some m ∧ (maxAge * 10 ^ 9 : ℤ) < now.inNanos - m.inNanos := by
  unfold Metadata.old
  cases metadata.modified with
  | none => simp only [Option.bind_none, Option.any_none, Bool.false_eq_true, reduceCtorEq,
      false_and, exists_false]
  | some m =>
    simp only [Option.bind_some, Option.some.injEq, exists_eq_left']
    rw [durationSince_exceeds_iff, Nat.cast_mul, Nat.cast_pow, Nat.cast_ofNat]

/-- What a sweep removes is a blob that is older than its window. -/
theorem swept_iff {entry : Entry} : entry.swept maxAge now = true ↔
    entry.Blob ∧ (∃ metadata m, entry.metadata = some metadata ∧ metadata.modified = some m ∧
      (maxAge * 10 ^ 9 : ℤ) < now.inNanos - m.inNanos) ∧ entry.removable = true := by
  unfold Entry.swept Entry.Blob
  cases hname : entry.name with
  | none => simp
  | some name =>
    cases hmetadata : entry.metadata with
    | none => simp
    | some metadata => simp [old_iff, and_assoc]

/-! ### The window -/

theorem statedDays_of_blobTtlFrom {value : Option String} {ttl : ℕ}
    (h : blobTtlFrom value = some ttl) :
    ∃ days, statedDays value = some days ∧ ttl = days * 86400 % 2 ^ 64 := by
  obtain ⟨days, hdays, httl⟩ := Option.map_eq_some_iff.mp h
  exact ⟨days, hdays, httl.symm⟩

theorem blobTtlFrom_eq {value : Option String} {days : ℕ} (h : statedDays value = some days) :
    blobTtlFrom value = some (days * 86400 % 2 ^ 64) := by
  rw [blobTtlFrom, h, Option.map_some]

/-- The earliest time there is. -/
def firstTime : SystemTime := ⟨-2 ^ 63, 0, by norm_num, by norm_num, by norm_num⟩

/-- A nanosecond more than a whole number of seconds later. -/
def justAfter (secs : ℕ) (h : secs < 2 ^ 64) : SystemTime :=
  ⟨-2 ^ 63 + secs, 1, by omega, by omega, by norm_num⟩

/-- A file that was modified at the earliest time. -/
def firstFile : Entry := ⟨some "a", some ⟨true, some firstTime⟩, true⟩

/-- It is a nanosecond older than that. -/
theorem age_firstFile {secs : ℕ} (h : secs < 2 ^ 64) :
    (justAfter secs h).inNanos - firstTime.inNanos = secs * 10 ^ 9 + 1 := by
  unfold SystemTime.inNanos justAfter firstTime
  push_cast
  ring

theorem swept_firstFile {secs : ℕ} (h : secs < 2 ^ 64) :
    firstFile.swept secs (justAfter secs h) = true := by
  refine swept_iff.mpr ⟨⟨"a", _, rfl, by decide, rfl, rfl⟩, ⟨_, firstTime, rfl, rfl, ?_⟩, rfl⟩
  rw [age_firstFile]
  exact lt_add_one _

theorem sweep_firstFile {secs : ℕ} (h : secs < 2 ^ 64) :
    sweepOlderThan secs (justAfter secs h) (.ok [.ok firstFile]) = ([firstFile], .ok 1) := by
  unfold sweepOlderThan
  dsimp only
  rw [sweepLoop, if_pos (swept_firstFile h)]
  rfl

/-- **What a sweep removes is a blob, and older than was asked for exactly if the number of days does
not wrap around.** -/
theorem sweep_deletes_expired_iff (value : Option String) {ttl : ℕ}
    (h : blobTtlFrom value = some ttl) :
    ∃ days, statedDays value = some days ∧
      (∀ now entries, ∀ entry ∈ (sweepOlderThan ttl now entries).1, entry.Blob) ∧
      ((∀ now entries, ∀ entry ∈ (sweepOlderThan ttl now entries).1, entry.OlderThan days now) ↔
        days * 86400 < 2 ^ 64) := by
  obtain ⟨days, hdays, rfl⟩ := statedDays_of_blobTtlFrom h
  refine ⟨days, hdays, fun now entries entry hentry => (swept_iff.mp (swept_of_mem hentry)).1, ?_, ?_⟩
  · intro hall
    by_contra hwraps
    have hlt : days * 86400 % 2 ^ 64 < 2 ^ 64 := Nat.mod_lt _ (by norm_num)
    have hearly := hall (justAfter _ hlt) (.ok [.ok firstFile]) firstFile
    rw [sweep_firstFile] at hearly
    obtain ⟨metadata, m, hmetadata, hm, hage⟩ := hearly List.mem_cons_self
    obtain rfl := Option.some.inj hmetadata
    obtain rfl := Option.some.inj hm
    rw [age_firstFile] at hage
    omega
  · intro hfits now entries entry hentry
    obtain ⟨-, hold, -⟩ := swept_iff.mp (swept_of_mem hentry)
    rw [Nat.mod_eq_of_lt hfits] at hold
    obtain ⟨metadata, m, hmetadata, hm, hage⟩ := hold
    exact ⟨metadata, m, hmetadata, hm, by push_cast at hage; exact hage⟩

theorem sweep_deletes_expired_month : blobTtlFrom (some " 30 ") = some 2592000 ∧
    ∃ days, statedDays (some " 30 ") = some days ∧
      (∀ now entries, ∀ entry ∈ (sweepOlderThan 2592000 now entries).1, entry.Blob) ∧
      ((∀ now entries, ∀ entry ∈ (sweepOlderThan 2592000 now entries).1, entry.OlderThan days now) ↔
        days * 86400 < 2 ^ 64) := by
  have hstated : statedDays (some " 30 ") = some 30 := by decide +kernel
  have hmonth : blobTtlFrom (some " 30 ") = some 2592000 := blobTtlFrom_eq hstated
  exact ⟨hmonth, sweep_deletes_expired_iff (some " 30 ") hmonth⟩

/-- With `213503982334602` days the window is 61184 seconds, which is less than one day. -/
theorem huge_window_is_short :
    statedDays (some "213503982334602") = some 213503982334602 ∧
      blobTtlFrom (some "213503982334602") = some 61184 ∧
      sweepOlderThan 61184 (justAfter 61184 (by norm_num)) (.ok [.ok firstFile]) =
        ([firstFile], .ok 1) ∧
      ¬(213503982334602 * 86400 * 10 ^ 9 : ℤ) <
        (justAfter 61184 (by norm_num)).inNanos - firstTime.inNanos := by
  have hstated : statedDays (some "213503982334602") = some 213503982334602 := by decide +kernel
  refine ⟨hstated, blobTtlFrom_eq hstated, sweep_firstFile _, ?_⟩
  rw [age_firstFile]
  norm_num

end Quorum.Blobs
