import Mathlib

/-!
# Following a log

Some entries of an append-only log decide something (`pick`), and followers apply what is decided in
order.  A follower reads the log entry by entry, but what it decided itself it may have applied
before it reads it back, so it can be ahead of what it has read.  `Follows` says that it applied
decisions of the log only, in order and without a gap, and none less than it has read.

Two followers can therefore never contradict each other, and agree once both have read everything
(`Follows.agree`).
-/

variable {α γ : Type} {pick : α → Option γ} {log : List α} {cursor : ℕ} {applied : List γ}

/-- A follower that has read `cursor` entries of the log and applied some decisions. -/
structure Follows (pick : α → Option γ) (log : List α) (cursor : ℕ) (applied : List γ) : Prop where
  cursor_le : cursor ≤ log.length
  /-- What is applied has been decided. -/
  decided : applied <+: log.filterMap pick
  /-- What has been read is applied. -/
  covers : (log.take cursor).filterMap pick <+: applied

namespace Follows

theorem start (pick : α → Option γ) (log : List α) : Follows pick log 0 [] where
  cursor_le := Nat.zero_le _
  decided := List.nil_prefix
  covers := by simp

/-- A log that grows is still followed. -/
theorem append (h : Follows pick log cursor applied) (l : List α) :
    Follows pick (log ++ l) cursor applied where
  cursor_le := by
    rw [List.length_append]
    exact Nat.le_add_right_of_le h.cursor_le
  decided := by
    rw [List.filterMap_append]
    exact h.decided.trans (List.prefix_append ..)
  covers := by
    rw [List.take_append_of_le_length h.cursor_le]
    exact h.covers

variable {c : γ} {a : α}

/-- A follower may apply the next decision before it reads it. -/
theorem apply (h : Follows pick log cursor applied)
    (hc : applied ++ [c] <+: log.filterMap pick) : Follows pick log cursor (applied ++ [c]) where
  cursor_le := h.cursor_le
  decided := hc
  covers := h.covers.trans (List.prefix_append ..)

theorem take_succ_filterMap (pick : α → Option γ) (ha : log[cursor]? = some a) :
    (log.take (cursor + 1)).filterMap pick =
      (log.take cursor).filterMap pick ++ (pick a).toList := by
  rw [List.take_add_one, ha, List.filterMap_append, Option.toList_some]
  cases hp : pick a <;> simp [hp]

theorem succ_le_length (ha : log[cursor]? = some a) : cursor + 1 ≤ log.length :=
  (List.getElem?_eq_some_iff.mp ha).1

/-- An entry that decides nothing is read. -/
theorem read_none (h : Follows pick log cursor applied) (ha : log[cursor]? = some a)
    (hp : pick a = none) : Follows pick log (cursor + 1) applied where
  cursor_le := succ_le_length ha
  decided := h.decided
  covers := by
    rw [take_succ_filterMap pick ha, hp]
    simpa using h.covers

theorem decided_through (ha : log[cursor]? = some a) (hp : pick a = some c) :
    (log.take cursor).filterMap pick ++ [c] <+: log.filterMap pick := by
  have h := take_succ_filterMap pick ha
  rw [hp, Option.toList_some] at h
  rw [← h]
  exact (List.take_prefix ..).filterMap _

/-- The next decision is read and applied. -/
theorem read_apply (h : Follows pick log cursor applied)
    (ha : log[cursor]? = some a) (hp : pick a = some c)
    (hlen : ((log.take cursor).filterMap pick).length = applied.length) :
    Follows pick log (cursor + 1) (applied ++ [c]) := by
  have heq : (log.take cursor).filterMap pick = applied := h.covers.eq_of_length hlen
  refine ⟨succ_le_length ha, ?_, ?_⟩
  · rw [← heq]
    exact decided_through ha hp
  · rw [take_succ_filterMap pick ha, hp, heq]
    exact List.prefix_refl _

/-- A decision applied before is read and passed over. -/
theorem read_skip (h : Follows pick log cursor applied)
    (ha : log[cursor]? = some a) (hp : pick a = some c)
    (hlen : ((log.take cursor).filterMap pick).length ≠ applied.length) :
    Follows pick log (cursor + 1) applied := by
  refine ⟨succ_le_length ha, h.decided, ?_⟩
  rw [take_succ_filterMap pick ha, hp, Option.toList_some]
  refine List.prefix_of_prefix_length_le (decided_through ha hp) h.decided ?_
  rw [List.length_append, List.length_singleton]
  exact lt_of_le_of_ne h.covers.length_le hlen

/-- A follower that has read everything has applied everything. -/
theorem applied_eq (h : Follows pick log log.length applied) : applied = log.filterMap pick := by
  have hcovers := h.covers
  rw [List.take_length] at hcovers
  exact h.decided.eq_of_length_le hcovers.length_le

variable {cursor' : ℕ} {applied' : List γ}

/-- **Followers that have read everything agree.** -/
theorem agree (h : Follows pick log log.length applied) (h' : Follows pick log log.length applied') :
    applied = applied' :=
  h.applied_eq.trans h'.applied_eq.symm

end Follows
