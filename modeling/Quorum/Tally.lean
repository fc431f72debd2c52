import Quorum.Js.Dict

/-!
# Bounded tallies

Voters vote for choices and take their votes back.  A tally keeps the voters of every choice that has
any, in the order they came, and takes on no new choice once it has `max` of them.

So a voter stands under a choice exactly if they voted for it when there was room, and have not taken
that back since (`exists_counts`, `standing_of_counts`).
-/

namespace Quorum

open Js

/-- A vote for a choice, or one taken back. -/
structure Vote (C V : Type) where
  choice : C
  voter : V
  adds : Bool

section

variable {C V : Type} [BEq C] [BEq V]

def voters (table : Dict C (List V)) (c : C) : List V := (table.get? c).getD []

/-- A choice that the table has is always taken, another one while there are fewer than `max`. -/
def hasRoom (max : ℕ) (table : Dict C (List V)) (c : C) : Bool := table.has c || table.size < max

/-- The table once a vote is cast: the voter goes last, or out. -/
def Vote.cast (max : ℕ) (table : Dict C (List V)) (v : Vote C V) : Dict C (List V) :=
  if v.adds then
    if hasRoom max table v.choice then
      table.set v.choice (insertNew (voters table v.choice) v.voter)
    else table
  else
    let rest := (voters table v.choice).filter fun w => !(w == v.voter)
    if rest.isEmpty then table.delete v.choice else table.set v.choice rest

/-- The table of some votes, cast in turn. -/
def tally (max : ℕ) (votes : List (Vote C V)) : Dict C (List V) :=
  votes.foldl (Vote.cast max) Dict.empty

@[simp] theorem tally_concat (max : ℕ) (votes : List (Vote C V)) (v : Vote C V) :
    tally max (votes ++ [v]) = v.cast max (tally max votes) := by
  rw [tally, List.foldl_concat]
  rfl

/-- A vote that stands: it had room, and its voter does not take it back. -/
def Vote.Counts (max : ℕ) (before : List (Vote C V)) (v : Vote C V) (after : List (Vote C V)) :
    Prop :=
  v.adds = true ∧ hasRoom max (tally max before) v.choice = true ∧
    ∀ u ∈ after, u.adds = false → u.choice = v.choice → (v.voter == u.voter) = false

end

section

variable {C V : Type} [BEq C] [LawfulBEq C] [BEq V] {max : ℕ} {table : Dict C (List V)}

theorem get?_cast_of_ne {v : Vote C V} {c : C} (hc : v.choice ≠ c) :
    (v.cast max table).get? c = table.get? c := by
  unfold Vote.cast
  split
  · split
    · exact Dict.get?_set_of_ne _ _ hc
    · rfl
  · dsimp only
    split
    · rw [Dict.get?_delete, if_neg (by simpa using hc)]
    · exact Dict.get?_set_of_ne _ _ hc

theorem voters_cast_self (v : Vote C V) : voters (v.cast max table) v.choice =
    if v.adds then
      if hasRoom max table v.choice then insertNew (voters table v.choice) v.voter
      else voters table v.choice
    else (voters table v.choice).filter fun w => !(w == v.voter) := by
  unfold Vote.cast
  split
  · split
    · simp [voters]
    · rfl
  · dsimp only
    split
    next hempty =>
      rw [List.isEmpty_iff.mp hempty, voters, Dict.get?_delete, if_pos (beq_self_eq_true _)]
      rfl
    next => simp [voters]

/-- A choice that nobody votes for is not in the table. -/
theorem get?_tally_of_notMem {votes : List (Vote C V)} {c : C} (h : ∀ v ∈ votes, v.choice ≠ c) :
    (tally max votes).get? c = none := by
  induction votes using List.reverseRecOn with
  | nil => rfl
  | append_singleton votes v ih =>
    rw [tally_concat, get?_cast_of_ne (h v (by simp))]
    exact ih fun u hu => h u (List.mem_append_left _ hu)

/-! ### Bounds -/

/-- A table of at most `max` choices, each with some voters and none of them twice. -/
structure TableOk (max : ℕ) (table : Dict C (List V)) : Prop where
  size_le : table.size ≤ max
  nonempty : ∀ c, table.get? c ≠ some []
  distinct : ∀ c, Distinct (voters table c)

omit [LawfulBEq C] in
theorem voters_ne_nil_iff (h : TableOk max table) (c : C) :
    voters table c ≠ [] ↔ table.has c = true := by
  have := h.nonempty c
  rw [Dict.has_eq_isSome, voters]
  cases hc : table.get? c <;> simp_all

theorem TableOk.set (h : TableOk max table) {c : C} {l : List V}
    (hroom : hasRoom max table c = true) (hne : l ≠ []) (hl : Distinct l) :
    TableOk max (table.set c l) := by
  refine ⟨?_, fun c' => ?_, fun c' => ?_⟩
  · rw [Dict.size_set]
    have := h.size_le
    have hroom : table.has c = true ∨ table.size < max := by simpa [hasRoom] using hroom
    split <;> grind
  · rw [Dict.get?_set]
    split
    · simpa using hne
    · exact h.nonempty c'
  · rw [voters, Dict.get?_set]
    split
    · exact hl
    · exact h.distinct c'

/-- **Step.**  A vote keeps a table within bounds. -/
theorem TableOk.cast (h : TableOk max table) (v : Vote C V) : TableOk max (v.cast max table) := by
  unfold Vote.cast
  split
  · split
    next hroom =>
      refine h.set hroom ?_ (distinct_insertNew (h.distinct _) _)
      unfold insertNew
      split
      · rename_i hany
        exact List.ne_nil_of_mem (List.any_eq_true.mp hany).choose_spec.1
      · simp
    next => exact h
  · dsimp only
    split
    next =>
      refine ⟨(Dict.size_delete_le _ _).trans h.size_le, fun c => ?_, fun c => ?_⟩
      · rw [Dict.get?_delete]
        split
        · nofun
        · exact h.nonempty c
      · rw [voters, Dict.get?_delete]
        split
        · exact List.Pairwise.nil
        · exact h.distinct c
    next hrest =>
      -- whoever is left stood there before
      have hne : voters table v.choice ≠ [] := by
        intro hnil
        simp [hnil] at hrest
      refine h.set ?_ (by simpa using hrest) ((h.distinct _).filter _)
      rw [hasRoom, (voters_ne_nil_iff h _).mp hne, Bool.true_or]

/-- **Run.**  Every tally is within bounds. -/
theorem tableOk_tally (max : ℕ) (votes : List (Vote C V)) : TableOk max (tally max votes) := by
  induction votes using List.reverseRecOn with
  | nil => exact ⟨Nat.zero_le _, fun _ => nofun, fun _ => List.Pairwise.nil⟩
  | append_singleton votes v ih =>
    rw [tally_concat]
    exact ih.cast v

/-! ### Who stands -/

/-- Whoever stands has cast a vote that counts. -/
theorem exists_counts {votes : List (Vote C V)} {c : C} {w : V}
    (h : w ∈ voters (tally max votes) c) : ∃ before v after, votes = before ++ v :: after ∧
      v.Counts max before after ∧ v.choice = c ∧ v.voter = w := by
  induction votes using List.reverseRecOn with
  | nil => cases h
  | append_singleton votes u ih =>
    -- a vote that counted still does, if `u` does not take it back
    have hold (hw : w ∈ voters (tally max votes) c)
        (hkeeps : u.adds = false → u.choice = c → (w == u.voter) = false) :
        ∃ before v after, votes ++ [u] = before ++ v :: after ∧
          v.Counts max before after ∧ v.choice = c ∧ v.voter = w := by
      obtain ⟨before, v, after, rfl, ⟨hadds, hroom, hafter⟩, rfl, rfl⟩ := ih hw
      refine ⟨before, v, after ++ [u], by simp, ⟨hadds, hroom, fun u' hu' => ?_⟩, rfl, rfl⟩
      rcases List.mem_append.mp hu' with hu' | hu'
      · exact hafter u' hu'
      · rw [List.mem_singleton.mp hu']
        exact hkeeps
    rw [tally_concat] at h
    by_cases hc : u.choice = c
    · subst hc
      rw [voters_cast_self] at h
      split at h
      next hadds =>
        have hkeeps : u.adds = false → u.choice = u.choice → (w == u.voter) = false := by simp [hadds]
        split at h
        next hroom =>
          rcases mem_of_mem_insertNew h with h | rfl
          · exact hold h hkeeps
          · exact ⟨votes, u, [], rfl, ⟨hadds, hroom, nofun⟩, rfl, rfl⟩
        next => exact hold h hkeeps
      next =>
        obtain ⟨h, hne⟩ := List.mem_filter.mp h
        exact hold h fun _ _ => by simpa using hne
    · rw [voters, get?_cast_of_ne hc] at h
      exact hold h fun _ => (absurd · hc)

/-- A vote that counts leaves its voter, or an equal one, standing. -/
theorem standing_of_counts [EquivBEq V] {before after : List (Vote C V)} {v : Vote C V}
    (h : v.Counts max before after) :
    ∃ w ∈ voters (tally max (before ++ v :: after)) v.choice, (w == v.voter) = true := by
  induction after using List.reverseRecOn with
  | nil =>
    rw [tally_concat, voters_cast_self, if_pos h.1, if_pos h.2.1]
    unfold insertNew
    split
    next hany => exact List.any_eq_true.mp hany
    next => exact ⟨v.voter, by simp, beq_self_eq_true _⟩
  | append_singleton after u ih =>
    obtain ⟨w, hw, hbeq⟩ := ih ⟨h.1, h.2.1, fun u' hu' => h.2.2 u' (List.mem_append_left _ hu')⟩
    refine ⟨w, ?_, hbeq⟩
    rw [← List.cons_append, ← List.append_assoc, tally_concat]
    by_cases hc : u.choice = v.choice
    · rw [← hc, voters_cast_self, hc]
      split
      · split
        · exact mem_insertNew_of_mem hw _
        · exact hw
      · rename_i hadds
        refine List.mem_filter.mpr ⟨hw, ?_⟩
        rw [BEq.congr_left hbeq, h.2.2 u (by simp) (by simpa using hadds) hc]
        rfl
    · rw [voters, get?_cast_of_ne hc]
      exact hw

end

end Quorum
