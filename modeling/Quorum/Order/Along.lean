import Mathlib

/-!
# Conditions along a run

A run of a system is the fold of its step function over a list of actions.  `Along` says that every
step of a run meets a condition, which may look at the state the step is taken in.  What such a
step preserves holds at the end of the run (`Along.preserves`), and with nothing asked of the steps
a step relation is followed by every run (`foldl_preserves`).  What is noted beside the states of a
run (`noting`) may be asked for in a condition.
-/

variable {σ α : Type} {step : σ → α → σ} {ok : σ → α → Prop} {s : σ} {l l' : List α}

/-- Every step of a run meets a condition on the state it is taken in. -/
def Along (step : σ → α → σ) (ok : σ → α → Prop) : σ → List α → Prop
  | _, [] => True
  | s, a :: l => ok s a ∧ Along step ok (step s a) l

instance Along.decidable [∀ s a, Decidable (ok s a)] :
    (s : σ) → (l : List α) → Decidable (Along step ok s l)
  | _, [] => .isTrue trivial
  | s, a :: l =>
    have : Decidable (Along step ok (step s a) l) := Along.decidable (step s a) l
    inferInstanceAs (Decidable (ok s a ∧ _))

theorem along_append :
    Along step ok s (l ++ l') ↔ Along step ok s l ∧ Along step ok (l.foldl step s) l' := by
  induction l generalizing s with
  | nil => exact ⟨fun h => ⟨trivial, h⟩, fun h => h.2⟩
  | cons a l ih =>
    change ok s a ∧ Along step ok (step s a) (l ++ l') ↔
      (ok s a ∧ Along step ok (step s a) l) ∧ _
    rw [ih, and_assoc]
    rfl

/-- A condition that every action of the run meets in every state. -/
theorem along_of_forall (h : ∀ a ∈ l, ∀ s, ok s a) (s : σ) : Along step ok s l := by
  induction l generalizing s with
  | nil => trivial
  | cons a l ih => exact ⟨h a (.head _) s, ih (fun b hb => h b (.tail _ hb)) (step s a)⟩

/-- Two conditions that every step meets. -/
theorem Along.and {ok' : σ → α → Prop} (h : Along step ok s l) (h' : Along step ok' s l) :
    Along step (fun s a => ok s a ∧ ok' s a) s l := by
  induction l generalizing s with
  | nil => trivial
  | cons a l ih => exact ⟨⟨h.1, h'.1⟩, ih h.2 h'.2⟩

/-- A weaker condition. -/
theorem Along.mono {ok' : σ → α → Prop} (hok : ∀ s a, ok s a → ok' s a) (h : Along step ok s l) :
    Along step ok' s l := by
  induction l generalizing s with
  | nil => trivial
  | cons a l ih => exact ⟨hok s a h.1, ih h.2⟩

/-- **What a step that meets the condition preserves, a run preserves.** -/
theorem Along.preserves {P : σ → Prop} (hstep : ∀ s a, P s → ok s a → P (step s a))
    (h : Along step ok s l) (hs : P s) : P (l.foldl step s) := by
  induction l generalizing s with
  | nil => exact hs
  | cons a l ih => exact ih h.2 (hstep s a hs h.1)

/-- What is preserved holds at every step. -/
theorem Along.carrying {P : σ → Prop} (hstep : ∀ s a, P s → ok s a → P (step s a))
    (h : Along step ok s l) (hs : P s) : Along step (fun s a => ok s a ∧ P s) s l := by
  induction l generalizing s with
  | nil => trivial
  | cons a l ih => exact ⟨⟨h.1, hs⟩, ih h.2 (hstep s a hs h.1)⟩

/-- What every step preserves, every run preserves. -/
theorem foldl_preserves {P : σ → Prop} (hstep : ∀ s a, P s → P (step s a)) (l : List α)
    (hs : P s) : P (l.foldl step s) := by
  induction l generalizing s with
  | nil => exact hs
  | cons a l ih => exact ih (hstep s a hs)

/-- What was not there at the start was put there by a step. -/
theorem exists_step_of_foldl {Q : σ → Prop} {put : α → Prop} (h : Q (l.foldl step s))
    (hs : ¬ Q s) (hstep : ∀ s a, Q (step s a) → Q s ∨ put a) : ∃ a ∈ l, put a := by
  induction l using List.reverseRecOn with
  | nil => exact absurd h hs
  | append_singleton l a ih =>
    rw [List.foldl_append] at h
    rcases hstep _ a h with h | h
    · obtain ⟨b, hb, hput⟩ := ih h
      exact ⟨b, List.mem_append_left _ hb, hput⟩
    · exact ⟨a, by simp, h⟩

/-- Some step of a run meets a condition on the state it is taken in. -/
def Sometime (step : σ → α → σ) (ok : σ → α → Prop) : σ → List α → Prop
  | _, [] => False
  | s, a :: l => ok s a ∨ Sometime step ok (step s a) l

/-- What a step preserves or breaks in one way holds at the end, or was broken in this way. -/
theorem Along.preserves_or {P : σ → Prop} {bad : σ → α → Prop}
    (hstep : ∀ s a, P s → ok s a → P (step s a) ∨ bad s a) (h : Along step ok s l) (hs : P s) :
    P (l.foldl step s) ∨ Sometime step bad s l := by
  induction l generalizing s with
  | nil => exact .inl hs
  | cons a l ih =>
    rcases hstep s a hs h.1 with hnext | hbad
    · exact (ih h.2 hnext).imp_right .inr
    · exact .inr (.inl hbad)

/-! ### Notes beside a run -/

section

variable {γ : Type} (step) (note : σ → γ → α → γ)

/-- A step with something noted beside it, which the step does not look at. -/
def noting (p : σ × γ) (a : α) : σ × γ := (step p.1 a, note p.1 p.2 a)

/-- **Notes change nothing about the run.** -/
theorem fst_foldl_noting (l : List α) (p : σ × γ) :
    (l.foldl (noting step note) p).1 = l.foldl step p.1 := by
  induction l generalizing p with
  | nil => rfl
  | cons a l ih => exact ih (noting step note p a)

/-- A condition that does not look at the notes. -/
theorem Along.noting {p : σ × γ} (h : Along step ok p.1 l) :
    Along (noting step note) (fun p a => ok p.1 a) p l := by
  induction l generalizing p with
  | nil => trivial
  | cons a l ih => exact ⟨h.1, ih h.2⟩

end
