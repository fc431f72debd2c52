import Mathlib

/-!
# Computations that may throw

`Except ε α` is the result of code that may throw.  A bind that returned can be taken apart
(`bind_eq_ok`), and a loop that stops at the first exception (`List.foldlM`) has the two usual
rules: an invariant of the turns holds at the end, and turns that all return make the loop return.
-/

namespace Js

variable {ε α β σ : Type}

@[simp] theorem pure_eq (a : α) : (pure a : Except ε α) = .ok a := rfl

@[simp] theorem ok_bind (a : α) (f : α → Except ε β) : ((.ok a : Except ε α) >>= f) = f a := rfl

@[simp] theorem error_bind (e : ε) (f : α → Except ε β) :
    ((.error e : Except ε α) >>= f) = .error e := rfl

@[simp] theorem isOk_ok (a : α) : (.ok a : Except ε α).isOk = true := rfl

@[simp] theorem isOk_error (e : ε) : (.error e : Except ε α).isOk = false := rfl

variable {x : Except ε α} {f : α → Except ε β} {b : β} {l : List α}

theorem isOk_iff : x.isOk = true ↔ ∃ a, x = .ok a := by
  cases x <;> simp

theorem bind_eq_ok :
    (x >>= f) = .ok b ↔ ∃ a, x = .ok a ∧ f a = .ok b := by
  cases x with
  | error e => exact ⟨nofun, nofun⟩
  | ok a => exact ⟨fun h => ⟨a, rfl, h⟩, fun ⟨a', ha, h⟩ => by cases ha; exact h⟩

theorem map_eq_ok {f : α → β} :
    x.map f = .ok b ↔ ∃ a, x = .ok a ∧ f a = b := by
  cases x with
  | error e => exact ⟨nofun, nofun⟩
  | ok a =>
    constructor
    · intro h
      cases h
      exact ⟨a, rfl, rfl⟩
    · rintro ⟨a', ha, rfl⟩
      cases ha
      rfl

theorem foldlM_cons_eq_ok {f : σ → α → Except ε σ} {s r : σ} {a : α} :
    (a :: l).foldlM f s = .ok r ↔ ∃ s', f s a = .ok s' ∧ l.foldlM f s' = .ok r := by
  rw [List.foldlM_cons]
  exact bind_eq_ok

/-- What every turn keeps holds when the loop returns. -/
theorem foldlM_invariant {f : σ → α → Except ε σ} {P : σ → Prop}
    (hstep : ∀ a ∈ l, ∀ s s', P s → f s a = .ok s' → P s') {s r : σ} (hs : P s)
    (h : l.foldlM f s = .ok r) : P r := by
  induction l generalizing s with
  | nil => cases h; exact hs
  | cons a l ih =>
    obtain ⟨s', hs', hr⟩ := foldlM_cons_eq_ok.mp h
    exact ih (fun b hb => hstep b (List.mem_cons_of_mem _ hb))
      (hstep a (List.mem_cons_self ..) s s' hs hs') hr

theorem mapM_cons_eq_ok {a : α} {r : List β} :
    (a :: l).mapM f = .ok r ↔
      ∃ b, f a = .ok b ∧ ∃ r', l.mapM f = .ok r' ∧ r = b :: r' := by
  rw [List.mapM_cons, bind_eq_ok]
  refine exists_congr fun b => and_congr_right fun _ => ?_
  rw [bind_eq_ok]
  refine exists_congr fun r' => and_congr_right fun _ => ?_
  exact ⟨fun h => (Except.ok.inj h).symm, fun h => h ▸ rfl⟩

theorem exists_of_mem_mapM {r : List β} (hr : l.mapM f = .ok r) (hb : b ∈ r) :
    ∃ a ∈ l, f a = .ok b := by
  induction l generalizing r with
  | nil =>
    cases hr
    cases hb
  | cons a l ih =>
    obtain ⟨b', hb', r', hr', rfl⟩ := mapM_cons_eq_ok.mp hr
    rcases List.mem_cons.mp hb with rfl | hb
    · exact ⟨a, List.mem_cons_self .., hb'⟩
    · obtain ⟨a', ha', hf⟩ := ih hr' hb
      exact ⟨a', List.mem_cons_of_mem _ ha', hf⟩

/-- What is kept of a cleaned list, read off the list itself. -/
theorem filter_reduceOption_of_mapM {f : α → Except ε (Option β)} (keep : β → Bool) (g : β → σ)
    {h : α → Option σ} (hf : ∀ a o, f a = .ok o → (o.filter keep).map g = h a)
    {r : List (Option β)} (hr : l.mapM f = .ok r) :
    (r.reduceOption.filter keep).map g = l.filterMap h := by
  induction l generalizing r with
  | nil =>
    cases hr
    rfl
  | cons a l ih =>
    obtain ⟨o, ho, r', hr', rfl⟩ := mapM_cons_eq_ok.mp hr
    rw [List.filterMap_cons, ← hf a o ho, ← ih hr']
    cases o with
    | none => rfl
    | some b =>
      rw [List.reduceOption_cons_of_some, List.filter_cons, Option.filter_some]
      split <;> rfl

end Js
