import Mathlib.Data.List.Basic

/-!
# Taking a list apart from its front

A computation that takes elements from the front of a list may return, fail or panic.  It is exact
on a list if it takes just that list and leaves what follows, and fails as truncated on everything
that is cut short of it.  Computations that are exact on two lists are, one after the other, exact on
the lists one after the other (`Exact.bind`), so a format is read exactly if its parts are.
-/

namespace Framing

variable {β ε α γ : Type}

/-- A computation that takes elements from the front of a list.  `none` is a panic. -/
structure Parse (β ε α : Type) where
  run : List β → Option (Except ε (α × List β))

namespace Parse

def andThen (x : Parse β ε α) (f : α → Parse β ε γ) : Parse β ε γ where
  run s :=
    match x.run s with
    | none => none
    | some (.error e) => some (.error e)
    | some (.ok (a, rest)) => (f a).run rest

instance : Monad (Parse β ε) where
  pure a := ⟨fun s => some (.ok (a, s))⟩
  bind := andThen

def fail (e : ε) : Parse β ε α := ⟨fun _ => some (.error e)⟩

def remaining : Parse β ε (List β) := ⟨fun s => some (.ok (s, s))⟩

def leave (s : List β) : Parse β ε Unit := ⟨fun _ => some (.ok ((), s))⟩

/-- Go on with a value that may be missing, where the code would panic. -/
def unwrap : Option α → Parse β ε α
  | some a => ⟨fun s => some (.ok (a, s))⟩
  | none => ⟨fun _ => none⟩

variable {x : Parse β ε α} {a : α} {f : α → Parse β ε γ}

theorem bind_of_ok {s rest : List β} (h : x.run s = some (.ok (a, rest)))
    (f : α → Parse β ε γ) : (x >>= f).run s = (f a).run rest := by
  change (andThen x f).run s = _
  simp only [andThen, h]

theorem bind_of_error {s : List β} {e : ε} (h : x.run s = some (.error e))
    (f : α → Parse β ε γ) : (x >>= f).run s = some (.error e) := by
  change (andThen x f).run s = _
  simp only [andThen, h]

/-- Code that takes what the parser takes, and goes on as the parser does. -/
theorem bind_agrees {δ ρ : Type} {s : List β}
    {r : Except ε ρ} {view : ρ → α × List β} {g : ρ → Except ε δ} {out : γ × List β → Except ε δ}
    (hx : x.run s = some (r.map view))
    (hf : ∀ a, r = .ok a → ∃ r', (f (view a).1).run (view a).2 = some r' ∧ g a = r' >>= out) :
    ∃ r', (x >>= f).run s = some r' ∧ (r >>= g) = r' >>= out := by
  cases r with
  | error e => exact ⟨.error e, bind_of_error hx f, rfl⟩
  | ok a =>
    obtain ⟨r', hr, hg⟩ := hf a rfl
    exact ⟨r', (bind_of_ok hx f).trans hr, hg⟩

/-! ### No panic -/

/-- It returns or fails on every list. -/
def Safe (x : Parse β ε α) : Prop := ∀ s, ∃ r, x.run s = some r

theorem safe_pure (a : α) : Safe (pure a : Parse β ε α) := fun _ => ⟨_, rfl⟩

theorem safe_fail (e : ε) : Safe (fail e : Parse β ε α) := fun _ => ⟨_, rfl⟩

/-- What follows is only asked about values that the first part can return. -/
theorem safe_bind (hx : Safe x)
    (hf : ∀ s a rest, x.run s = some (.ok (a, rest)) → ∃ r, (f a).run rest = some r) : Safe
    (x >>= f) := by
  intro s
  obtain ⟨e | ⟨a, rest⟩, hr⟩ := hx s
  · exact ⟨_, bind_of_error hr f⟩
  · obtain ⟨r, hr'⟩ := hf s a rest hr
    exact ⟨r, (bind_of_ok hr f).trans hr'⟩

/-! ### Exactness -/

/-- It takes just the list, and fails as truncated on what is cut short of it. -/
structure Exact (x : Parse β ε α) (truncated : ε) (l : List β) (a : α) : Prop where
  reads : ∀ rest, x.run (l ++ rest) = some (.ok (a, rest))
  rejects : ∀ pre, pre <+: l → pre ≠ l → x.run pre = some (.error truncated)

theorem exact_pure (truncated : ε) (a : α) : Exact (pure a : Parse β ε α) truncated [] a :=
  ⟨fun _ => rfl, fun _ hpre hne => absurd (List.prefix_nil.mp hpre) hne⟩

theorem exact_unwrap (truncated : ε) (a : α) :
    Exact (unwrap (some a) : Parse β ε α) truncated [] a :=
  exact_pure truncated a

/-- A prefix of two lists is cut short of the first, or goes on into the second. -/
theorem prefix_append_cases {l l' pre : List β} (h : pre <+: l ++ l') :
    (pre <+: l ∧ pre ≠ l) ∨ ∃ pre', pre = l ++ pre' ∧ pre' <+: l' := by
  obtain hle | hle := List.prefix_or_prefix_of_prefix h (List.prefix_append l l')
  · by_cases heq : pre = l
    · exact .inr ⟨[], by rw [heq, List.append_nil], List.nil_prefix⟩
    · exact .inl ⟨hle, heq⟩
  · obtain ⟨pre', rfl⟩ := hle
    exact .inr ⟨pre', rfl, (List.prefix_append_right_inj l).mp h⟩

/-- **Exact parts make an exact whole.** -/
theorem Exact.bind {truncated : ε} {l l' : List β}
    {c : γ} (hx : Exact x truncated l a) (hf : Exact (f a) truncated l' c) :
    Exact (x >>= f) truncated (l ++ l') c := by
  refine ⟨fun rest => ?_, fun pre hpre hne => ?_⟩
  · rw [List.append_assoc, bind_of_ok (hx.reads _), hf.reads]
  · obtain ⟨hle, hshort⟩ | ⟨pre', rfl, hpre'⟩ := prefix_append_cases hpre
    · exact bind_of_error (hx.rejects pre hle hshort) f
    · rw [bind_of_ok (hx.reads pre')]
      exact hf.rejects pre' hpre' fun heq => hne (by rw [heq])

/-- What takes nothing may follow. -/
theorem Exact.bind_nil {truncated : ε} {l : List β}
    {c : γ} (hx : Exact x truncated l a) (hf : Exact (f a) truncated [] c) :
    Exact (x >>= f) truncated l c := by
  have h := hx.bind hf
  rwa [List.append_nil] at h

end Parse

end Framing
