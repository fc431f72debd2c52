import Quorum.Js.Value

/-!
# Code that changes a record in place

`Act η σ α` is code that changes a state in place, emits effects and may throw.  An exception does
not undo anything: what was changed before it stays changed, and what was emitted is reported along
with it.

A relation between states that every step keeps and that composes holds from the start of a
computation to its end, however it ends (`Moves`).  `zoom` runs code on a part of the state, so
that the rest is left alone by construction.
-/

namespace Js

/-- What a computation leaves behind. -/
structure Out (η σ α : Type) where
  state : σ
  effects : List η
  result : Except Error α

/-- Code that changes a state, emits effects and may throw. -/
def Act (η σ α : Type) : Type := σ → Out η σ α

namespace Act

variable {η σ τ α β : Type}

instance : Monad (Act η σ) where
  pure a := fun s => ⟨s, [], .ok a⟩
  bind x f := fun s =>
    let o := x s
    match o.result with
    | .error e => ⟨o.state, o.effects, .error e⟩
    | .ok a =>
      let o' := f a o.state
      ⟨o'.state, o.effects ++ o'.effects, o'.result⟩

def read : Act η σ σ := fun s => ⟨s, [], .ok s⟩

def update (f : σ → σ) : Act η σ Unit := fun s => ⟨f s, [], .ok ()⟩

def emit (e : η) : Act η σ Unit := fun s => ⟨s, [e], .ok ()⟩

def throw (e : Error) : Act η σ α := fun s => ⟨s, [], .error e⟩

/-- A pure computation that may throw. -/
def lift (x : Except Error α) : Act η σ α := fun s => ⟨s, [], x⟩

/-- Run code on a part of the state. -/
def zoom (get : τ → σ) (set : τ → σ → τ) (x : Act η σ α) : Act η τ α := fun t =>
  let o := x (get t)
  ⟨set t o.state, o.effects, o.result⟩

/-! ### The state that is left -/

theorem state_bind (x : Act η σ α) (f : α → Act η σ β) (s : σ) :
    ((x >>= f) s).state =
      match (x s).result with
      | .ok a => (f a (x s).state).state
      | .error _ => (x s).state := by
  change (match (x s).result with
    | .error e => (⟨(x s).state, (x s).effects, .error e⟩ : Out η σ β)
    | .ok a => ⟨(f a (x s).state).state, (x s).effects ++ (f a (x s).state).effects,
        (f a (x s).state).result⟩).state = _
  cases (x s).result <;> rfl

@[simp] theorem state_read_bind (f : σ → Act η σ β) (s : σ) :
    ((read >>= f) s).state = (f s s).state := rfl

@[simp] theorem state_update_bind (g : σ → σ) (f : Unit → Act η σ β) (s : σ) :
    ((update g >>= f) s).state = (f () (g s)).state := rfl

@[simp] theorem state_emit_bind (e : η) (f : Unit → Act η σ β) (s : σ) :
    ((emit e >>= f) s).state = (f () s).state := rfl

@[simp] theorem state_lift_ok_bind (a : α) (f : α → Act η σ β) (s : σ) :
    ((lift (.ok a) >>= f) s).state = (f a s).state := rfl

/-! ### What every step keeps -/

/-- The state before and the state after are related, whether or not the code throws. -/
def Moves (R : σ → σ → Prop) (x : Act η σ α) : Prop := ∀ s, R s (x s).state

section

variable {R : σ → σ → Prop}

theorem moves_bind [IsTrans σ R] {x : Act η σ α} {f : α → Act η σ β} (hx : Moves R x)
    (hf : ∀ a, Moves R (f a)) : Moves R (x >>= f) := by
  intro s
  rw [state_bind]
  cases (x s).result with
  | error e => exact hx s
  | ok a => exact trans_of R (hx s) (hf a _)

theorem moves_update {f : σ → σ} (hf : ∀ s, R s (f s)) : Moves R (update f : Act η σ Unit) := hf

theorem moves_read_bind {f : σ → Act η σ β} (hf : ∀ s, R s (f s s).state) :
    Moves R (read >>= f) := hf

variable [Std.Refl R]

theorem moves_pure (a : α) : Moves R (pure a : Act η σ α) := fun s => Std.Refl.refl s

theorem moves_emit (e : η) : Moves R (emit e : Act η σ Unit) := fun s => Std.Refl.refl s

theorem moves_lift (x : Except Error α) : Moves R (lift x : Act η σ α) := fun s => Std.Refl.refl s

theorem moves_emit_bind [IsTrans σ R] {e : η} {f : Unit → Act η σ β}
    (hf : ∀ u, Moves R (f u)) : Moves R (emit e >>= f) := moves_bind (moves_emit e) hf

theorem moves_lift_bind [IsTrans σ R] {x : Except Error α} {f : α → Act η σ β}
    (hf : ∀ a, Moves R (f a)) : Moves R (lift x >>= f) := moves_bind (moves_lift x) hf

theorem moves_read : Moves R (read : Act η σ σ) := fun s => Std.Refl.refl s

theorem moves_forM [IsTrans σ R] {f : α → Act η σ PUnit} {l : List α}
    (hf : ∀ a ∈ l, Moves R (f a)) : Moves R (l.forM f) := by
  induction l with
  | nil => exact moves_pure _
  | cons a l ih =>
    exact moves_bind (hf a (List.mem_cons_self ..)) fun _ =>
      ih fun b hb => hf b (List.mem_cons_of_mem _ hb)

end

/-- What holds of the state before holds of the state after. -/
def Carries (P : σ → Prop) (s s' : σ) : Prop := P s → P s'

instance (P : σ → Prop) : Std.Refl (Carries P) := ⟨fun _ h => h⟩

instance (P : σ → Prop) : IsTrans σ (Carries P) := ⟨fun _ _ _ h h' hs => h' (h hs)⟩

end Act

end Js
