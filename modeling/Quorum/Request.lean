import Mathlib

/-!
# Programs that fail without undoing what they did

A handler of the relay that fails leaves what it wrote before.  It is a program with a state that it
ends in whether it fails or not (`finalState`).
-/

namespace Quorum

section

variable {ε σ α β : Type} {x : EStateM ε σ α} {f : α → EStateM ε σ β} {s s' : σ}

theorem bind_of_ok {a : α} (h : x s = .ok a s') : (x >>= f) s = f a s' := by
  change EStateM.bind x f s = _
  rw [EStateM.bind, h]

theorem bind_of_error {e : ε} (h : x s = .error e s') : (x >>= f) s = .error e s' := by
  change EStateM.bind x f s = _
  rw [EStateM.bind, h]

/-- The state that a program leaves, whether it fails or not. -/
def finalState (x : EStateM ε σ α) (s : σ) : σ :=
  match x s with
  | .ok _ s' => s'
  | .error _ s' => s'

theorem finalState_of_ok {a : α} (h : x s = .ok a s') : finalState x s = s' := by
  rw [finalState, h]

theorem finalState_of_error {e : ε} (h : x s = .error e s') : finalState x s = s' := by
  rw [finalState, h]

end

end Quorum
