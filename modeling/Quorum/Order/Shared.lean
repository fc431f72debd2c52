import Quorum.Order.Along

/-!
# Devices that share a log

Devices act on their own state and send messages about what they did.  The messages of all devices
are put in one order, the log.  Every device reads the log at its own pace and applies the messages
of the others; it passes over its own, which it has already acted on.

A system whose devices are related to those of a simpler one takes the same steps (`Simulates`), and
what holds of the simpler one carries over (`Simulates.run`).
-/

/-- What a device does, what it sends about it, and how a message of another device is applied. -/
structure Protocol (ι σ α μ ρ : Type) where
  act : ι → σ → α → σ
  send : ι → σ → α → List μ
  apply : ι → ρ → σ → μ → σ

/-- The devices, the log, and how much of it each device has read. -/
structure Shared (ι σ μ : Type) where
  device : ι → σ
  log : List (ι × μ)
  read : ι → ℕ

inductive Shared.Action (ι α ρ : Type)
  /-- A device acts. -/
  | act (i : ι) (a : α)
  /-- A device reads the next message. -/
  | read (i : ι) (c : ρ)

variable {ι σ α μ ρ : Type} [DecidableEq ι]

/-- The messages that a device has not read. -/
def Shared.unread (s : Shared ι σ μ) (i : ι) : List (ι × μ) := s.log.drop (s.read i)

omit [DecidableEq ι] in
/-- The state of a device after it has read a message. -/
def Protocol.receive (p : Protocol ι σ α μ ρ) (i : ι) (c : ρ) (d : σ) (m : ι × μ) : σ :=
  if m.1 = i then d else p.apply m.1 c d m.2

def Protocol.step (p : Protocol ι σ α μ ρ) (s : Shared ι σ μ) : Shared.Action ι α ρ → Shared ι σ μ
  | .act i a =>
    { s with
      device := Function.update s.device i (p.act i (s.device i) a)
      log := s.log ++ (p.send i (s.device i) a).map (i, ·) }
  | .read i c =>
    match s.log[s.read i]? with
    | none => s
    | some m =>
      { s with
        device := Function.update s.device i (p.receive i c (s.device i) m)
        read := Function.update s.read i (s.read i + 1) }

/-! ### Devices that simulate others -/

/-- Every device is related to one of another system with the same log, which is read as far. -/
structure Simulates {τ : Type} (R : σ → τ → Prop) (s : Shared ι σ μ) (t : Shared ι τ μ) : Prop where
  device : ∀ i, R (s.device i) (t.device i)
  log : s.log = t.log
  read : s.read = t.read

variable {τ : Type} {R : σ → τ → Prop} {p : Protocol ι σ α μ ρ} {p' : Protocol ι τ α μ ρ}

section

variable (hact : ∀ i d t a, R d t → R (p.act i d a) (p'.act i t a))
  (hsend : ∀ i d t a, R d t → p.send i d a = p'.send i t a)
  (happly : ∀ j c d t m, R d t → R (p.apply j c d m) (p'.apply j c t m))

include hact hsend happly

theorem Simulates.step {s : Shared ι σ μ} {t : Shared ι τ μ} (h : Simulates R s t)
    (a : Shared.Action ι α ρ) : Simulates R (p.step s a) (p'.step t a) := by
  have hupdate : ∀ i d e, R d e →
      ∀ j, R (Function.update s.device i d j) (Function.update t.device i e j) := by
    intro i d e hde j
    by_cases hj : j = i
    · subst hj
      rw [Function.update_self, Function.update_self]
      exact hde
    · rw [Function.update_of_ne hj, Function.update_of_ne hj]
      exact h.device j
  cases a with
  | act i a =>
    refine ⟨hupdate i _ _ (hact i _ _ a (h.device i)), ?_, h.read⟩
    change s.log ++ (p.send i (s.device i) a).map _ = t.log ++ (p'.send i (t.device i) a).map _
    rw [h.log, hsend i _ _ a (h.device i)]
  | read i c =>
    have hget : t.log[t.read i]? = s.log[s.read i]? := by rw [h.log, h.read]
    cases hm : s.log[s.read i]? with
    | none =>
      rw [hm] at hget
      simp only [Protocol.step, hm, hget]
      exact h
    | some m =>
      rw [hm] at hget
      simp only [Protocol.step, hm, hget]
      refine ⟨hupdate i _ _ ?_, h.log, by rw [h.read]⟩
      unfold Protocol.receive
      split
      · exact h.device i
      · exact happly m.1 c _ _ m.2 (h.device i)

/-- **What is related at every device stays so in a run**, and a condition that looks at what is
related carries over. -/
theorem Simulates.run {ok : Shared ι σ μ → Shared.Action ι α ρ → Prop}
    {ok' : Shared ι τ μ → Shared.Action ι α ρ → Prop}
    (hok : ∀ s t a, Simulates R s t → ok s a → ok' t a) {l : List (Shared.Action ι α ρ)}
    {s : Shared ι σ μ} {t : Shared ι τ μ} (h : Simulates R s t) (hl : Along p.step ok s l) :
    Simulates R (l.foldl p.step s) (l.foldl p'.step t) ∧ Along p'.step ok' t l := by
  induction l generalizing s t with
  | nil => exact ⟨h, trivial⟩
  | cons a l ih =>
    obtain ⟨hsim, halong⟩ := ih (h.step hact hsend happly a) hl.2
    exact ⟨hsim, hok s t a h hl.1, halong⟩

end
