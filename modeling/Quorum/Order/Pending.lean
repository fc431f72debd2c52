import Mathlib

/-!
# Requests that wait for an answer

Requests are numbered, and those without an answer are kept in a table.  A request is settled by its
number, or with all the others, and leaves the table.  However the operations follow each other, the
numbers given out are those that wait and those that are settled, each once (`Pending.Accounted`),
and what holds of a request while it waits decides what holds of its outcome (`Pending.Each`).
-/

/-- The next number, the requests that wait, and what became of the others. -/
structure Pending (α β : Type) where
  next : ℕ := 1
  waiting : List (ℕ × α) := []
  settled : List (ℕ × β) := []

namespace Pending

variable {α β : Type} {p : Pending α β} {id : ℕ} {a : α} {f : α → β} {W W' : ℕ → α → Prop}
  {S S' : ℕ → β → Prop}

def issue (p : Pending α β) (a : α) : Pending α β :=
  { p with next := p.next + 1, waiting := p.waiting ++ [(p.next, a)] }

/-- A number that does not wait is ignored. -/
def settle (p : Pending α β) (id : ℕ) (f : α → β) : Pending α β :=
  match p.waiting.lookup id with
  | none => p
  | some a =>
    { p with
      waiting := p.waiting.filter fun w => w.1 ≠ id
      settled := p.settled ++ [(id, f a)] }

def settleAll (p : Pending α β) (f : α → β) : Pending α β :=
  { p with waiting := [], settled := p.settled ++ p.waiting.map fun w => (w.1, f w.2) }

def waits (p : Pending α β) (id : ℕ) : Prop := id ∈ p.waiting.map Prod.fst

instance : Decidable (p.waits id) := inferInstanceAs (Decidable (id ∈ _))

theorem waits_of_mem {w : ℕ × α} (h : w ∈ p.waiting) : p.waits w.1 := List.mem_map_of_mem h

theorem mem_settle {w : ℕ × α} (h : w ∈ p.waiting) (hne : w.1 ≠ id) :
    w ∈ (p.settle id f).waiting := by
  unfold settle
  split
  · exact h
  · exact List.mem_filter.mpr ⟨h, decide_eq_true hne⟩

/-! ### Every number once -/

/-- The numbers given out are those settled and those that wait, each once. -/
structure Accounted (p : Pending α β) : Prop where
  pos : 0 < p.next
  perm : (p.settled.map Prod.fst ++ p.waiting.map Prod.fst).Perm (List.range' 1 (p.next - 1))

namespace Accounted

theorem nodup (h : p.Accounted) : (p.settled.map Prod.fst ++ p.waiting.map Prod.fst).Nodup :=
  h.perm.nodup_iff.mpr List.nodup_range'

theorem issue (h : p.Accounted) (a : α) : (p.issue a).Accounted where
  pos := Nat.succ_pos _
  perm := by
    have hnext : p.next + 1 - 1 = (p.next - 1) + 1 := by have := h.pos; omega
    have hlast : 1 + (p.next - 1) = p.next := by have := h.pos; omega
    simp only [Pending.issue, List.map_append, List.map_singleton]
    rw [hnext, List.range'_concat, ← List.append_assoc, one_mul, hlast]
    exact h.perm.append_right _

theorem settle (h : p.Accounted) (id : ℕ) (f : α → β) : (p.settle id f).Accounted := by
  unfold Pending.settle
  split
  · exact h
  · rename_i a hfound
    obtain ⟨front, back, heq, -⟩ := List.lookup_eq_some_iff.mp hfound
    have hnodup : (p.waiting.map Prod.fst).Nodup := h.nodup.of_append_right
    -- The number stands at one place, so what is left is what stands around it.
    have hrest : (p.waiting.filter fun w => w.1 ≠ id) = front ++ back := by
      simp only [heq, List.map_append, List.map_cons, List.nodup_append, List.nodup_cons] at hnodup
      rw [heq, List.filter_append, List.filter_cons_of_neg (by simp)]
      congr 1
      · exact List.filter_eq_self.mpr fun w hw => decide_eq_true
          (hnodup.2.2 _ (List.mem_map_of_mem hw) id (.head _))
      · exact List.filter_eq_self.mpr fun w hw => decide_eq_true
          fun he => hnodup.2.1.1 (he ▸ List.mem_map_of_mem hw)
    refine ⟨h.pos, .trans ?_ h.perm⟩
    simp only [hrest]
    simp only [heq, List.map_append, List.map_cons, List.map_nil, List.append_assoc,
      List.singleton_append]
    exact List.perm_middle.symm.append_left _

theorem settleAll (h : p.Accounted) (f : α → β) : (p.settleAll f).Accounted where
  pos := h.pos
  perm := by simpa [Pending.settleAll, Function.comp_def] using h.perm

end Accounted

/-! ### Requests and their outcomes -/

/-- What holds of the requests that wait, and of the outcomes of the others. -/
structure Each (W : ℕ → α → Prop) (S : ℕ → β → Prop) (p : Pending α β) : Prop where
  waiting : ∀ w ∈ p.waiting, W w.1 w.2
  settled : ∀ r ∈ p.settled, S r.1 r.2

namespace Each

theorem mono (hW : ∀ i a, W i a → W' i a) (hS : ∀ i b, S i b → S' i b) (h : p.Each W S) :
    p.Each W' S' :=
  ⟨fun w hw => hW _ _ (h.waiting w hw), fun r hr => hS _ _ (h.settled r hr)⟩

theorem issue (h : p.Each W S) (ha : W p.next a) : (p.issue a).Each W S where
  waiting w hw := by
    rcases List.mem_append.mp hw with hw | hw
    · exact h.waiting w hw
    · rwa [List.mem_singleton.mp hw]
  settled := h.settled

theorem settle (h : p.Each W S) (hf : ∀ a, W id a → S id (f a)) : (p.settle id f).Each W S := by
  unfold Pending.settle
  split
  · exact h
  · rename_i a hfound
    obtain ⟨front, back, heq, -⟩ := List.lookup_eq_some_iff.mp hfound
    refine ⟨fun w hw => h.waiting w (List.mem_of_mem_filter hw), fun r hr => ?_⟩
    rcases List.mem_append.mp hr with hr | hr
    · exact h.settled r hr
    · rw [List.mem_singleton.mp hr]
      exact hf a (h.waiting (id, a) (heq ▸ List.mem_append_right _ (.head _)))

theorem settleAll (h : p.Each W S) (hf : ∀ i a, W i a → S i (f a)) :
    (p.settleAll f).Each W' S where
  waiting w hw := absurd hw List.not_mem_nil
  settled r hr := by
    rcases List.mem_append.mp hr with hr | hr
    · exact h.settled r hr
    · obtain ⟨w, hw, rfl⟩ := List.mem_map.mp hr
      exact hf w.1 w.2 (h.waiting w hw)

end Each

end Pending
