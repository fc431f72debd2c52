import Mathlib

/-!
# Merging replicas in any order

A replica starts from an original and merges others in, originals or replicas that were merged
themselves.  `Gathered merge S r` says that `r` came about that way from exactly the originals `S`,
each of them used once or many times.

When what is seen of a replica lies in a semilattice, and a merge is seen as a join, what is seen
of `r` is the least upper bound of what is seen of the originals: neither the order nor the number
of merges matters.
-/

/-- `r` was merged from the originals `S`. -/
inductive Gathered {α : Type} (merge : α → α → α → Prop) : Set α → α → Prop
  /-- An original. -/
  | own (x : α) : Gathered merge {x} x
  /-- One replica merged into another. -/
  | fold {S T : Set α} {x y r : α} (hx : Gathered merge S x) (hy : Gathered merge T y)
      (hr : merge x y r) : Gathered merge (S ∪ T) r

namespace Gathered

variable {α L : Type} [SemilatticeSup L] {merge : α → α → α → Prop} {sees : α → L → Prop}
  {S : Set α} {r r' : α} {s s' : L}

/-- What is seen of a replica is the least upper bound of what is seen of the originals. -/
theorem exists_isLUB (hunique : ∀ x a b, sees x a → sees x b → a = b)
    (hjoin : ∀ x y r a b, merge x y r → sees x a → sees y b → sees r (a ⊔ b))
    (hS : ∀ x ∈ S, ∃ a, sees x a) (h : Gathered merge S r) :
    ∃ s, sees r s ∧ IsLUB {a | ∃ x ∈ S, sees x a} s := by
  induction h with
  | own x =>
    obtain ⟨a, ha⟩ := hS x rfl
    have hset : {b | ∃ y ∈ ({x} : Set α), sees y b} = {a} := by
      ext b
      constructor
      · rintro ⟨y, rfl, hb⟩
        exact hunique y b a hb ha
      · rintro rfl
        exact ⟨x, rfl, ha⟩
    rw [hset]
    exact ⟨a, ha, isLUB_singleton⟩
  | @fold S T x y r _ _ hr ihx ihy =>
    obtain ⟨a, ha, hlubS⟩ := ihx fun z hz => hS z (.inl hz)
    obtain ⟨b, hb, hlubT⟩ := ihy fun z hz => hS z (.inr hz)
    have hset : {c | ∃ z ∈ S ∪ T, sees z c} =
        {c | ∃ z ∈ S, sees z c} ∪ {c | ∃ z ∈ T, sees z c} := by
      ext c
      simp only [Set.mem_union, Set.mem_ofPred_eq, or_and_right, exists_or]
    rw [hset]
    exact ⟨a ⊔ b, hjoin x y r a b hr ha hb, hlubS.union hlubT⟩

/-- **Replicas that were merged from the same originals look the same.** -/
theorem agree (hunique : ∀ x a b, sees x a → sees x b → a = b)
    (hjoin : ∀ x y r a b, merge x y r → sees x a → sees y b → sees r (a ⊔ b))
    (hS : ∀ x ∈ S, ∃ a, sees x a) (h : Gathered merge S r) (h' : Gathered merge S r')
    (hs : sees r s) (hs' : sees r' s') : s = s' := by
  obtain ⟨t, ht, hlub⟩ := exists_isLUB hunique hjoin hS h
  obtain ⟨t', ht', hlub'⟩ := exists_isLUB hunique hjoin hS h'
  rw [hunique r s t hs ht, hunique r' s' t' hs' ht']
  exact hlub.unique hlub'

end Gathered
