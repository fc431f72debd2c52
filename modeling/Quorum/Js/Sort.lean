import Mathlib

/-!
# Stable sorting

`List.insertionSort` is the language's stable `sort` for a comparison that is total and transitive.
Leaving elements out before or after sorting comes to the same, and two images of a list that are
compared alike are put in the same order.
-/

namespace Js

/-- Where two images of a list are compared alike, they are sorted to the same only if they are the
same. -/
theorem insertionSort_map_eq_iff {α β : Type} {r : β → β → Prop} [DecidableRel r] {f g : α → β}
    {l : List α} (hr : ∀ a ∈ l, ∀ b ∈ l, r (f a) (f b) ↔ r (g a) (g b)) :
    (l.map f).insertionSort r = (l.map g).insertionSort r ↔ ∀ a ∈ l, f a = g a := by
  have hf := List.map_insertionSort (fun a b => r (f a) (f b)) r f l fun _ _ _ _ => Iff.rfl
  have hg := List.map_insertionSort (fun a b => r (f a) (f b)) r g l hr
  rw [← hf, ← hg, List.map_inj_left]
  exact forall_congr' fun a => by rw [List.mem_insertionSort]

variable {α : Type} {r : α → α → Prop} [DecidableRel r] [IsTrans α r]

theorem filter_orderedInsert (p : α → Bool) (a : α) {l : List α} (hl : l.Pairwise r) :
    (l.orderedInsert r a).filter p =
      if p a then (l.filter p).orderedInsert r a else l.filter p := by
  induction l with
  | nil => cases hp : p a <;> simp [hp]
  | cons b l ih =>
    rw [List.pairwise_cons] at hl
    by_cases hab : r a b
    · rw [List.orderedInsert_cons_of_le r l hab, List.filter_cons]
      split
      · -- Everything that is kept is above `b`, so `a` goes to the front again.
        have hfront : ∀ c ∈ (b :: l).filter p, r a c := by
          intro c hc
          rcases List.mem_cons.mp (List.mem_of_mem_filter hc) with rfl | hc
          · exact hab
          · exact trans_of r hab (hl.1 c hc)
        cases hf : (b :: l).filter p with
        | nil => rfl
        | cons c l' =>
          have hc : c ∈ (b :: l).filter p := by rw [hf]; exact List.mem_cons_self ..
          rw [List.orderedInsert_cons_of_le r l' (hfront c hc)]
      · rfl
    · rw [List.orderedInsert_of_not_le r l hab, List.filter_cons, List.filter_cons, ih hl.2]
      cases hb : p b <;> cases ha : p a <;> simp [hab]

/-- Sorting what is kept is keeping what is sorted. -/
theorem filter_insertionSort [Std.Total r] (p : α → Bool) (l : List α) :
    (l.filter p).insertionSort r = (l.insertionSort r).filter p := by
  induction l with
  | nil => rfl
  | cons a l ih =>
    rw [List.insertionSort_cons, filter_orderedInsert p a (List.pairwise_insertionSort r l), ← ih,
      List.filter_cons]
    split <;> rfl

end Js
