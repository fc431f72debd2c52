import Mathlib

/-!
# Reading a sorted list in pages

A list that is sorted by a number is read a page at a time: the last `k` elements below a bound
(`lastPage`), or the first `k` above one (`firstPage`).

Backwards the next bound is the number of the lowest element of the page that is *good*, and stays
where it is when none is (`nextBound`).  A page without a good element is then read again and again.
Reading reaches a page that holds all that is left exactly when every `k` elements in a row, except
the very first, include a good one (`reaches_first_iff`), and no element is left out on the way
(`below_or_page`).  Forwards the next bound is the number of the last element of the page, and
pages follow one another without a gap (`above_next`).
-/

namespace Paging

variable {α : Type} {key : α → ℕ} {good : α → Bool} {k : ℕ} {l : List α} {b : ℕ}

/-! ### Backwards -/

def below (key : α → ℕ) (l : List α) (b : ℕ) : List α := l.filter fun x => key x < b

def lastPage (key : α → ℕ) (k : ℕ) (l : List α) (b : ℕ) : List α :=
  (below key l b).drop ((below key l b).length - k)

/-- The bound after a page: its lowest good element, if it has one. -/
def nextBound (key : α → ℕ) (good : α → Bool) (k : ℕ) (l : List α) (b : ℕ) : ℕ :=
  ((lastPage key k l b).find? good).elim b key

/-- The page holds everything below the bound. -/
def First (key : α → ℕ) (k : ℕ) (l : List α) (b : ℕ) : Prop := (below key l b).length ≤ k

/-- Of any `k` elements in a row below a bound, which are not the first ones, one is good. -/
def Dense (key : α → ℕ) (good : α → Bool) (k : ℕ) (l : List α) (b : ℕ) : Prop :=
  ∀ u w v, below key l b = u ++ w ++ v → w.length = k → u ≠ [] → ∃ x ∈ w, good x

/-- What is below an element of a sorted list is what comes before it. -/
theorem below_key (hl : l.Pairwise (key · < key ·)) {u v : List α} {g : α}
    (h : below key l b = u ++ g :: v) : below key l (key g) = u := by
  have hg : key g < b := by
    have hmem : g ∈ below key l b := h ▸ List.mem_append_right u (List.mem_cons_self ..)
    simpa using (List.mem_filter.mp hmem).2
  have hsub : below key l (key g) = (below key l b).filter fun x => key x < key g := by
    rw [below, below, List.filter_filter]
    refine List.filter_congr fun x _ => ?_
    rw [← Bool.decide_and, decide_eq_decide]
    omega
  have hsorted : (u ++ g :: v).Pairwise (key · < key ·) := h ▸ hl.filter _
  obtain ⟨-, hgv, hug⟩ := List.pairwise_append.mp hsorted
  have hu : u.filter (fun x => key x < key g) = u :=
    List.filter_eq_self.mpr fun x hx => decide_eq_true (hug x hx g (List.mem_cons_self ..))
  have hv : (g :: v).filter (fun x => key x < key g) = [] := by
    refine List.filter_eq_nil_iff.mpr fun x hx => ?_
    rcases List.mem_cons.mp hx with rfl | hx
    · simp
    · simpa using (List.rel_of_pairwise_cons hgv hx).le
  rw [hsub, h, List.filter_append, hu, hv, List.append_nil]

/-- **What a page does to the bound.**  It has no good element and the bound stays, or the bound is
now a good element, and what was at or above it is in the page. -/
theorem next_cases (hl : l.Pairwise (key · < key ·)) (good : α → Bool) (k b : ℕ) :
    ((∀ x ∈ lastPage key k l b, good x = false) ∧ nextBound key good k l b = b) ∨
      ∃ u g v, below key l b = u ++ g :: v ∧ good g ∧ g :: v ⊆ lastPage key k l b ∧
        (below key l b).length - k ≤ u.length ∧
        nextBound key good k l b = key g ∧ below key l (nextBound key good k l b) = u := by
  cases hfind : (lastPage key k l b).find? good with
  | none =>
    refine .inl ⟨fun x hx => ?_, ?_⟩
    · simpa using List.find?_eq_none.mp hfind x hx
    · rw [nextBound, hfind]
      rfl
  | some g =>
    obtain ⟨hg, as, bs, hpage, -⟩ := List.find?_eq_some_iff_append.mp hfind
    set pre := (below key l b).take ((below key l b).length - k) with hpre
    have hbelow : below key l b = pre ++ as ++ g :: bs := by
      rw [List.append_assoc, ← hpage, lastPage, List.take_append_drop]
    have hnext : nextBound key good k l b = key g := by
      rw [nextBound, hfind]
      rfl
    refine .inr ⟨pre ++ as, g, bs, hbelow, hg, ?_, ?_, hnext, ?_⟩
    · rw [hpage]
      exact List.subset_append_right _ _
    · rw [List.length_append, hpre, List.length_take]
      omega
    · rw [hnext]
      exact below_key hl hbelow

theorem nextBound_lt_iff (hl : l.Pairwise (key · < key ·)) :
    nextBound key good k l b < b ↔ ∃ x ∈ lastPage key k l b, good x := by
  rcases next_cases hl good k b with ⟨hnone, hnext⟩ | ⟨u, g, v, hbelow, hg, hsub, -, hnext, -⟩
  · rw [hnext]
    refine ⟨fun h => absurd h (lt_irrefl b), fun ⟨x, hx, hgood⟩ => ?_⟩
    rw [hnone x hx] at hgood
    cases hgood
  · have hmem : g ∈ below key l b := hbelow ▸ List.mem_append_right u (List.mem_cons_self ..)
    rw [hnext]
    exact ⟨fun _ => ⟨g, hsub (List.mem_cons_self ..), hg⟩,
      fun _ => by simpa using (List.mem_filter.mp hmem).2⟩

theorem Dense.next (hl : l.Pairwise (key · < key ·)) (h : Dense key good k l b) :
    Dense key good k l (nextBound key good k l b) := by
  rcases next_cases hl good k b with ⟨-, hnext⟩ | ⟨u, g, v, hbelow, -, -, -, -, hlower⟩
  · rw [hnext]
    exact h
  · intro u' w v' heq hlen hne
    refine h u' w (v' ++ g :: v) ?_ hlen hne
    rw [hbelow, ← hlower, heq, List.append_assoc]

/-- A page that leaves something out is a row of `k` elements, and not the first one. -/
theorem Dense.lowers (hl : l.Pairwise (key · < key ·)) (h : Dense key good k l b)
    (hfirst : ¬First key k l b) : nextBound key good k l b < b := by
  rw [First, not_le] at hfirst
  set pre := (below key l b).take ((below key l b).length - k) with hpre
  refine (nextBound_lt_iff hl).mpr (h pre _ [] ?_ ?_ ?_)
  · rw [List.append_nil, lastPage, List.take_append_drop]
  · rw [lastPage, List.length_drop]
    omega
  · rw [hpre, ne_eq, List.take_eq_nil_iff, not_or]
    refine ⟨by omega, fun hnil => ?_⟩
    rw [hnil] at hfirst
    exact absurd hfirst (Nat.not_lt_zero k)

/-- `k` elements in a row that are not good are never passed. -/
theorem stuck_next (hl : l.Pairwise (key · < key ·)) {u w v : List α}
    (h : below key l b = u ++ w ++ v) (hlen : w.length = k) (hbad : ∀ x ∈ w, good x = false) :
    ∃ v', below key l (nextBound key good k l b) = u ++ w ++ v' := by
  rcases next_cases hl good k b with ⟨-, hnext⟩ | ⟨u', g, v', hbelow, hg, -, hle, -, hlower⟩
  · exact ⟨v, by rw [hnext, h]⟩
  · rw [hlower]
    rcases List.append_eq_append_iff.mp (h.symm.trans hbelow) with ⟨c, hc, -⟩ | ⟨c, hc, hgv⟩
    · exact ⟨c, hc⟩
    · cases c with
      | nil => exact ⟨[], by rw [List.append_nil, hc, List.append_nil]⟩
      | cons x c =>
        -- otherwise the good element is among the `k`
        obtain ⟨rfl, -⟩ := List.cons.inj hgv
        have hu : u.length ≤ u'.length := by
          have hlength := congrArg List.length h
          rw [List.length_append, List.length_append] at hlength
          omega
        have hmem : g ∈ w := by
          rcases List.append_eq_append_iff.mp hc with ⟨d, hd, hw⟩ | ⟨d, hd, hw⟩
          · exact hw ▸ List.mem_append_right d (List.mem_cons_self ..)
          · obtain rfl : d = [] := by
              have hlength := congrArg List.length hd
              rw [List.length_append] at hlength
              exact List.length_eq_zero_iff.mp (by omega)
            rw [List.nil_append] at hw
            exact hw ▸ List.mem_cons_self ..
        rw [hbad g hmem] at hg
        cases hg

/-- The bound after a number of pages. -/
def boundAfter (key : α → ℕ) (good : α → Bool) (k : ℕ) (l : List α) (b n : ℕ) : ℕ :=
  (nextBound key good k l)^[n] b

theorem boundAfter_succ (n : ℕ) :
    boundAfter key good k l b (n + 1) = nextBound key good k l (boundAfter key good k l b n) :=
  Function.iterate_succ_apply' ..

theorem Dense.after (hl : l.Pairwise (key · < key ·)) (h : Dense key good k l b) (n : ℕ) :
    Dense key good k l (boundAfter key good k l b n) := by
  induction n with
  | zero => exact h
  | succ n ih =>
    rw [boundAfter_succ]
    exact ih.next hl

/-- **Reading backwards reaches the first page** exactly when good elements are dense. -/
theorem reaches_first_iff (hl : l.Pairwise (key · < key ·)) :
    (∃ n, First key k l (boundAfter key good k l b n)) ↔ Dense key good k l b := by
  constructor
  · rintro ⟨n, hfirst⟩ u w v hbelow hlen hne
    by_contra hbad
    push Not at hbad
    have hpassed : ∃ v', below key l (boundAfter key good k l b n) = u ++ w ++ v' := by
      clear hfirst
      induction n with
      | zero => exact ⟨v, hbelow⟩
      | succ n ih =>
        obtain ⟨v', hv'⟩ := ih
        rw [boundAfter_succ]
        exact stuck_next hl hv' hlen fun x hx => by simpa using hbad x hx
    obtain ⟨v', hv'⟩ := hpassed
    rw [First, hv', List.length_append, List.length_append] at hfirst
    have hpos := List.length_pos_iff.mpr hne
    omega
  · -- the bound cannot go down for ever
    intro hdense
    induction b using Nat.strong_induction_on with
    | _ b ih =>
      by_cases hfirst : First key k l b
      · exact ⟨0, hfirst⟩
      · obtain ⟨n, hn⟩ := ih _ (hdense.lowers hl hfirst) (hdense.next hl)
        exact ⟨n + 1, hn⟩

/-- **Every page is the first or lowers the bound** exactly when good elements are dense. -/
theorem progress_iff (hl : l.Pairwise (key · < key ·)) :
    (∀ n, First key k l (boundAfter key good k l b n) ∨
      boundAfter key good k l b (n + 1) < boundAfter key good k l b n) ↔
      Dense key good k l b := by
  constructor
  · intro h
    refine (reaches_first_iff hl).mp ?_
    by_contra hnever
    push Not at hnever
    have hdown : ∀ n, boundAfter key good k l b n + n ≤ b := by
      intro n
      induction n with
      | zero => exact le_rfl
      | succ n ih =>
        have hlt := (h n).resolve_left (hnever n)
        omega
    have hb := hdown (b + 1)
    omega
  · intro hdense n
    by_cases hfirst : First key k l (boundAfter key good k l b n)
    · exact .inl hfirst
    · rw [boundAfter_succ]
      exact .inr ((hdense.after hl n).lowers hl hfirst)

/-- **No element is left out**: what a page does not hold is still below the next bound. -/
theorem below_or_page (hl : l.Pairwise (key · < key ·)) (good : α → Bool) (k : ℕ) {x : α}
    (hx : x ∈ below key l b) :
    x ∈ below key l (nextBound key good k l b) ∨ x ∈ lastPage key k l b := by
  rcases next_cases hl good k b with ⟨-, hnext⟩ | ⟨u, g, v, heq, -, hsub, -, -, hlower⟩
  · rw [hnext]
    exact .inl hx
  · rw [heq] at hx
    rcases List.mem_append.mp hx with hu | hgv
    · exact .inl (hlower ▸ hu)
    · exact .inr (hsub hgv)

theorem First.lastPage_eq (h : First key k l b) : lastPage key k l b = below key l b := by
  rw [lastPage, Nat.sub_eq_zero_of_le h, List.drop_zero]

/-! ### Forwards -/

def above (key : α → ℕ) (l : List α) (b : ℕ) : List α := l.filter fun x => b < key x

def firstPage (key : α → ℕ) (k : ℕ) (l : List α) (b : ℕ) : List α := (above key l b).take k

theorem above_eq_self (h : ∀ x ∈ l, b < key x) : above key l b = l :=
  List.filter_eq_self.mpr fun x hx => decide_eq_true (h x hx)

/-- What is above an element of a sorted list is what comes after it. -/
theorem above_key (hl : l.Pairwise (key · < key ·)) {u v : List α} {g : α}
    (h : above key l b = u ++ g :: v) : above key l (key g) = v := by
  have hg : b < key g := by
    have hmem : g ∈ above key l b := h ▸ List.mem_append_right u (List.mem_cons_self ..)
    simpa using (List.mem_filter.mp hmem).2
  have hsub : above key l (key g) = (above key l b).filter fun x => key g < key x := by
    rw [above, above, List.filter_filter]
    refine List.filter_congr fun x _ => ?_
    rw [← Bool.decide_and, decide_eq_decide]
    omega
  have hsorted : (u ++ g :: v).Pairwise (key · < key ·) := h ▸ hl.filter _
  obtain ⟨-, hgv, hug⟩ := List.pairwise_append.mp hsorted
  have hu : u.filter (fun x => key g < key x) = [] := by
    refine List.filter_eq_nil_iff.mpr fun x hx => ?_
    simpa using (hug x hx g (List.mem_cons_self ..)).le
  have hv : (g :: v).filter (fun x => key g < key x) = v := by
    rw [List.filter_cons_of_neg (by simp)]
    exact List.filter_eq_self.mpr fun x hx => decide_eq_true (List.rel_of_pairwise_cons hgv hx)
  rw [hsub, h, List.filter_append, hu, hv, List.nil_append]

/-- **Pages follow one another**: above the last element of a page is what the page has left. -/
theorem above_next (hl : l.Pairwise (key · < key ·)) {x : α}
    (h : (firstPage key k l b).getLast? = some x) :
    above key l (key x) = (above key l b).drop k := by
  obtain ⟨u, hu⟩ := List.getLast?_eq_some_iff.mp h
  have hsplit : above key l b = u ++ x :: (above key l b).drop k := by
    rw [List.append_cons, ← hu, firstPage, List.take_append_drop]
  exact above_key hl hsplit

end Paging
