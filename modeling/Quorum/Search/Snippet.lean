import Quorum.Search

/-!
# The piece of a message that a hit shows

A snippet follows the steps of the source: the first place where a term occurs, the longest term
there, and the cut around it.  Whatever the case mapping does, the three parts of a snippet are a
piece of the collapsed text.

The place is one of the text in lower case, and the cut is made at the same place of the text itself.
If the text before it gains units in lower case, what is cut out stands that much further on in lower
case, and the middle part reads as a term just if one stands there as well (`snippet_shows_iff`).
-/

namespace Quorum.Search

open Js

variable {platform : Platform} {hay src text t : Str} {terms : List Str} {i j k width : ℕ}

/-! ### Cuts -/

theorem cut_append_cut (s : Str) (h : i ≤ j) : cut s i j ++ cut s j k = cut s i (max j k) := by
  unfold cut
  rcases le_total k j with hkj | hjk
  · have hnil : (s.take k).drop j = [] := by
      rw [List.drop_eq_nil_iff, List.length_take]
      omega
    rw [hnil, List.append_nil, max_eq_left hkj]
  · have htake : s.take j = (s.take k).take j := by
      rw [List.take_take, min_eq_left hjk]
    rw [max_eq_right hjk, htake, List.drop_take]
    -- what is left of the text up to `k` from `i` on, split after `j - i` units
    have hsplit := List.take_append_drop (j - i) ((s.take k).drop i)
    rw [List.drop_drop, Nat.add_sub_cancel' h] at hsplit
    exact hsplit

theorem infix_cut (s : Str) (i j : ℕ) : cut s i j <:+: s :=
  (List.drop_suffix i _).isInfix.trans (List.take_prefix j s).isInfix

/-! ### The first place -/

/-- A term occurs at a place. -/
def OccursAt (hay : Str) (terms : List Str) (i : ℕ) : Prop := ∃ t ∈ terms, t <+: hay.drop i

/-- No term occurs before a place where one does. -/
def FirstPlace (hay : Str) (terms : List Str) (i : ℕ) : Prop :=
  OccursAt hay terms i ∧ ∀ j < i, ¬ OccursAt hay terms j

theorem FirstPlace.unique (hi : FirstPlace hay terms i) (hj : FirstPlace hay terms j) : i = j := by
  rcases lt_trichotomy i j with h | h | h
  · exact absurd hi.1 (hj.2 i h)
  · exact h
  · exact absurd hj.1 (hi.2 j h)

theorem infix_iff_exists_drop : t <:+: hay ↔ ∃ i, t <+: hay.drop i := by
  constructor
  · rintro ⟨a, b, rfl⟩
    exact ⟨a.length, b, by simp⟩
  · rintro ⟨i, h⟩
    exact h.isInfix.trans (List.drop_suffix i hay).isInfix

theorem indexOf_eq_some (h : indexOf t hay = some i) :
    t <+: hay.drop i ∧ ∀ j < i, ¬ t <+: hay.drop j := by
  obtain ⟨hi, hbefore⟩ := List.find?_range_eq_some.1 h
  refine ⟨List.isPrefixOf_iff_prefix.1 hi, fun j hj hp => ?_⟩
  have hnot := hbefore.2 j hj
  rw [List.isPrefixOf_iff_prefix.2 hp] at hnot
  contradiction

theorem indexOf_eq_none (h : indexOf t hay = none) (j : ℕ) : ¬ t <+: hay.drop j := by
  intro hp
  rcases Nat.lt_or_ge j (hay.length + 1) with hj | hj
  · have hnot := List.find?_eq_none.1 h j (List.mem_range.2 hj)
    exact hnot (List.isPrefixOf_iff_prefix.2 hp)
  · -- past the end only the empty term is left, and that one is found at the start
    rw [List.drop_eq_nil_of_le (by omega)] at hp
    obtain rfl := List.prefix_nil.1 hp
    exact List.find?_eq_none.1 h 0 (by simp) (by simp)

/-- The earlier of two places is the first one of both. -/
theorem earlier_spec {P Q : ℕ → Prop} {a b : Option ℕ}
    (ha : ∀ i, a = some i → P i ∧ ∀ j < i, ¬ P j) (ha' : a = none → ∀ j, ¬ P j)
    (hb : ∀ i, b = some i → Q i ∧ ∀ j < i, ¬ Q j) (hb' : b = none → ∀ j, ¬ Q j) :
    (∀ i, earlier a b = some i → (P i ∨ Q i) ∧ ∀ j < i, ¬ (P j ∨ Q j)) ∧
      (earlier a b = none → ∀ j, ¬ (P j ∨ Q j)) := by
  cases a with
  | none =>
    cases b with
    | none => exact ⟨by simp [earlier], fun _ j => not_or.2 ⟨ha' rfl j, hb' rfl j⟩⟩
    | some y =>
      refine ⟨fun i h => ?_, by simp [earlier]⟩
      obtain rfl : y = i := Option.some.inj h
      obtain ⟨hy, hbefore⟩ := hb y rfl
      exact ⟨.inr hy, fun j hj => not_or.2 ⟨ha' rfl j, hbefore j hj⟩⟩
  | some x =>
    obtain ⟨hx, hxbefore⟩ := ha x rfl
    cases b with
    | none =>
      refine ⟨fun i h => ?_, by simp [earlier]⟩
      obtain rfl : x = i := Option.some.inj h
      exact ⟨.inl hx, fun j hj => not_or.2 ⟨hxbefore j hj, hb' rfl j⟩⟩
    | some y =>
      obtain ⟨hy, hybefore⟩ := hb y rfl
      by_cases hlt : y < x
      · simp only [earlier, if_pos hlt, Option.some.injEq, reduceCtorEq, false_implies, and_true]
        rintro i rfl
        exact ⟨.inr hy, fun j hj => not_or.2 ⟨hxbefore j (hj.trans hlt), hybefore j hj⟩⟩
      · simp only [earlier, if_neg hlt, Option.some.injEq, reduceCtorEq, false_implies, and_true]
        rintro i rfl
        exact ⟨.inl hx, fun j hj => not_or.2 ⟨hxbefore j hj, hybefore j (by omega)⟩⟩

theorem occursAt_append_singleton :
    OccursAt hay (terms ++ [t]) i ↔ OccursAt hay terms i ∨ t <+: hay.drop i := by
  simp [OccursAt, or_and_right, exists_or]

/-- What `firstHit` finds, by induction on the terms from the last one. -/
theorem firstHit_spec (hay : Str) (terms : List Str) :
    (∀ i, firstHit hay terms = some i → FirstPlace hay terms i) ∧
      (firstHit hay terms = none → ∀ j, ¬ OccursAt hay terms j) := by
  induction terms using List.reverseRecOn with
  | nil => exact ⟨by simp [firstHit], fun _ j => by simp [OccursAt]⟩
  | append_singleton terms t ih =>
    have hfold : firstHit hay (terms ++ [t]) = earlier (firstHit hay terms) (indexOf t hay) := by
      simp [firstHit]
    simp only [FirstPlace, occursAt_append_singleton, hfold]
    exact earlier_spec ih.1 ih.2 (fun i => indexOf_eq_some) indexOf_eq_none

/-! ### The longest term -/

/-- A term that occurs at a place, and no longer one does. -/
def LongestAt (hay : Str) (terms : List Str) (i : ℕ) (t : Str) : Prop :=
  (t ∈ terms ∧ t <+: hay.drop i) ∧ ∀ t' ∈ terms, t' <+: hay.drop i → t'.length ≤ t.length

theorem foldl_longer (ts : List Str) (a : Str) :
    let r := ts.foldl (fun a b => if a.length < b.length then b else a) a
    (r = a ∨ r ∈ ts) ∧ a.length ≤ r.length ∧ ∀ t ∈ ts, t.length ≤ r.length := by
  induction ts generalizing a with
  | nil => simp
  | cons b ts ih =>
    obtain ⟨hmem, hle, hall⟩ := ih (if a.length < b.length then b else a)
    simp only [List.foldl_cons, List.mem_cons, forall_eq_or_imp]
    split at hmem
    case isTrue hlt =>
      rw [if_pos hlt] at hle hall ⊢
      exact ⟨.inr hmem, hlt.le.trans hle, hle, hall⟩
    case isFalse hlt =>
      rw [if_neg hlt] at hle hall ⊢
      exact ⟨hmem.imp_right .inr, hle, (not_lt.1 hlt).trans hle, hall⟩

/-- Two terms at one place of one length are the same, so the longest one is unique. -/
theorem LongestAt.unique {t' : Str} (h : LongestAt hay terms i t) (h' : LongestAt hay terms i t') :
    t = t' := by
  have hlen : t.length = t'.length :=
    le_antisymm (h'.2 t h.1.1 h.1.2) (h.2 t' h'.1.1 h'.1.2)
  exact (List.prefix_of_prefix_length_le h.1.2 h'.1.2 hlen.le).eq_of_length hlen

theorem longestAt_spec (hne : [] ∉ terms) (h : OccursAt hay terms i) :
    LongestAt hay terms i (longestAt hay terms i) := by
  obtain ⟨t, ht, hp⟩ := h
  set ts := terms.filter fun t => t.isPrefixOf (hay.drop i) with hts
  have hmem : ∀ {t'}, t' ∈ ts ↔ t' ∈ terms ∧ t' <+: hay.drop i := by
    simp [hts, List.mem_filter, List.isPrefixOf_iff_prefix]
  obtain ⟨hor, -, hall⟩ := foldl_longer ts []
  change (longestAt hay terms i = [] ∨ longestAt hay terms i ∈ ts) at hor
  change ∀ t ∈ ts, t.length ≤ (longestAt hay terms i).length at hall
  refine ⟨?_, fun t' ht' hp' => hall t' (hmem.2 ⟨ht', hp'⟩)⟩
  rcases hor with hnil | hin
  · -- the start value is never what is left, since a term is not empty
    have hle := hall t (hmem.2 ⟨ht, hp⟩)
    rw [hnil, List.length_nil, Nat.le_zero, List.length_eq_zero_iff] at hle
    exact absurd (hle ▸ ht) hne
  · exact hmem.1 hin

/-! ### What is shown -/

/-- The parts of a snippet without the ellipses that `snippet` adds. -/
def Snippet.Bare (s : Snippet) (before after : Str) : Prop :=
  (s.before = before ∨ s.before = ellipsis :: before ∨ s.before = before ++ [ellipsis]) ∧
    (s.after = after ∨ s.after = after ++ [ellipsis])

/-- Without its ellipses the snippet is a piece of the text. -/
def Snippet.Contiguous (s : Snippet) (src : Str) : Prop :=
  ∃ before after, s.Bare before after ∧ before ++ s.matched ++ after <:+: src

/-- The snippet marks one of the terms. -/
def Snippet.Shows (platform : Platform) (s : Snippet) (terms : List Str) : Prop :=
  s.matched ≠ [] ∧ platform.toLowerCase s.matched ∈ terms

instance decidableShows (platform : Platform) (s : Snippet) (terms : List Str) :
    Decidable (s.Shows platform terms) :=
  inferInstanceAs (Decidable (s.matched ≠ [] ∧ platform.toLowerCase s.matched ∈ terms))

/-- Lower-casing does not look across the ends of a cut: the `n` units at a place become what comes
behind the units before them. -/
def Local (platform : Platform) (src : Str) (i n : ℕ) : Prop :=
  platform.toLowerCase (cut src i (i + n)) <+:
    (platform.toLowerCase src).drop (platform.toLowerCase (src.take i)).length

/-- In lower case, a term stands where the `n` units at a place of the text come to stand, and is as
long as they are then. -/
def LandsOn (platform : Platform) (src : Str) (terms : List Str) (i n : ℕ) : Prop :=
  ∃ t ∈ terms, t <+: (platform.toLowerCase src).drop (platform.toLowerCase (src.take i)).length ∧
    t.length = (platform.toLowerCase (cut src i (i + n))).length

/-- A term that occurs at a place is landed on, if neither the text before it nor the cut gains or
loses units in lower case. -/
theorem landsOn_of_length_eq (ht : t ∈ terms) (hp : t <+: (platform.toLowerCase src).drop i)
    (hbefore : (platform.toLowerCase (src.take i)).length = i)
    (hcut : (platform.toLowerCase (cut src i (i + t.length))).length = t.length) :
    LandsOn platform src terms i t.length :=
  ⟨t, ht, hbefore.symm ▸ hp, hcut.symm⟩

/-- Some term occurs in the text in lower case. -/
def Found (platform : Platform) (src : Str) (terms : List Str) : Prop :=
  ∃ t ∈ terms, t <:+: platform.toLowerCase src

theorem found_iff_exists_occursAt :
    Found platform src terms ↔ ∃ i, OccursAt (platform.toLowerCase src) terms i := by
  simp only [Found, OccursAt, infix_iff_exists_drop]
  constructor
  · rintro ⟨t, ht, i, hp⟩
    exact ⟨i, t, ht, hp⟩
  · rintro ⟨i, t, ht, hp⟩
    exact ⟨t, ht, i, hp⟩

/-- The three cuts around a place are one cut. -/
theorem cuts_infix (src : Str) {start stop n : ℕ} (h : start ≤ i) :
    cut src start i ++ cut src i (i + n) ++ cut src (i + n) stop <:+: src := by
  rw [cut_append_cut src h, max_eq_right (Nat.le_add_right i n),
    cut_append_cut src (h.trans (Nat.le_add_right i n))]
  exact infix_cut src _ _

theorem headOf_contiguous (src : Str) (width : ℕ) : (headOf src width).Contiguous src := by
  unfold headOf
  split
  · refine ⟨src.take width, [], ⟨.inr (.inr rfl), .inl rfl⟩, ?_⟩
    simpa using (List.take_prefix width src).isInfix
  · exact ⟨src, [], ⟨.inl rfl, .inl rfl⟩, by simp⟩

theorem around_contiguous (src hit : Str) (i width : ℕ) :
    (around src hit i width).Contiguous src := by
  let pad := (width - hit.length) / 2
  refine ⟨cut src (i - pad) i, cut src (i + hit.length) (min src.length (i + hit.length + pad)),
    ⟨?_, ?_⟩, cuts_infix src (Nat.sub_le i pad)⟩
  · simp only [around]
    split
    · exact .inr (.inl rfl)
    · exact .inl rfl
  · simp only [around]
    split
    · exact .inr rfl
    · exact .inl (List.append_nil _)

theorem snippet_contiguous (platform : Platform) (text : Str) (terms : List Str) (width : ℕ) :
    (snippet platform text terms width).Contiguous (collapsed text) := by
  unfold snippet
  split
  · exact headOf_contiguous _ _
  · exact around_contiguous _ _ _ _

/-- Where no term occurs, none is marked. -/
theorem found_of_shows (h : (snippet platform text terms width).Shows platform terms) :
    Found platform (collapsed text) terms := by
  obtain ⟨hsome, -⟩ := firstHit_spec (platform.toLowerCase (collapsed text)) terms
  unfold snippet at h
  cases hfirst : firstHit (platform.toLowerCase (collapsed text)) terms with
  | none =>
    rw [hfirst] at h
    exact absurd rfl h.1
  | some i => exact found_iff_exists_occursAt.2 ⟨i, (hsome i hfirst).1⟩

/-- What is marked is cut out at the first place, as long as the longest term there. -/
theorem matched_snippet (hne : [] ∉ terms)
    (hi : FirstPlace (platform.toLowerCase (collapsed text)) terms i)
    (ht : LongestAt (platform.toLowerCase (collapsed text)) terms i t) :
    (snippet platform text terms width).matched = cut (collapsed text) i (i + t.length) := by
  obtain ⟨hsome, hnone⟩ := firstHit_spec (platform.toLowerCase (collapsed text)) terms
  unfold snippet
  cases hfirst : firstHit (platform.toLowerCase (collapsed text)) terms with
  | none => exact absurd hi.1 (hnone hfirst i)
  | some j =>
    obtain rfl := hi.unique (hsome j hfirst)
    change cut _ i (i + (longestAt _ terms i).length) = _
    rw [(longestAt_spec hne hi.1).unique ht]

/-- **When a snippet marks a term.** -/
theorem snippet_shows_iff (hnil : platform.toLowerCase [] = []) (hne : [] ∉ terms)
    (hi : FirstPlace (platform.toLowerCase (collapsed text)) terms i)
    (ht : LongestAt (platform.toLowerCase (collapsed text)) terms i t)
    (hlocal : Local platform (collapsed text) i t.length) :
    (snippet platform text terms width).Shows platform terms ↔
      LandsOn platform (collapsed text) terms i t.length := by
  unfold Snippet.Shows
  rw [matched_snippet hne hi ht]
  constructor
  · rintro ⟨-, hmem⟩
    exact ⟨_, hmem, hlocal, rfl⟩
  · rintro ⟨t', ht', hp, hlen⟩
    -- two pieces of one length at one place are the same
    have heq : t' = platform.toLowerCase (cut (collapsed text) i (i + t.length)) :=
      (List.prefix_of_prefix_length_le hp hlocal hlen.le).eq_of_length hlen
    refine ⟨fun hempty => hne ?_, heq ▸ ht'⟩
    rw [hempty, hnil] at heq
    exact heq ▸ ht'

end Quorum.Search
