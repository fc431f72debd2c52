import Mathlib

/-!
# JavaScript strings

A string is a list of UTF-16 code units, as the language defines it: `slice` cuts between units
(and so may split a surrogate pair), `<` and the default `sort` compare unit by unit, and a lone
surrogate is a legal string.  Nothing here assumes that a string is well-formed Unicode.
-/

namespace Js

/-- A UTF-16 code unit. -/
abbrev CodeUnit := Fin 65536

/-- A JavaScript string. -/
abbrev Str := List CodeUnit

-- Named, so that every module finds the same proof and not one of its own making.
instance CodeUnit.neZero : NeZero 65536 := ⟨by decide⟩

instance Str.lawfulBEq : LawfulBEq Str := inferInstance

/-- The code units of one character: itself inside the BMP, a surrogate pair outside. -/
def unitsOf (c : Char) : Str :=
  if c.toNat < 0x10000 then [Fin.ofNat 65536 c.toNat]
  else
    let v := c.toNat - 0x10000
    [Fin.ofNat 65536 (0xD800 + v / 0x400), Fin.ofNat 65536 (0xDC00 + v % 0x400)]

/-- The code unit of a character of the BMP. -/
def unit (c : Char) : CodeUnit := Fin.ofNat 65536 c.toNat

/-- A string literal of the source. -/
def lit (s : String) : Str := s.toList.flatMap unitsOf

/-- `WhiteSpace` and `LineTerminator` of the language, the units that `trim` removes. -/
def isSpace (u : CodeUnit) : Bool :=
  (9 ≤ u.val && u.val ≤ 13) || u.val == 0x20 || u.val == 0xA0 || u.val == 0x1680 ||
    (0x2000 ≤ u.val && u.val ≤ 0x200A) || u.val == 0x2028 || u.val == 0x2029 ||
    u.val == 0x202F || u.val == 0x205F || u.val == 0x3000 || u.val == 0xFEFF

/-- `s.trim()`. -/
def trim (s : Str) : Str :=
  ((s.dropWhile isSpace).reverse.dropWhile isSpace).reverse

/-- `s.slice(0, n)`. -/
def slice (s : Str) (n : ℕ) : Str := s.take n

/-- `parts.join(sep)`. -/
def join (sep : Str) : List Str → Str
  | [] => []
  | [s] => s
  | s :: t => s ++ sep ++ join sep t

/-- The code points of a string, each as a string of one or two units: what iterating over it
yields.  A surrogate that is not part of a pair is yielded alone. -/
def codePoints : Str → List Str
  | [] => []
  | [u] => [[u]]
  | u :: v :: t =>
    if 0xD800 ≤ u.val ∧ u.val ≤ 0xDBFF ∧ 0xDC00 ≤ v.val ∧ v.val ≤ 0xDFFF then
      [u, v] :: codePoints t
    else [u] :: codePoints (v :: t)

/-! ### Trimming -/

/-- A string with no white space at either end is its own trim. -/
theorem trim_eq_self {s : Str} (hhead : ∀ u ∈ s.head?, isSpace u = false)
    (hlast : ∀ u ∈ s.getLast?, isSpace u = false) : trim s = s := by
  have hdrop : ∀ t : Str, (∀ u ∈ t.head?, isSpace u = false) → t.dropWhile isSpace = t := by
    intro t ht
    cases t with
    | nil => rfl
    | cons u t => rw [List.dropWhile_cons, ht u (by simp), if_neg (by simp)]
  unfold trim
  rw [hdrop s hhead, hdrop s.reverse (by simpa using hlast), List.reverse_reverse]

/-! ### Cutting a string at a separator -/

/-- Two strings built around a separator that neither left part contains agree part by part. -/
theorem append_cons_inj_of_not_mem {a b c d : Str} {u : CodeUnit} (ha : u ∉ a) (hc : u ∉ c)
    (h : a ++ u :: b = c ++ u :: d) : a = c ∧ b = d := by
  induction a generalizing c with
  | nil =>
    cases c with
    | nil => simpa using h
    | cons v c =>
      simp only [List.nil_append, List.cons_append, List.cons.injEq] at h
      exact absurd (by rw [← h.1]; exact List.mem_cons_self ..) hc
  | cons v a ih =>
    cases c with
    | nil =>
      simp only [List.nil_append, List.cons_append, List.cons.injEq] at h
      exact absurd (by rw [h.1]; exact List.mem_cons_self ..) ha
    | cons w c =>
      simp only [List.cons_append, List.cons.injEq] at h
      obtain ⟨h1, h2⟩ := ih (fun hm => ha (List.mem_cons_of_mem _ hm))
        (fun hm => hc (List.mem_cons_of_mem _ hm)) h.2
      exact ⟨by rw [h.1, h1], h2⟩

/-- The same, cutting at the last separator: the right parts are the ones without it. -/
theorem append_cons_inj_of_not_mem_right {a b c d : Str} {u : CodeUnit} (hb : u ∉ b)
    (hd : u ∉ d) (h : a ++ u :: b = c ++ u :: d) : a = c ∧ b = d := by
  have hrev : b.reverse ++ u :: a.reverse = d.reverse ++ u :: c.reverse := by
    simpa using congrArg List.reverse h
  obtain ⟨h1, h2⟩ := append_cons_inj_of_not_mem (by simpa using hb) (by simpa using hd) hrev
  exact ⟨List.reverse_injective h2, List.reverse_injective h1⟩

end Js
