import Quorum.Js.Equiv.Number
import Quorum.Js.Text
import Quorum.Js.Unicode

/-!
# Texts of JSON

`Json` is a value of JSON, with the properties of an object in the order they are written, and
`Json.text` what `JSON.stringify` writes for it.  The text ends where it ends (`text_append_inj`): a
string is closed by the first quotation mark that is not escaped, and no unit that may follow a
value occurs in a number.  So a value is known by its text, and as the text is well-formed even
where the strings in it are not, by the bytes of its text as well.

`Json.sorted` lists the properties of every object by name, which makes of all the ways to write a
value one.
-/

namespace Js

/-! ### Strings -/

/-- A code point: one unit, or a pair of surrogates. -/
inductive Point : Str → Prop
  | unit (u : CodeUnit) : Point [u]
  | pair {u v : CodeUnit} (hu : isHigh u = true) (hv : isLow v = true) : Point [u, v]

theorem point_of_mem_codePoints {s c : Str} (h : c ∈ codePoints s) : Point c := by
  fun_induction codePoints s with
  | case1 => cases h
  | case2 u =>
    obtain rfl := List.mem_singleton.mp h
    exact .unit u
  | case3 u v t hpair ih =>
    obtain rfl | h := List.mem_cons.mp h
    · exact .pair (by simpa [isHigh] using ⟨hpair.1, hpair.2.1⟩)
        (by simpa [isLow] using ⟨hpair.2.2.1, hpair.2.2.2⟩)
    · exact ih h
  | case4 u v t hpair ih =>
    obtain rfl | h := List.mem_cons.mp h
    · exact .unit u
    · exact ih h

theorem flatten_codePoints (s : Str) : (codePoints s).flatten = s := by
  fun_induction codePoints s with
  | case1 => rfl
  | case2 u => rfl
  | case3 u v t hpair ih => rw [List.flatten_cons, ih]; rfl
  | case4 u v t hpair ih => rw [List.flatten_cons, ih]; rfl

/-- The unit that a letter after a backslash stands for. -/
def escaped (u : CodeUnit) : CodeUnit :=
  if u = unit 'b' then 8
  else if u = unit 't' then 9
  else if u = unit 'n' then 10
  else if u = unit 'f' then 12
  else if u = unit 'r' then 13
  else u

/-- The value of a digit in base sixteen. -/
def hexVal (u : CodeUnit) : ℕ := if u.val < 58 then u.val - 48 else u.val - 87

/-- The code point a string goes on with, and what follows it; none at the end of the string. -/
def readPoint : Str → Option (Str × Str)
  | [] => none
  | u :: s =>
    if u = unit '"' then none
    else if u = unit '\\' then
      match s with
      | [] => none
      | e :: s =>
        if e = unit 'u' then
          match s with
          | a :: b :: c :: d :: s =>
            some ([Fin.ofNat 65536 (hexVal a * 4096 + hexVal b * 256 + hexVal c * 16 + hexVal d)], s)
          | _ => none
        else some ([escaped e], s)
    else if isHigh u then
      match s with
      | [] => none
      | v :: s => some ([u, v], s)
    else some ([u], s)

theorem hexVal_hexDigit {n : ℕ} (h : n < 16) : hexVal (hexDigit n) = n := by
  revert n
  decide

theorem readPoint_unicodeEscape (u : CodeUnit) (r : Str) :
    readPoint (unicodeEscape u ++ r) = some ([u], r) := by
  have hu := u.isLt
  have hlit : lit "\\u" = [unit '\\', unit 'u'] := by decide
  unfold unicodeEscape
  rw [hlit]
  simp only [List.cons_append, List.nil_append, readPoint]
  rw [if_neg (by decide), if_pos trivial, if_pos trivial, hexVal_hexDigit (by omega),
    hexVal_hexDigit (by omega), hexVal_hexDigit (by omega), hexVal_hexDigit (by omega)]
  have hval : u.val / 4096 * 4096 + u.val / 256 % 16 * 256 + u.val / 16 % 16 * 16 + u.val % 16 =
      u.val := by omega
  rw [hval, ofNat_val]

/-- An escaped code point is read back. -/
theorem readPoint_escape {c : Str} (h : Point c) (r : Str) :
    readPoint (escape c ++ r) = some (c, r) := by
  cases h with
  | unit u =>
    rw [escape]
    split_ifs with h1 h2 h3 h4 h5 h6 h7 h8
    · rw [h1]; rfl
    · rw [h2]; rfl
    · rw [show u = 8 from Fin.ext h3]; rfl
    · rw [show u = 9 from Fin.ext h4]; rfl
    · rw [show u = 10 from Fin.ext h5]; rfl
    · rw [show u = 12 from Fin.ext h6]; rfl
    · rw [show u = 13 from Fin.ext h7]; rfl
    · exact readPoint_unicodeEscape u r
    · have hhigh : isHigh u = false := by
        simp only [isHigh, Bool.and_eq_false_iff, decide_eq_false_iff_not]
        omega
      simp [readPoint, h1, h2, hhigh]
  | @pair u v hu hv =>
    have hval : 0xD800 ≤ u.val := by
      simp only [isHigh, Bool.and_eq_true, decide_eq_true_eq] at hu
      exact hu.1
    have hquote : u ≠ unit '"' := by rintro rfl; exact absurd hval (by decide)
    have hslash : u ≠ unit '\\' := by rintro rfl; exact absurd hval (by decide)
    simp [escape, readPoint, hquote, hslash, hu]

/-- Code points between quotation marks end where they end. -/
theorem flatMap_escape_inj {l l' : List Str} (hl : ∀ c ∈ l, Point c) (hl' : ∀ c ∈ l', Point c)
    {r r' : Str} (h : l.flatMap escape ++ unit '"' :: r = l'.flatMap escape ++ unit '"' :: r') :
    l = l' ∧ r = r' := by
  have hend (r : Str) : readPoint (unit '"' :: r) = none := rfl
  induction l generalizing l' with
  | nil =>
    cases l' with
    | nil => exact ⟨rfl, (List.cons.inj h).2⟩
    | cons c' l' =>
      have hread := readPoint_escape (hl' c' (List.mem_cons_self ..))
        (l'.flatMap escape ++ unit '"' :: r')
      rw [List.flatMap_cons, List.append_assoc] at h
      rw [← h] at hread
      cases (hend r).symm.trans hread
  | cons c l ih =>
    rw [List.forall_mem_cons] at hl
    have hread := readPoint_escape hl.1 (l.flatMap escape ++ unit '"' :: r)
    rw [List.flatMap_cons, List.append_assoc] at h
    cases l' with
    | nil =>
      rw [h] at hread
      cases (hend r').symm.trans hread
    | cons c' l' =>
      rw [List.forall_mem_cons] at hl'
      rw [h, List.flatMap_cons, List.append_assoc, readPoint_escape hl'.1] at hread
      obtain ⟨hc, hrest⟩ := Prod.mk.inj (Option.some.inj hread)
      obtain ⟨htail, hr⟩ := ih hl.2 hl'.2 hrest.symm
      exact ⟨by rw [hc, htail], hr⟩

/-- **A string in quotation marks ends where it ends.** -/
theorem quote_append_inj {s s' r r' : Str} (h : quote s ++ r = quote s' ++ r') :
    s = s' ∧ r = r' := by
  unfold quote at h
  simp only [List.cons_append, List.append_assoc, List.nil_append, List.cons.injEq, true_and] at h
  obtain ⟨hpoints, hr⟩ := flatMap_escape_inj (fun _ => point_of_mem_codePoints)
    (fun _ => point_of_mem_codePoints) h
  exact ⟨by rw [← flatten_codePoints s, hpoints, flatten_codePoints], hr⟩

/-! ### Values -/

/-- A value of JSON, with the properties of an object in the order they are written. -/
inductive Json
  | null
  | bool (b : Bool)
  | num (d : Double)
  | str (s : Str)
  | arr (elems : List Json)
  | obj (props : List (Str × Json))

namespace Json

/-- Induction over the values inside a value. -/
@[elab_as_elim, induction_eliminator]
theorem induct {P : Json → Prop} (null : P null) (bool : ∀ b, P (bool b)) (num : ∀ d, P (num d))
    (str : ∀ s, P (str s)) (arr : ∀ elems, (∀ v ∈ elems, P v) → P (arr elems))
    (obj : ∀ props, (∀ p ∈ props, P (Prod.snd p)) → P (obj props)) (v : Json) : P v :=
  match v with
  | .null => null
  | .bool b => bool b
  | .num d => num d
  | .str s => str s
  | .arr elems => arr elems fun v _ => induct null bool num str arr obj v
  | .obj props => obj props fun p _ => induct null bool num str arr obj p.2
termination_by v
decreasing_by
  · have := List.sizeOf_lt_of_mem ‹_›
    simp
    omega
  · have := List.sizeOf_lt_of_mem ‹_›
    have : sizeOf p.2 < sizeOf p := by cases p; simp
    simp
    omega

mutual

/-- `JSON.stringify`. -/
def text : Json → Str
  | null => lit "null"
  | bool b => if b then lit "true" else lit "false"
  | num d => (Number.fin d).toStr
  | str s => quote s
  | arr elems => lit "[" ++ join (lit ",") (texts elems) ++ lit "]"
  | obj props => lit "\x7b" ++ join (lit ",") (propTexts props) ++ lit "\x7d"

def texts : List Json → List Str
  | [] => []
  | v :: elems => text v :: texts elems

def propTexts : List (Str × Json) → List Str
  | [] => []
  | (k, v) :: props => (quote k ++ lit ":" ++ text v) :: propTexts props

end

/-- A list of texts after the first. -/
def tail (l : List Str) : Str := l.flatMap fun s => unit ',' :: s

theorem join_cons (s : Str) (l : List Str) : join (lit ",") (s :: l) = s ++ tail l := by
  induction l generalizing s with
  | nil => exact (List.append_nil s).symm
  | cons t l ih =>
    rw [join, ih, show lit "," = [unit ','] by decide, List.append_assoc]
    · rfl
    · exact List.cons_ne_nil _ _

/-- What may follow a value: nothing, or a unit that is in no number. -/
def Ends (r : Str) : Prop := ∀ u ∈ r.head?, Number.isNumeric u = false

theorem ends_cons {u : CodeUnit} (h : Number.isNumeric u = false) (r : Str) : Ends (u :: r) := by
  intro v hv
  obtain rfl := Option.some.inj hv
  exact h

theorem ends_tail (l : List Str) {r : Str} (h : Ends r) : Ends (tail l ++ r) := by
  cases l with
  | nil => exact h
  | cons s l => exact ends_cons (by decide) _

theorem isNumeric_of_mem_toStr (d : Double) :
    ∀ u ∈ (Number.fin d).toStr, Number.isNumeric u = true := by
  have hunit (c : Char) (hc : Number.isNumeric (unit c) = true) :
      ∀ u ∈ [unit c], Number.isNumeric u = true := by
    simpa using hc
  rw [Number.toStr]
  split_ifs
  · exact hunit '0' (by decide)
  · rw [List.forall_mem_append]
    exact ⟨hunit '-' (by decide), Number.isNumeric_of_mem_format _ _⟩
  · exact Number.isNumeric_of_mem_format _ _

/-- A number ends where it ends. -/
theorem toStr_append_inj {d d' : Double} {r r' : Str} (hr : Ends r) (hr' : Ends r')
    (h : (Number.fin d).toStr ++ r = (Number.fin d').toStr ++ r') : d = d' ∧ r = r' := by
  have htake {d : Double} {r : Str} (hr : Ends r) :
      ((Number.fin d).toStr ++ r).takeWhile Number.isNumeric = (Number.fin d).toStr := by
    rw [List.takeWhile_append_of_pos (isNumeric_of_mem_toStr d)]
    cases r with
    | nil => exact List.append_nil _
    | cons u r =>
      rw [List.takeWhile_cons, hr u rfl]
      exact List.append_nil _
  have hstr : (Number.fin d).toStr = (Number.fin d').toStr := by
    rw [← htake hr, h, htake hr']
  refine ⟨Number.fin.inj (Number.toStr_injective hstr), ?_⟩
  rw [hstr] at h
  exact List.append_cancel_left h

/-- What the first unit of a text tells. -/
inductive Kind
  | null
  | bool (b : Bool)
  | num
  | str
  | arr
  | obj
deriving DecidableEq

def kind : Json → Kind
  | null => .null
  | bool b => .bool b
  | num _ => .num
  | str _ => .str
  | arr _ => .arr
  | obj _ => .obj

/-- The kind of a value by the first unit of its text. -/
def kindOf (u : CodeUnit) : Option Kind :=
  if Number.isNumeric u then some .num
  else if u = unit 'n' then some .null
  else if u = unit 't' then some (.bool true)
  else if u = unit 'f' then some (.bool false)
  else if u = unit '"' then some .str
  else if u = unit '[' then some .arr
  else if u = unit '\x7b' then some .obj
  else none

theorem toStr_ne_nil (d : Double) : (Number.fin d).toStr ≠ [] := by
  have hpos {q : ℚ} (hq : IsDouble q) (h : 0 < q) : Number.formatPos q ≠ [] := by
    obtain ⟨u, t, hformat, -⟩ := Number.exists_format_eq_cons (Number.shortest_ne_zero hq h)
      (Number.shortest q).2
    rw [Number.formatPos, hformat]
    exact List.cons_ne_nil _ _
  rw [Number.toStr]
  split_ifs with h0 hneg
  · decide
  · exact List.append_ne_nil_of_left_ne_nil (by decide) _
  · exact hpos d.isDouble (lt_of_le_of_ne (not_lt.mp hneg) (Ne.symm h0))

theorem exists_text_eq_cons (v : Json) : ∃ u t, v.text = u :: t ∧ kindOf u = some v.kind := by
  cases v with
  | null => exact ⟨unit 'n', lit "ull", rfl, show _ = some Kind.null by decide⟩
  | bool b =>
    cases b with
    | true => exact ⟨unit 't', lit "rue", rfl, show _ = some (Kind.bool true) by decide⟩
    | false => exact ⟨unit 'f', lit "alse", rfl, show _ = some (Kind.bool false) by decide⟩
  | num d =>
    obtain ⟨u, t, htext⟩ := List.exists_cons_of_ne_nil (toStr_ne_nil d)
    refine ⟨u, t, htext, if_pos (isNumeric_of_mem_toStr d u ?_)⟩
    rw [htext]
    exact List.mem_cons_self ..
  | str s => exact ⟨unit '"', _, rfl, show _ = some Kind.str by decide⟩
  | arr elems => exact ⟨unit '[', _, rfl, show _ = some Kind.arr by decide⟩
  | obj props => exact ⟨unit '\x7b', _, rfl, show _ = some Kind.obj by decide⟩

theorem kind_eq {v w : Json} {r r' : Str} (h : v.text ++ r = w.text ++ r') : v.kind = w.kind := by
  obtain ⟨u, t, hv, hu⟩ := exists_text_eq_cons v
  obtain ⟨u', t', hw, hu'⟩ := exists_text_eq_cons w
  rw [hv, hw, List.cons_append, List.cons_append, List.cons.injEq] at h
  exact Option.some.inj (by rw [← hu, ← hu', h.1])

theorem texts_eq (elems : List Json) : texts elems = elems.map text := by
  induction elems with
  | nil => rfl
  | cons v elems ih => rw [texts, ih, List.map_cons]

theorem propTexts_eq (props : List (Str × Json)) :
    propTexts props = props.map fun p => quote p.1 ++ lit ":" ++ p.2.text := by
  induction props with
  | nil => rfl
  | cons p props ih => rw [propTexts, ih, List.map_cons]

section

variable {α : Type} {f : α → Str} {close : CodeUnit}

/-- A list of items in brackets. -/
def listed (f : α → Str) (close : CodeUnit) (l : List α) : Str :=
  join (lit ",") (l.map f) ++ [close]

/-- The items after the first end where they end, if each of them does. -/
theorem tail_append_inj (hclose : Number.isNumeric close = false) (hcomma : close ≠ unit ',')
    {l l' : List α} (hitem : ∀ a ∈ l, ∀ b r r', Ends r → Ends r' → f a ++ r = f b ++ r' →
      a = b ∧ r = r') {r r' : Str}
    (h : tail (l.map f) ++ close :: r = tail (l'.map f) ++ close :: r') : l = l' ∧ r = r' := by
  induction l generalizing l' with
  | nil =>
    cases l' with
    | nil => exact ⟨rfl, (List.cons.inj h).2⟩
    | cons b l' => exact absurd (List.cons.inj h).1 hcomma
  | cons a l ih =>
    cases l' with
    | nil => exact absurd (List.cons.inj h).1.symm hcomma
    | cons b l' =>
      rw [List.forall_mem_cons] at hitem
      have hrest : f a ++ (tail (l.map f) ++ close :: r) =
          f b ++ (tail (l'.map f) ++ close :: r') := by
        simpa [tail] using h
      obtain ⟨hab, hrest⟩ := hitem.1 b _ _ (ends_tail _ (ends_cons hclose r))
        (ends_tail _ (ends_cons hclose r')) hrest
      obtain ⟨hl, hr⟩ := ih hitem.2 hrest
      exact ⟨by rw [hab, hl], hr⟩

/-- A list in brackets ends where it ends. -/
theorem listed_append_inj (hclose : Number.isNumeric close = false) (hcomma : close ≠ unit ',')
    {l l' : List α} (hitem : ∀ a ∈ l, ∀ b r r', Ends r → Ends r' → f a ++ r = f b ++ r' →
      a = b ∧ r = r') (hhead : ∀ a, (f a).head? ≠ some close ∧ f a ≠ []) {r r' : Str}
    (h : listed f close l ++ r = listed f close l' ++ r') : l = l' ∧ r = r' := by
  have hcons (a : α) (l : List α) (r : Str) :
      listed f close (a :: l) ++ r = f a ++ (tail (l.map f) ++ close :: r) := by
    rw [listed, List.map_cons, join_cons]
    simp
  have hne (a : α) (l : List α) (r r' : Str) : close :: r ≠ listed f close (a :: l) ++ r' := by
    obtain ⟨hclose, hne⟩ := hhead a
    obtain ⟨u, t, hfa⟩ := List.exists_cons_of_ne_nil hne
    rw [hcons, hfa]
    intro heq
    rw [hfa, (List.cons.inj heq).1] at hclose
    exact hclose rfl
  cases l with
  | nil =>
    cases l' with
    | nil => exact ⟨rfl, (List.cons.inj h).2⟩
    | cons b l' => exact absurd h (hne b l' r r')
  | cons a l =>
    cases l' with
    | nil => exact absurd h.symm (hne a l r' r)
    | cons b l' =>
      rw [hcons, hcons] at h
      rw [List.forall_mem_cons] at hitem
      obtain ⟨hab, hrest⟩ := hitem.1 b _ _ (ends_tail _ (ends_cons hclose r))
        (ends_tail _ (ends_cons hclose r')) h
      obtain ⟨hl, hr⟩ := tail_append_inj hclose hcomma hitem.2 hrest
      exact ⟨by rw [hab, hl], hr⟩

end

theorem text_arr (elems : List Json) : (arr elems).text = unit '[' :: listed text (unit ']') elems := by
  rw [text, texts_eq]
  rfl

def propText (p : Str × Json) : Str := quote p.1 ++ lit ":" ++ p.2.text

theorem text_obj (props : List (Str × Json)) :
    (obj props).text = unit '\x7b' :: listed propText (unit '\x7d') props := by
  rw [text, propTexts_eq]
  rfl

theorem head_text (v : Json) : v.text.head? ≠ some (unit ']') ∧ v.text ≠ [] := by
  obtain ⟨u, t, htext, hkind⟩ := exists_text_eq_cons v
  rw [htext]
  refine ⟨?_, List.cons_ne_nil _ _⟩
  intro heq
  obtain rfl := Option.some.inj heq
  have hnone : kindOf (unit ']') = none := by decide
  rw [hnone] at hkind
  cases hkind

theorem propText_append_inj {p q : Str × Json} {r r' : Str} (hr : Ends r) (hr' : Ends r')
    (hvalue : ∀ w r r', Ends r → Ends r' → p.2.text ++ r = w.text ++ r' → p.2 = w ∧ r = r')
    (h : propText p ++ r = propText q ++ r') : p = q ∧ r = r' := by
  unfold propText at h
  rw [List.append_assoc, List.append_assoc, List.append_assoc, List.append_assoc] at h
  obtain ⟨hkey, h⟩ := quote_append_inj h
  obtain ⟨hval, hrest⟩ := hvalue q.2 r r' hr hr' (List.append_cancel_left h)
  exact ⟨Prod.ext hkey hval, hrest⟩

/-- **The text of a value ends where it ends.** -/
theorem text_append_inj (v w : Json) (r r' : Str) (hr : Ends r) (hr' : Ends r')
    (h : v.text ++ r = w.text ++ r') : v = w ∧ r = r' := by
  induction v generalizing w r r' with
  | null =>
    cases w with
    | null => exact ⟨rfl, List.append_cancel_left h⟩
    | _ => cases kind_eq h
  | bool b =>
    cases w with
    | bool b' =>
      obtain rfl := Kind.bool.inj (kind_eq h)
      exact ⟨rfl, List.append_cancel_left h⟩
    | _ => cases kind_eq h
  | num d =>
    cases w with
    | num d' =>
      obtain ⟨rfl, hrest⟩ := toStr_append_inj hr hr' h
      exact ⟨rfl, hrest⟩
    | _ => cases kind_eq h
  | str s =>
    cases w with
    | str s' =>
      obtain ⟨rfl, hrest⟩ := quote_append_inj h
      exact ⟨rfl, hrest⟩
    | _ => cases kind_eq h
  | arr elems ih =>
    cases w with
    | arr elems' =>
      rw [text_arr, text_arr] at h
      obtain ⟨rfl, hrest⟩ :=
        listed_append_inj (by decide) (by decide) ih head_text (List.cons.inj h).2
      exact ⟨rfl, hrest⟩
    | _ => cases kind_eq h
  | obj props ih =>
    cases w with
    | obj props' =>
      rw [text_obj, text_obj] at h
      obtain ⟨rfl, hrest⟩ := listed_append_inj (by decide) (by decide)
        (fun p hp q r r' hr hr' => propText_append_inj hr hr' (ih p hp))
        (fun p => ⟨show some (unit '"') ≠ _ by decide, List.cons_ne_nil _ _⟩) (List.cons.inj h).2
      exact ⟨rfl, hrest⟩
    | _ => cases kind_eq h

/-- A value is known by its text. -/
theorem text_injective : Function.Injective text := by
  intro v w h
  have hends : Ends [] := fun u hu => by cases hu
  exact (text_append_inj v w [] [] hends hends (by rw [h])).1

/-! ### Texts are well-formed -/

/-- Units of ASCII. -/
theorem wellFormed_of_lt {s : Str} (h : ∀ u ∈ s, u.val < 128) : WellFormed s := by
  refine .of_forall fun u hu => ?_
  have := h u hu
  constructor <;> simp only [isHigh, isLow, Bool.and_eq_false_iff, decide_eq_false_iff_not] <;> omega

theorem hexDigit_lt {n : ℕ} (h : n < 16) : (hexDigit n).val < 128 := by
  revert n
  decide

theorem wellFormed_unicodeEscape (u : CodeUnit) : WellFormed (unicodeEscape u) := by
  have hu := u.isLt
  refine wellFormed_of_lt ?_
  rw [unicodeEscape, show lit "\\u" = [unit '\\', unit 'u'] by decide]
  simp only [List.cons_append, List.nil_append, List.forall_mem_cons, List.not_mem_nil,
    false_implies, implies_true, and_true]
  exact ⟨by decide, by decide, hexDigit_lt (by omega), hexDigit_lt (by omega),
    hexDigit_lt (by omega), hexDigit_lt (by omega)⟩

theorem wellFormed_escape {c : Str} (h : Point c) : WellFormed (escape c) := by
  have hshort (c : Char) (hc : isHigh (unit c) = false ∧ isLow (unit c) = false) :
      WellFormed [unit '\\', unit c] :=
    .unit (by decide) (by decide) (.unit hc.1 hc.2 .nil)
  cases h with
  | unit u =>
    rw [escape]
    split_ifs with h1 h2 h3 h4 h5 h6 h7 h8
    · exact hshort '"' (by decide)
    · exact hshort '\\' (by decide)
    · exact hshort 'b' (by decide)
    · exact hshort 't' (by decide)
    · exact hshort 'n' (by decide)
    · exact hshort 'f' (by decide)
    · exact hshort 'r' (by decide)
    · exact wellFormed_unicodeEscape u
    · refine .unit ?_ ?_ .nil <;>
        simp only [isHigh, isLow, Bool.and_eq_false_iff, decide_eq_false_iff_not] <;> omega
  | pair hu hv => exact .pair hu hv .nil

theorem wellFormed_flatMap {α : Type} {f : α → Str} {l : List α}
    (h : ∀ a ∈ l, WellFormed (f a)) : WellFormed (l.flatMap f) := by
  induction l with
  | nil => exact .nil
  | cons a l ih =>
    rw [List.forall_mem_cons] at h
    exact h.1.append (ih h.2)

theorem wellFormed_quote (s : Str) : WellFormed (quote s) := by
  have hpoints : WellFormed ((codePoints s).flatMap escape) :=
    wellFormed_flatMap fun _ hc => wellFormed_escape (point_of_mem_codePoints hc)
  exact .unit (by decide) (by decide) (hpoints.append (.unit (by decide) (by decide) .nil))

theorem lt_of_isNumeric {u : CodeUnit} (h : Number.isNumeric u = true) : u.val < 128 := by
  simp only [Number.isNumeric, Number.isDigit, Bool.or_eq_true, Bool.and_eq_true,
    decide_eq_true_eq] at h
  obtain (((h | rfl) | rfl) | rfl) | rfl := h
  · omega
  all_goals decide

theorem wellFormed_toStr (d : Double) : WellFormed (Number.fin d).toStr :=
  wellFormed_of_lt fun u hu => lt_of_isNumeric (isNumeric_of_mem_toStr d u hu)

theorem wellFormed_listed {α : Type} {f : α → Str} {close : CodeUnit} {l : List α}
    (hclose : isHigh close = false ∧ isLow close = false) (h : ∀ a ∈ l, WellFormed (f a)) :
    WellFormed (listed f close l) := by
  refine WellFormed.append ?_ (.unit hclose.1 hclose.2 .nil)
  cases l with
  | nil => exact .nil
  | cons a l =>
    rw [List.forall_mem_cons] at h
    rw [List.map_cons, join_cons, tail, List.flatMap_map]
    exact h.1.append (wellFormed_flatMap fun b hb => .unit (by decide) (by decide) (h.2 b hb))

theorem wellFormed_text (v : Json) : WellFormed v.text := by
  have hword (s : Str) (hs : s.all (fun u => u.val < 128) = true) : WellFormed s :=
    wellFormed_of_lt fun u hu => by simpa using List.all_eq_true.mp hs u hu
  induction v with
  | null => exact hword (lit "null") (by decide)
  | bool b =>
    cases b with
    | true => exact hword (lit "true") (by decide)
    | false => exact hword (lit "false") (by decide)
  | num d => exact wellFormed_toStr d
  | str s => exact wellFormed_quote s
  | arr elems ih =>
    rw [text_arr]
    exact .unit (by decide) (by decide) (wellFormed_listed (by decide) ih)
  | obj props ih =>
    rw [text_obj]
    refine .unit (by decide) (by decide) (wellFormed_listed (by decide) fun p hp => ?_)
    exact ((wellFormed_quote p.1).append (.unit (by decide) (by decide) .nil)).append (ih p hp)

/-! ### The order of properties -/

mutual

/-- A value with the properties of every object by name. -/
def sorted : Json → Json
  | arr elems => arr (sortedElems elems)
  | obj props => obj ((sortedProps props).insertionSort fun p q => p.1 ≤ q.1)
  | v => v

def sortedElems : List Json → List Json
  | [] => []
  | v :: elems => sorted v :: sortedElems elems

def sortedProps : List (Str × Json) → List (Str × Json)
  | [] => []
  | (k, v) :: props => (k, sorted v) :: sortedProps props

end

theorem sortedElems_eq (elems : List Json) : sortedElems elems = elems.map sorted := by
  induction elems with
  | nil => rfl
  | cons v elems ih => rw [sortedElems, ih, List.map_cons]

theorem sortedProps_eq (props : List (Str × Json)) :
    sortedProps props = props.map fun p => (p.1, p.2.sorted) := by
  induction props with
  | nil => rfl
  | cons p props ih => rw [sortedProps, ih, List.map_cons]

/-- No object has two properties of one name. -/
inductive Distinct : Json → Prop
  | null : Distinct null
  | bool (b : Bool) : Distinct (bool b)
  | num (d : Double) : Distinct (num d)
  | str (s : Str) : Distinct (str s)
  | arr {elems : List Json} (h : ∀ v ∈ elems, Distinct v) : Distinct (arr elems)
  | obj {props : List (Str × Json)} (hnodup : (props.map Prod.fst).Nodup)
      (h : ∀ p ∈ props, Distinct p.2) : Distinct (obj props)

/-- Properties in another order are sorted to the same. -/
theorem insertionSort_eq_of_perm {props props' : List (Str × Json)} (h : props.Perm props')
    (hnodup : (props.map Prod.fst).Nodup) :
    props.insertionSort (fun p q => p.1 ≤ q.1) = props'.insertionSort fun p q => p.1 ≤ q.1 := by
  have hperm := ((List.perm_insertionSort (fun p q => p.1 ≤ q.1) props).trans h).trans
    (List.perm_insertionSort (fun p q => p.1 ≤ q.1) props').symm
  refine hperm.eq_of_pairwise ?_ (List.pairwise_insertionSort _ _) (List.pairwise_insertionSort _ _)
  intro p q hp hq hpq hqp
  rw [List.mem_insertionSort] at hp hq
  exact List.inj_on_of_nodup_map hnodup hp (h.mem_iff.mpr hq) (le_antisymm hpq hqp)

end Json

/-! ### Values of the language -/

mutual

/-- The value of JSON that `JSON.stringify` writes for data: what JSON cannot say is null, and a
property that is undefined is left out. -/
def Value.json : Value → Json
  | .undefined => .null
  | .null => .null
  | .bool b => .bool b
  | .num x => match x with
    | .fin d => .num d
    | _ => .null
  | .str s => .str s
  | .arr _ elems => .arr (jsonElems elems)
  | .obj _ props => .obj (jsonProps props)
  -- a function is no data
  | .native _ => .null

def jsonElems : List Value → List Json
  | [] => []
  | v :: elems => v.json :: jsonElems elems

def jsonProps : List (Str × Value) → List (Str × Json)
  | [] => []
  | (k, v) :: props => if v.isUndefined then jsonProps props else (k, v.json) :: jsonProps props

end

theorem jsonElems_eq (elems : List Value) : jsonElems elems = elems.map Value.json := by
  induction elems with
  | nil => rfl
  | cons v elems ih => rw [jsonElems, ih, List.map_cons]

theorem jsonProps_eq (props : List (Str × Value)) :
    jsonProps props = (props.filter fun p => !p.2.isUndefined).map fun p => (p.1, p.2.json) := by
  induction props with
  | nil => rfl
  | cons p props ih =>
    rw [jsonProps, ih, List.filter_cons]
    cases p.2.isUndefined <;> rfl

/-- Data: no functions, and no two properties of one name. -/
inductive Data : Value → Prop
  | undefined : Data .undefined
  | null : Data .null
  | bool (b : Bool) : Data (.bool b)
  | num (x : Number) : Data (.num x)
  | str (s : Str) : Data (.str s)
  | arr (ref : ℕ) {elems : List Value} (h : ∀ v ∈ elems, Data v) : Data (.arr ref elems)
  | obj (ref : ℕ) {props : List (Str × Value)} (hnodup : (props.map Prod.fst).Nodup)
      (h : ∀ p ∈ props, Data p.2) : Data (.obj ref props)

/-- The same data with the properties of some objects in another order. -/
inductive Reordered : Value → Value → Prop
  | refl (v : Value) : Reordered v v
  | trans {v w x : Value} (h : Reordered v w) (h' : Reordered w x) : Reordered v x
  | perm (ref ref' : ℕ) {props props' : List (Str × Value)} (h : props.Perm props')
      (hnodup : (props.map Prod.fst).Nodup) : Reordered (.obj ref props) (.obj ref' props')
  | elem (ref : ℕ) {v w : Value} (l l' : List Value) (h : Reordered v w) :
      Reordered (.arr ref (l ++ v :: l')) (.arr ref (l ++ w :: l'))
  | prop (ref : ℕ) (k : Str) {v w : Value} (l l' : List (Str × Value)) (h : Reordered v w) :
      Reordered (.obj ref (l ++ (k, v) :: l')) (.obj ref (l ++ (k, w) :: l'))

/-- The properties of an object that are written, as JSON and sorted inside. -/
def written (props : List (Str × Value)) : List (Str × Json) :=
  (props.filter fun p => !p.2.isUndefined).map fun p => (p.1, p.2.json.sorted)

theorem sorted_json_arr (ref : ℕ) (elems : List Value) :
    (Value.arr ref elems).json.sorted = .arr (elems.map fun v => v.json.sorted) := by
  rw [Value.json, Json.sorted, jsonElems_eq, Json.sortedElems_eq, List.map_map]
  rfl

theorem sorted_json_obj (ref : ℕ) (props : List (Str × Value)) :
    (Value.obj ref props).json.sorted =
      .obj ((written props).insertionSort fun p q => p.1 ≤ q.1) := by
  rw [Value.json, Json.sorted, jsonProps_eq, Json.sortedProps_eq, List.map_map]
  rfl

theorem keys_written (props : List (Str × Value)) :
    ((written props).map Prod.fst).Sublist (props.map Prod.fst) := by
  unfold written
  rw [List.map_map]
  exact List.filter_sublist.map _

/-- **The order of properties is no part of a value of JSON.** -/
theorem Reordered.sorted_json {v w : Value} (h : Reordered v w) :
    v.json.sorted = w.json.sorted ∧ v.isUndefined = w.isUndefined := by
  induction h with
  | refl v => exact ⟨rfl, rfl⟩
  | trans _ _ ih ih' => exact ⟨ih.1.trans ih'.1, ih.2.trans ih'.2⟩
  | perm ref ref' h hnodup =>
    refine ⟨?_, rfl⟩
    rw [sorted_json_obj, sorted_json_obj]
    exact congrArg Json.obj (Json.insertionSort_eq_of_perm ((h.filter _).map _)
      (hnodup.sublist (keys_written _)))
  | elem ref l l' _ ih =>
    refine ⟨?_, rfl⟩
    rw [sorted_json_arr, sorted_json_arr, List.map_append, List.map_append, List.map_cons,
      List.map_cons, ih.1]
  | prop ref k l l' _ ih =>
    refine ⟨?_, rfl⟩
    rw [sorted_json_obj, sorted_json_obj]
    congr 2
    unfold written
    rw [List.filter_append, List.filter_append, List.filter_cons, List.filter_cons, ih.2]
    split
    · rw [List.map_append, List.map_append, List.map_cons, List.map_cons, ih.1]
    · rfl

theorem Data.json {v : Value} (h : Data v) : v.json.Distinct := by
  induction h with
  | undefined => exact .null
  | null => exact .null
  | bool b => exact .bool b
  | num x =>
    cases x with
    | fin d => exact .num d
    | _ => exact .null
  | str s => exact .str s
  | arr ref _ ih =>
    rw [Value.json, jsonElems_eq]
    refine .arr fun j hj => ?_
    obtain ⟨v, hv, rfl⟩ := List.mem_map.mp hj
    exact ih v hv
  | obj ref hnodup _ ih =>
    rw [Value.json, jsonProps_eq]
    refine .obj ?_ fun q hq => ?_
    · rw [List.map_map]
      exact hnodup.sublist (List.filter_sublist.map _)
    · obtain ⟨p, hp, rfl⟩ := List.mem_map.mp hq
      exact ih p (List.mem_of_mem_filter hp)

/-! ### Values as they are parsed -/

/-- A value of JSON is that of some data. -/
theorem Json.Distinct.exists_value {j : Json} (h : j.Distinct) :
    ∃ v : Value, Data v ∧ v.json = j ∧ v.isUndefined = false := by
  induction h with
  | null => exact ⟨.null, .null, rfl, rfl⟩
  | bool b => exact ⟨.bool b, .bool b, rfl, rfl⟩
  | num d => exact ⟨.num (.fin d), .num _, rfl, rfl⟩
  | str s => exact ⟨.str s, .str s, rfl, rfl⟩
  | @arr elems _ ih =>
    choose! f hdata hjson _ using ih
    refine ⟨.arr 0 (elems.map f), .arr 0 (List.forall_mem_map.mpr hdata), ?_, rfl⟩
    rw [Value.json, jsonElems_eq, List.map_map]
    exact congrArg Json.arr ((List.map_congr_left hjson).trans (List.map_id elems))
  | @obj props hnodup _ ih =>
    choose! f hdata hjson hdefined using ih
    refine ⟨.obj 0 (props.map fun p => (p.1, f p)), .obj 0 ?_ (List.forall_mem_map.mpr hdata), ?_,
      rfl⟩
    · rwa [List.map_map]
    · rw [Value.json, jsonProps_eq, List.filter_eq_self.mpr, List.map_map]
      · refine congrArg Json.obj ((List.map_congr_left fun p hp => ?_).trans (List.map_id props))
        exact Prod.ext rfl (hjson p hp)
      · exact List.forall_mem_map.mpr fun p hp => by simp [hdefined p hp]

end Js
