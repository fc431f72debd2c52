import Quorum.Js.Str

/-!
# JavaScript numbers

A number is NaN, an infinity or a finite IEEE 754 double.  A finite double is kept as the rational
it denotes together with the proof that it is one (`IsDouble`), so that comparison is the order of
`ℚ` and rounding happens only where the language rounds: in `ofRat`, which every conversion and
every arithmetic operation goes through.  The two zeros are one value here; nothing below can tell
them apart.

`toStr` is the language's `Number::toString` (the fewest digits that read back as the same
double) and `ofStr` its `StringToNumber`.  That one inverts the other is proved in
`Quorum.Js.Equiv.Number`.
-/

namespace Js

/-! ### Rounding to a double -/

/-- Round half to even. -/
def roundEven (x : ℚ) : ℤ :=
  if x - ⌊x⌋ < 1 / 2 then ⌊x⌋
  else if 1 / 2 < x - ⌊x⌋ then ⌊x⌋ + 1
  else if ⌊x⌋ % 2 = 0 then ⌊x⌋ else ⌊x⌋ + 1

/-- The exponent of the last place of the double nearest to `q`. -/
def quantum (q : ℚ) : ℤ := max (Int.log 2 |q| - 52) (-1074)

/-- `q` rounded to 53 significant bits, or to a multiple of `2 ^ (-1074)` below the normal range. -/
def roundVal (q : ℚ) : ℚ := roundEven (q / 2 ^ quantum q) * 2 ^ quantum q

/-- `q` is the value of a finite double. -/
def IsDouble (q : ℚ) : Prop :=
  ∃ m e : ℤ, q = m * 2 ^ e ∧ |m| < 2 ^ 53 ∧ -1074 ≤ e ∧ e ≤ 971

theorem isDouble_zero : IsDouble 0 := ⟨0, 0, by simp, by simp, by norm_num, by norm_num⟩

/-- Rounding moves a number by at most one half. -/
theorem abs_roundEven_sub_le (x : ℚ) : |(roundEven x : ℚ) - x| ≤ 1 / 2 := by
  have hlo := Int.floor_le x
  have hhi := Int.lt_floor_add_one x
  unfold roundEven
  split_ifs <;> push_cast <;> rw [abs_le] <;> constructor <;> linarith

@[simp] theorem roundEven_intCast (k : ℤ) : roundEven (k : ℚ) = k := by simp [roundEven]

/-- The scaled significand stays below `2 ^ 53`. -/
theorem abs_div_quantum_lt (q : ℚ) : |q / 2 ^ quantum q| < 2 ^ 53 := by
  have hpos : (0 : ℚ) < 2 ^ quantum q := zpow_pos (by norm_num) _
  rw [abs_div, abs_of_pos hpos, div_lt_iff₀ hpos]
  have hlog : |q| < 2 ^ (Int.log 2 |q| + 1) := Int.lt_zpow_succ_log_self (by norm_num) _
  have hexp : Int.log 2 |q| + 1 ≤ 53 + quantum q := by unfold quantum; omega
  calc |q| < 2 ^ (Int.log 2 |q| + 1) := hlog
    _ ≤ 2 ^ (53 + quantum q) := zpow_le_zpow_right₀ (by norm_num) hexp
    _ = 2 ^ 53 * 2 ^ quantum q := by rw [zpow_add₀ (by norm_num)]; norm_num

theorem abs_roundEven_quantum_le (q : ℚ) : |roundEven (q / 2 ^ quantum q)| ≤ 2 ^ 53 := by
  have h1 := abs_div_quantum_lt q
  have h2 := abs_roundEven_sub_le (q / 2 ^ quantum q)
  set m := roundEven (q / 2 ^ quantum q)
  have h3 : |(m : ℚ)| < 2 ^ 53 + 1 := by
    have := abs_add_le ((m : ℚ) - q / 2 ^ quantum q) (q / 2 ^ quantum q)
    rw [sub_add_cancel] at this
    linarith
  have h4 : |m| < 2 ^ 53 + 1 := by exact_mod_cast h3
  omega

/-- In the normal range the rounded significand keeps all 53 bits. -/
theorem le_abs_roundEven_quantum {q : ℚ} (hq : q ≠ 0) (hn : -1074 < quantum q) :
    2 ^ 52 ≤ |roundEven (q / 2 ^ quantum q)| := by
  have hpos : (0 : ℚ) < 2 ^ quantum q := zpow_pos (by norm_num) _
  have hquant : quantum q = Int.log 2 |q| - 52 := by unfold quantum at hn ⊢; omega
  have h1 : (2 : ℚ) ^ 52 ≤ |q / 2 ^ quantum q| := by
    rw [abs_div, abs_of_pos hpos, le_div_iff₀ hpos]
    calc (2 : ℚ) ^ 52 * 2 ^ quantum q = 2 ^ (Int.log 2 |q|) := by
          rw [hquant, ← zpow_natCast, ← zpow_add₀ (by norm_num)]; congr 1; push_cast; ring
      _ ≤ |q| := Int.zpow_log_le_self (by norm_num) (abs_pos.mpr hq)
  have h2 := abs_roundEven_sub_le (q / 2 ^ quantum q)
  set m := roundEven (q / 2 ^ quantum q)
  have h3 : (2 : ℚ) ^ 52 - 1 < |(m : ℚ)| := by
    have := abs_sub_abs_le_abs_sub (q / 2 ^ quantum q) (m : ℚ)
    rw [abs_sub_comm] at this
    linarith
  have h4 : 2 ^ 52 - 1 < |m| := by exact_mod_cast h3
  omega

/-- What does not overflow rounds to a double. -/
theorem isDouble_roundVal {q : ℚ} (h : |roundVal q| < 2 ^ 1024) : IsDouble (roundVal q) := by
  by_cases hq : q = 0
  · subst hq
    simpa [roundVal, roundEven] using isDouble_zero
  set m := roundEven (q / 2 ^ quantum q) with hm
  have hval : roundVal q = m * 2 ^ quantum q := rfl
  have hlow : -1074 ≤ quantum q := le_max_right _ _
  have hle := abs_roundEven_quantum_le q
  have habs : |roundVal q| = |m| * 2 ^ quantum q := by
    rw [hval, abs_mul, abs_of_pos (zpow_pos (by norm_num) _ : (0 : ℚ) < 2 ^ quantum q), Int.cast_abs]
  -- The exponent is bounded because a normal significand has its top bit set.
  have hbound : ∀ b : ℕ, (2 : ℤ) ^ b ≤ |m| → quantum q < 1024 - b := by
    intro b hb
    have h1 : (2 : ℚ) ^ (b : ℤ) * 2 ^ quantum q < 2 ^ (1024 : ℤ) := by
      calc (2 : ℚ) ^ (b : ℤ) * 2 ^ quantum q ≤ |m| * 2 ^ quantum q := by
            refine mul_le_mul_of_nonneg_right ?_ (zpow_pos (by norm_num) _).le
            rw [zpow_natCast]; exact_mod_cast hb
        _ < 2 ^ (1024 : ℤ) := by rw [← habs]; exact_mod_cast h
    rw [← zpow_add₀ (by norm_num)] at h1
    have := (zpow_lt_zpow_iff_right₀ (by norm_num : (1 : ℚ) < 2)).mp h1
    omega
  rcases hle.lt_or_eq with hlt | heq
  · refine ⟨m, quantum q, hval, hlt, hlow, ?_⟩
    by_cases hn : -1074 < quantum q
    · have := hbound 52 (le_abs_roundEven_quantum hq hn)
      push_cast at this
      omega
    · omega
  · -- Rounding up to `2 ^ 53` moves to the next binade.
    have hup := hbound 53 (by rw [← hm] at heq; exact heq.ge)
    refine ⟨m / 2, quantum q + 1, ?_, ?_, by omega, by push_cast at hup; omega⟩
    · have hdvd : m / 2 * 2 = m := Int.ediv_mul_cancel (by
        rw [← dvd_abs, ← hm] at *; rw [heq]; norm_num)
      rw [hval, zpow_add_one₀ (by norm_num)]
      calc (m : ℚ) * 2 ^ quantum q = ((m / 2 * 2 : ℤ) : ℚ) * 2 ^ quantum q := by rw [hdvd]
        _ = _ := by push_cast; ring
    · rw [← hm] at heq
      rcases abs_choice m with h' | h' <;> rw [abs_lt] <;> constructor <;> omega

/-- A finite double. -/
structure Double where
  /-- The rational it denotes. -/
  val : ℚ
  isDouble : IsDouble val
deriving DecidableEq

/-- A JavaScript number. -/
inductive Number
  | nan
  | inf (neg : Bool)
  | fin (d : Double)
deriving DecidableEq

namespace Number

/-- The number nearest to a rational, ties to even, infinite on overflow. -/
def ofRat (q : ℚ) : Number :=
  if h : |roundVal q| < 2 ^ 1024 then fin ⟨roundVal q, isDouble_roundVal h⟩ else inf (q < 0)

instance : Zero Number := ⟨fin ⟨0, isDouble_zero⟩⟩

/-- `Number.isFinite`. -/
def isFinite : Number → Bool
  | fin _ => true
  | _ => false

/-- Truthiness: every number but zero and NaN. -/
def truthy : Number → Bool
  | nan => false
  | inf _ => true
  | fin d => d.val ≠ 0

/-- `a < b`. -/
def lt : Number → Number → Bool
  | nan, _ => false
  | _, nan => false
  | inf a, inf b => a && !b
  | inf a, fin _ => a
  | fin _, inf b => !b
  | fin a, fin b => a.val < b.val

/-- `a === b`: NaN equals nothing. -/
def strictEq : Number → Number → Bool
  | nan, _ => false
  | a, b => a = b

/-- `a <= b`. -/
def le (a b : Number) : Bool := lt a b || strictEq a b

/-- The sign of `a - b` as a sort comparator reads it, where NaN counts as zero.  The difference
of two distinct doubles never rounds to zero, so on finite numbers this is their comparison. -/
def cmpSub : Number → Number → Ordering
  | nan, _ => .eq
  | _, nan => .eq
  | a, b => if lt a b then .lt else if lt b a then .gt else .eq

/-- `a + b`. -/
def add : Number → Number → Number
  | nan, _ => nan
  | _, nan => nan
  | inf a, inf b => if a = b then inf a else nan
  | inf a, fin _ => inf a
  | fin _, inf b => inf b
  | fin a, fin b => ofRat (a.val + b.val)

/-- `Math.min`. -/
def min : Number → Number → Number
  | nan, _ => nan
  | _, nan => nan
  | a, b => if lt b a then b else a

/-- `a % b` for a positive finite divisor: the remainder has the sign of the dividend. -/
def mod : Number → ℕ → Number
  | fin a, b => ofRat (a.val - (if 0 ≤ a.val then ⌊a.val / b⌋ else ⌈a.val / b⌉) * b)
  | _, _ => nan

/-- `a / b` for a positive finite divisor. -/
def div : Number → ℕ → Number
  | fin a, b => ofRat (a.val / b)
  | x, _ => x

/-! ### `Number::toString` -/

/-- Drop trailing zeros of a decimal significand, at most `fuel` of them. -/
def stripZeros : ℕ → ℕ → ℤ → ℕ × ℤ
  | 0, s, x => (s, x)
  | fuel + 1, s, x => if s ≠ 0 ∧ s % 10 = 0 then stripZeros fuel (s / 10) (x + 1) else (s, x)

/-- A decimal of (about) `k` digits that rounds to `q`, the closer of the two neighbours first. -/
def candidate (q : ℚ) (k : ℕ) : Option (ℕ × ℤ) :=
  let x : ℤ := Int.log 10 q + 1 - k
  let near := (roundEven (q / 10 ^ x)).toNat
  let lo := ⌊q / 10 ^ x⌋.toNat
  let far := if near = lo then lo + 1 else lo
  if roundVal (near * 10 ^ x) = q then some (near, x)
  else if roundVal (far * 10 ^ x) = q then some (far, x)
  else none

/-- The shortest decimal `s * 10 ^ x` that reads back as the positive double `q`.  Seventeen
digits always suffice; the exact expansion behind them is what makes this total by inspection. -/
def shortest (q : ℚ) : ℕ × ℤ :=
  match (List.range 17).findSome? (fun k => candidate q (k + 1)) with
  | some (s, x) => stripZeros 20 s x
  | none => (⌊q * 10 ^ 1074⌋.toNat, -1074)

/-- The decimal digits of `n`, most significant first. -/
def digits (n : ℕ) : Str := ((Nat.digits 10 n).reverse).map fun d => Fin.ofNat 65536 (48 + d)

/-- Lay out the decimal `s * 10 ^ x` as `Number::toString` does: plain up to 21 digits, with an
exponent outside that. -/
def format (s : ℕ) (x : ℤ) : Str :=
  let ds := digits s
  let k : ℤ := ds.length
  let n := k + x
  if k ≤ n ∧ n ≤ 21 then ds ++ List.replicate (n - k).toNat (unit '0')
  else if 0 < n ∧ n ≤ 21 then ds.take n.toNat ++ unit '.' :: ds.drop n.toNat
  else if -6 < n ∧ n ≤ 0 then unit '0' :: unit '.' :: (List.replicate (-n).toNat (unit '0') ++ ds)
  else
    let frac := if ds.length = 1 then [] else unit '.' :: ds.drop 1
    let sign := if n - 1 < 0 then unit '-' else unit '+'
    ds.take 1 ++ (frac ++ unit 'e' :: sign :: digits (n - 1).natAbs)

/-- The text of a positive double. -/
def formatPos (q : ℚ) : Str := format (shortest q).1 (shortest q).2

/-- `String(x)` for a number. -/
def toStr : Number → Str
  | nan => lit "NaN"
  | inf neg => if neg then lit "-Infinity" else lit "Infinity"
  | fin d =>
    if d.val = 0 then lit "0"
    else if d.val < 0 then lit "-" ++ formatPos (-d.val)
    else formatPos d.val

/-! ### `StringToNumber` -/

def isDigit (u : CodeUnit) : Bool := 48 ≤ u.val && u.val ≤ 57

/-- The value of a run of decimal digits. -/
def digitsVal (s : Str) : ℕ := s.foldl (fun acc u => acc * 10 + (u.val - 48)) 0

/-- Split an optional sign off a literal. -/
def splitSign : Str → Bool × Str
  | [] => (false, [])
  | u :: t =>
    if u = unit '-' then (true, t) else if u = unit '+' then (false, t) else (false, u :: t)

/-- The exponent part of a decimal literal: nothing, or `e` with an optionally signed integer. -/
def parseExp : Str → Option ℤ
  | [] => some 0
  | u :: t =>
    if u = unit 'e' ∨ u = unit 'E' then
      let ds := (splitSign t).2
      if ds ≠ [] ∧ ds.all isDigit then
        some (if (splitSign t).1 then -(digitsVal ds : ℤ) else digitsVal ds)
      else none
    else none

/-- The fractional digits of a decimal literal and what follows them. -/
def parseFrac : Str → Str × Str
  | [] => ([], [])
  | u :: t => if u = unit '.' then (t.takeWhile isDigit, t.dropWhile isDigit) else ([], u :: t)

/-- An unsigned decimal literal, read exactly. -/
def parseUnsigned (s : Str) : Option ℚ :=
  let ip := s.takeWhile isDigit
  let fp := (parseFrac (s.dropWhile isDigit)).1
  if ip = [] ∧ fp = [] then none
  else (parseExp (parseFrac (s.dropWhile isDigit)).2).map fun (e : ℤ) =>
    digitsVal (ip ++ fp) * 10 ^ (e - fp.length)

/-- The value of a digit in radix `r`. -/
def radixDigit (r : ℕ) (u : CodeUnit) : Option ℕ :=
  let v :=
    if isDigit u then u.val - 48
    else if 97 ≤ u.val ∧ u.val ≤ 122 then u.val - 87
    else if 65 ≤ u.val ∧ u.val ≤ 90 then u.val - 55
    else 36
  if v < r then some v else none

/-- A non-empty run of digits in radix `r`. -/
def parseDigits (r : ℕ) (s : Str) : Option ℕ :=
  if s = [] then none
  else s.foldlM (fun acc u => (radixDigit r u).map (acc * r + ·)) 0

/-- A hexadecimal, octal or binary literal. -/
def parseRadix : Str → Option ℕ
  | a :: b :: t =>
    if a ≠ unit '0' then none
    else if b = unit 'x' ∨ b = unit 'X' then parseDigits 16 t
    else if b = unit 'o' ∨ b = unit 'O' then parseDigits 8 t
    else if b = unit 'b' ∨ b = unit 'B' then parseDigits 2 t
    else none
  | _ => none

/-- `Number(s)` for a string. -/
def ofStr (s : Str) : Number :=
  if trim s = [] then 0
  else match parseRadix (trim s) with
    | some n => ofRat n
    | none =>
      if (splitSign (trim s)).2 = lit "Infinity" then inf (splitSign (trim s)).1
      else match parseUnsigned (splitSign (trim s)).2 with
        | some q => ofRat (if (splitSign (trim s)).1 then -q else q)
        | none => nan

end Number

end Js
