import Quorum.Js.Number

/-!
# Correctness of the number conversions

`ofStr` inverts `toStr` on every number (`ofStr_toStr`), so `toStr` is injective
(`toStr_injective`), and the text of a number never contains a colon (`colon_not_mem_toStr`).
The proof reads the layouts of `format` back with `parseUnsigned`, which recovers the decimal
exactly, and then uses that the decimal picked by `shortest` rounds to the double it was picked
for.
-/

namespace Js.Number

/-! ### Doubles round to themselves -/

variable {q : ℚ} {n : ℕ} {u : CodeUnit}

/-- A double is a multiple of the quantum its own magnitude asks for. -/
theorem exists_eq_intCast_mul_quantum (h : IsDouble q) :
    ∃ k : ℤ, q = k * 2 ^ quantum q := by
  obtain ⟨m, e, rfl, hm, hlo, _⟩ := h
  by_cases h0 : m = 0
  · exact ⟨0, by simp [h0]⟩
  have hpos : (0 : ℚ) < 2 ^ e := zpow_pos (by norm_num) _
  have habs : |(m : ℚ) * 2 ^ e| = |m| * 2 ^ e := by rw [abs_mul, abs_of_pos hpos, Int.cast_abs]
  have hne : (0 : ℚ) < |(m : ℚ) * 2 ^ e| := abs_pos.mpr (mul_ne_zero (by exact_mod_cast h0) hpos.ne')
  -- `2 ^ log ≤ |m| 2 ^ e < 2 ^ (53 + e)`, so the quantum is at most `e`.
  have hlog : Int.log 2 |(m : ℚ) * 2 ^ e| < 53 + e := by
    have h1 : (2 : ℚ) ^ Int.log 2 |(m : ℚ) * 2 ^ e| < 2 ^ (53 + e) := by
      calc (2 : ℚ) ^ Int.log 2 |(m : ℚ) * 2 ^ e| ≤ |(m : ℚ) * 2 ^ e| :=
            Int.zpow_log_le_self (by norm_num) hne
        _ = |m| * 2 ^ e := habs
        _ < 2 ^ 53 * 2 ^ e := mul_lt_mul_of_pos_right (by exact_mod_cast hm) hpos
        _ = 2 ^ (53 + e) := by rw [zpow_add₀ (by norm_num)]; norm_num
    exact (zpow_lt_zpow_iff_right₀ (by norm_num)).mp h1
  have hquant : quantum ((m : ℚ) * 2 ^ e) ≤ e := by unfold quantum; omega
  obtain ⟨n, hn⟩ := Int.eq_ofNat_of_zero_le (sub_nonneg.mpr hquant)
  refine ⟨m * 2 ^ n, ?_⟩
  rw [Int.cast_mul, mul_assoc]
  congr 1
  rw [Int.cast_pow, Int.cast_ofNat, ← zpow_natCast, ← zpow_add₀ (by norm_num)]
  congr 1
  omega

/-- Rounding fixes doubles. -/
theorem roundVal_of_isDouble (h : IsDouble q) : roundVal q = q := by
  obtain ⟨k, hk⟩ := exists_eq_intCast_mul_quantum h
  have hne : (2 : ℚ) ^ quantum q ≠ 0 := zpow_ne_zero _ (by norm_num)
  have hdiv : q / 2 ^ quantum q = k := (div_eq_iff hne).mpr hk
  rw [roundVal, hdiv, roundEven_intCast, ← hk]

theorem abs_lt_of_isDouble (h : IsDouble q) : |q| < 2 ^ 1024 := by
  obtain ⟨m, e, rfl, hm, _, hhi⟩ := h
  have hpos : (0 : ℚ) < 2 ^ e := zpow_pos (by norm_num) _
  rw [abs_mul, abs_of_pos hpos, ← Int.cast_abs]
  calc ((|m| : ℤ) : ℚ) * 2 ^ e < 2 ^ 53 * 2 ^ e :=
        mul_lt_mul_of_pos_right (by exact_mod_cast hm) hpos
    _ ≤ 2 ^ 53 * 2 ^ (971 : ℤ) :=
        mul_le_mul_of_nonneg_left (zpow_le_zpow_right₀ (by norm_num) hhi) (by norm_num)
    _ = 2 ^ 1024 := by rw [zpow_ofNat, ← pow_add]

/-- A rational that rounds to a double converts to it. -/
theorem ofRat_of_roundVal_eq {d : Double} (h : roundVal q = d.val) : ofRat q = fin d := by
  obtain ⟨v, hv⟩ := d
  simp only at h
  subst h
  rw [ofRat, dif_pos (abs_lt_of_isDouble hv)]

/-- Rounding is odd. -/
theorem roundEven_neg (x : ℚ) : roundEven (-x) = -roundEven x := by
  have hlo := Int.floor_le x
  have hhi := Int.lt_floor_add_one x
  by_cases hint : (⌊x⌋ : ℚ) = x
  · rw [← hint, ← Int.cast_neg, roundEven_intCast, roundEven_intCast]
  have hfl : ⌊-x⌋ = -⌊x⌋ - 1 := by
    rw [Int.floor_eq_iff]
    push_cast
    have : (⌊x⌋ : ℚ) < x := lt_of_le_of_ne hlo hint
    constructor <;> linarith
  have hfr : -x - ((⌊-x⌋ : ℤ) : ℚ) = 1 - (x - ⌊x⌋) := by rw [hfl]; push_cast; ring
  unfold roundEven
  rw [hfr, hfl]
  have c1 : 1 - (x - (⌊x⌋ : ℚ)) < 1 / 2 ↔ 1 / 2 < x - ⌊x⌋ := by constructor <;> intro h <;> linarith
  have c2 : 1 / 2 < 1 - (x - (⌊x⌋ : ℚ)) ↔ x - ⌊x⌋ < 1 / 2 := by constructor <;> intro h <;> linarith
  split_ifs <;> first | omega | (exfalso; linarith)

theorem roundVal_neg (q : ℚ) : roundVal (-q) = -roundVal q := by
  have hq : quantum (-q) = quantum q := by rw [quantum, quantum, abs_neg]
  rw [roundVal, roundVal, hq, neg_div, roundEven_neg]
  push_cast
  ring

theorem isDouble_neg (h : IsDouble q) : IsDouble (-q) := by
  obtain ⟨m, e, rfl, hm, hlo, hhi⟩ := h
  exact ⟨-m, e, by push_cast; ring, by rwa [abs_neg], hlo, hhi⟩

/-! ### The decimal picked for a double -/

/-- The value of a decimal significand and exponent. -/
def decVal (p : ℕ × ℤ) : ℚ := p.1 * 10 ^ p.2

theorem decVal_stripZeros (fuel s : ℕ) (x : ℤ) : decVal (stripZeros fuel s x) = decVal (s, x) := by
  induction fuel generalizing s x with
  | zero => rfl
  | succ fuel ih =>
    rw [stripZeros]
    split_ifs with h
    · rw [ih, decVal, decVal]
      have hs : s = s / 10 * 10 := by omega
      conv_rhs => rw [hs]
      simp only
      push_cast
      rw [zpow_add_one₀ (by norm_num)]
      ring
    · rfl

theorem roundVal_decVal_of_candidate {k : ℕ} {p : ℕ × ℤ} (h : candidate q k = some p) :
    roundVal (decVal p) = q := by
  simp only [candidate] at h
  split_ifs at h with h1 h2 h3 h3
  · obtain rfl := Option.some.inj h
    exact h1
  all_goals
    obtain rfl := Option.some.inj h
    exact h3

/-- A double has at most 1074 digits after the decimal point. -/
theorem exists_eq_intCast_of_isDouble (h : IsDouble q) : ∃ k : ℤ, q * 10 ^ 1074 = k := by
  obtain ⟨m, e, rfl, _, hlo, _⟩ := h
  obtain ⟨n, hn⟩ := Int.eq_ofNat_of_zero_le (by omega : 0 ≤ 1074 + e)
  refine ⟨m * (2 ^ n * 5 ^ 1074), ?_⟩
  have hsplit : (10 : ℚ) ^ 1074 = 2 ^ (1074 : ℤ) * 5 ^ 1074 := by
    rw [show (10 : ℚ) = 2 * 5 by norm_num, mul_pow, zpow_ofNat]
  have hexp : (2 : ℚ) ^ e * 2 ^ (1074 : ℤ) = 2 ^ n := by
    rw [← zpow_add₀ (by norm_num), add_comm, hn]; exact zpow_natCast _ _
  rw [hsplit, Int.cast_mul, Int.cast_mul, Int.cast_pow, Int.cast_pow, Int.cast_ofNat,
    Int.cast_ofNat, mul_assoc, ← mul_assoc ((2 : ℚ) ^ e), hexp]

/-- The decimal that `shortest` picks rounds to the double it was picked for. -/
theorem roundVal_decVal_shortest (hq : IsDouble q) (hpos : 0 < q) :
    roundVal (decVal (shortest q)) = q := by
  unfold shortest
  split
  · rename_i s x hsome
    obtain ⟨k, _, hk⟩ := List.exists_of_findSome?_eq_some hsome
    rw [decVal_stripZeros]
    exact roundVal_decVal_of_candidate hk
  · obtain ⟨k, hk⟩ := exists_eq_intCast_of_isDouble hq
    have hk0 : 0 ≤ k := by
      have h : (0 : ℚ) ≤ k := by rw [← hk]; positivity
      exact_mod_cast h
    have hval : decVal (⌊q * 10 ^ 1074⌋.toNat, -1074) = q := by
      rw [decVal, hk, Int.floor_intCast]
      have hcast : ((k.toNat : ℕ) : ℚ) = k := by
        rw [← Int.cast_natCast, Int.toNat_of_nonneg hk0]
      simp only
      rw [hcast, ← hk, zpow_neg, mul_assoc]
      rw [zpow_ofNat, mul_inv_cancel₀ (pow_ne_zero _ (by norm_num)), mul_one]
    rw [hval]
    exact roundVal_of_isDouble hq

theorem shortest_ne_zero (hq : IsDouble q) (hpos : 0 < q) : (shortest q).1 ≠ 0 := by
  intro h0
  have h := roundVal_decVal_shortest hq hpos
  rw [decVal, h0] at h
  simp [roundVal, roundEven] at h
  exact hpos.ne h

/-! ### Runs of digits -/

theorem isDigit_of_mem_digits (hu : u ∈ digits n) : isDigit u = true := by
  obtain ⟨d, hd, rfl⟩ := List.mem_map.mp hu
  have hlt : d < 10 := Nat.digits_lt_base (by norm_num) (List.mem_reverse.mp hd)
  interval_cases d <;> decide

theorem digits_ne_nil (hn : n ≠ 0) : digits n ≠ [] := by
  simp [digits, Nat.digits_ne_nil_iff_ne_zero.mpr hn]

theorem foldl_digitsVal (s : Str) (acc : ℕ) :
    s.foldl (fun acc u => acc * 10 + (u.val - 48)) acc = acc * 10 ^ s.length + digitsVal s := by
  induction s generalizing acc with
  | nil => simp [digitsVal]
  | cons u s ih =>
    rw [digitsVal, List.foldl_cons, List.foldl_cons, ih, ih, List.length_cons, pow_succ]
    ring

theorem digitsVal_append (s t : Str) :
    digitsVal (s ++ t) = digitsVal s * 10 ^ t.length + digitsVal t := by
  rw [digitsVal, List.foldl_append, foldl_digitsVal t, ← digitsVal]

theorem digitsVal_replicate_zero (n : ℕ) : digitsVal (List.replicate n (unit '0')) = 0 := by
  induction n with
  | zero => rfl
  | succ n ih =>
    rw [List.replicate_succ, ← List.singleton_append, digitsVal_append, ih]
    simp [digitsVal, unit]

/-- `digits` writes the number that `digitsVal` reads. -/
theorem digitsVal_digits (n : ℕ) : digitsVal (digits n) = n := by
  have key : ∀ ds : List ℕ, (∀ d ∈ ds, d < 10) →
      digitsVal (ds.reverse.map fun d => Fin.ofNat 65536 (48 + d)) = Nat.ofDigits 10 ds := by
    intro ds hds
    induction ds with
    | nil => rfl
    | cons d ds ih =>
      have hd : d < 10 := hds d (by simp)
      rw [List.reverse_cons, List.map_append, digitsVal_append,
        ih fun x hx => hds x (List.mem_cons_of_mem _ hx), Nat.ofDigits_cons]
      have hunit : digitsVal [Fin.ofNat 65536 (48 + d)] = d := by
        interval_cases d <;> decide
      simp only [List.map_cons, List.map_nil, List.length_singleton, hunit]
      push_cast
      ring
  rw [digits, key _ fun d hd => Nat.digits_lt_base (by norm_num) hd, Nat.ofDigits_digits]

theorem isDigit_of_mem_replicate (hu : u ∈ List.replicate n (unit '0')) :
    isDigit u = true := by
  rw [List.eq_of_mem_replicate hu]
  decide

/-! ### Reading a layout back -/

/-- A literal cut into its three parts: digits, an optional point with digits, an exponent. -/
theorem parseUnsigned_eq (ip dot fp r : Str) {e : ℤ} (hne : ip ≠ [])
    (hip : ∀ u ∈ ip, isDigit u = true) (hfp : ∀ u ∈ fp, isDigit u = true)
    (hdot : dot = [] ∧ fp = [] ∨ dot = [unit '.']) (hr : r = [] ∨ ∃ t, r = unit 'e' :: t)
    (he : parseExp r = some e) :
    parseUnsigned (ip ++ (dot ++ (fp ++ r))) =
      some ((digitsVal (ip ++ fp) : ℚ) * 10 ^ (e - fp.length)) := by
  have htail : ∀ u ∈ r.head?, isDigit u = false := by
    rcases hr with rfl | ⟨t, rfl⟩
    · simp
    · intro u hu
      obtain rfl : unit 'e' = u := by simpa using hu
      decide
  have hstop : ∀ t : Str, (∀ u ∈ t.head?, isDigit u = false) →
      t.takeWhile isDigit = [] ∧ t.dropWhile isDigit = t := by
    intro t ht
    cases t with
    | nil => simp
    | cons u t => simp [ht u (by simp)]
  -- What follows the integer digits does not start with a digit.
  have hrest : ∀ u ∈ (dot ++ (fp ++ r)).head?, isDigit u = false := by
    rcases hdot with ⟨rfl, rfl⟩ | rfl
    · simpa using htail
    · intro u hu
      obtain rfl : unit '.' = u := by simpa using hu
      decide
  have htake : (ip ++ (dot ++ (fp ++ r))).takeWhile isDigit = ip := by
    rw [List.takeWhile_append_of_pos hip, (hstop _ hrest).1, List.append_nil]
  have hdrop : (ip ++ (dot ++ (fp ++ r))).dropWhile isDigit = dot ++ (fp ++ r) := by
    rw [List.dropWhile_append_of_pos hip, (hstop _ hrest).2]
  have hfrac : parseFrac (dot ++ (fp ++ r)) = (fp, r) := by
    rcases hdot with ⟨rfl, rfl⟩ | rfl
    · rcases hr with rfl | ⟨t, rfl⟩
      · rfl
      · simp [parseFrac, show unit 'e' ≠ unit '.' by decide]
    · simp only [List.singleton_append, parseFrac, if_true]
      rw [List.takeWhile_append_of_pos hfp, List.dropWhile_append_of_pos hfp, (hstop r htail).1,
        (hstop r htail).2, List.append_nil]
  rw [parseUnsigned]
  simp only [htake, hdrop, hfrac, he, Option.map_some]
  rw [if_neg fun h => hne h.1]

theorem parseExp_digits {e : ℤ} (he : e ≠ 0) :
    parseExp (unit 'e' :: (if e < 0 then unit '-' else unit '+') :: digits e.natAbs) = some e := by
  have hne : digits e.natAbs ≠ [] := digits_ne_nil (by omega)
  have hall : (digits e.natAbs).all isDigit = true :=
    List.all_eq_true.mpr fun u hu => isDigit_of_mem_digits hu
  have hpm : unit '+' ≠ unit '-' := by decide
  simp only [parseExp, true_or, if_true]
  by_cases hneg : e < 0
  · simp only [hneg, if_true, splitSign, hne, hall, ne_eq, not_false_eq_true, and_self,
      digitsVal_digits]
    congr 1
    omega
  · simp only [hneg, if_false, splitSign, hpm, if_true, hne, hall, ne_eq, not_false_eq_true,
      and_self, Bool.false_eq_true, digitsVal_digits]
    congr 1
    omega

/-- `format` writes the decimal that `parseUnsigned` reads. -/
theorem parseUnsigned_format {s : ℕ} (hs : s ≠ 0) (x : ℤ) :
    parseUnsigned (format s x) = some (decVal (s, x)) := by
  have hds := digits_ne_nil hs
  have hdig : ∀ u ∈ digits s, isDigit u = true := fun u hu => isDigit_of_mem_digits hu
  have hlen : 0 < (digits s).length := List.length_pos_iff.mpr hds
  have hval := digitsVal_digits s
  unfold format
  set ds := digits s
  simp only
  by_cases h1 : (ds.length : ℤ) ≤ ds.length + x ∧ (ds.length : ℤ) + x ≤ 21
  · rw [if_pos h1]
    -- An integer, padded with zeros.
    have hx : ((ds.length + x - ds.length : ℤ).toNat : ℤ) = x := by omega
    have hp := parseUnsigned_eq (ds ++ List.replicate (ds.length + x - ds.length : ℤ).toNat
      (unit '0')) [] [] [] (by simp [hds])
      (fun u hu => (List.mem_append.mp hu).elim (hdig u) isDigit_of_mem_replicate)
      (by simp) (.inl ⟨rfl, rfl⟩) (.inl rfl) rfl
    simp only [List.append_nil, List.length_nil] at hp
    rw [hp, digitsVal_append, digitsVal_replicate_zero, hval, List.length_replicate, decVal]
    congr 1
    conv_rhs => rw [← hx]
    push_cast
    rw [zpow_natCast]
    simp
  rw [if_neg h1]
  by_cases h2 : 0 < (ds.length : ℤ) + x ∧ (ds.length : ℤ) + x ≤ 21
  · rw [if_pos h2]
    -- A point inside the digits.
    have hp := parseUnsigned_eq (ds.take (ds.length + x).toNat) [unit '.']
      (ds.drop (ds.length + x).toNat) []
      (by simp only [ne_eq, List.take_eq_nil_iff, hds, or_false]; omega)
      (fun u hu => hdig u (List.mem_of_mem_take hu))
      (fun u hu => hdig u (List.mem_of_mem_drop hu)) (.inr rfl) (.inl rfl) rfl
    rw [List.append_nil, List.singleton_append] at hp
    rw [hp, List.take_append_drop, hval, decVal, List.length_drop]
    congr 3
    omega
  rw [if_neg h2]
  by_cases h3 : -6 < (ds.length : ℤ) + x ∧ (ds.length : ℤ) + x ≤ 0
  · rw [if_pos h3]
    -- A small number, with zeros after the point.
    have hp := parseUnsigned_eq [unit '0'] [unit '.']
      (List.replicate (-(ds.length + x)).toNat (unit '0') ++ ds) []
      (by simp) (by simp [show isDigit (unit '0') = true by decide])
      (fun u hu => (List.mem_append.mp hu).elim isDigit_of_mem_replicate (hdig u))
      (.inr rfl) (.inl rfl) rfl
    simp only [List.append_nil, List.singleton_append] at hp
    rw [hp, ← List.singleton_append, digitsVal_append, digitsVal_append, digitsVal_replicate_zero,
      hval, decVal, List.length_append, List.length_replicate]
    have h0 : digitsVal [unit '0'] = 0 := by decide
    rw [h0, zero_mul, zero_mul, zero_add, zero_add]
    congr 3
    omega
  rw [if_neg h3]
  have he := parseExp_digits (e := ds.length + x - 1) (by omega)
  have hip : ∀ u ∈ ds.take 1, isDigit u = true := fun u hu => hdig u (List.mem_of_mem_take hu)
  by_cases h4 : ds.length = 1
  · rw [if_pos h4]
    -- One digit and an exponent.
    have hp := parseUnsigned_eq (ds.take 1) [] [] _ (by simp [hds]) hip
      (by simp) (.inl ⟨rfl, rfl⟩) (.inr ⟨_, rfl⟩) he
    rw [List.nil_append] at hp
    rw [hp, List.append_nil, List.take_of_length_le h4.le, hval, decVal, h4]
    congr 3
    simp
  · rw [if_neg h4]
    -- Several digits and an exponent.
    have hp := parseUnsigned_eq (ds.take 1) [unit '.'] (ds.drop 1) _
      (by simp [hds]) hip (fun u hu => hdig u (List.mem_of_mem_drop hu)) (.inr rfl)
      (.inr ⟨_, rfl⟩) he
    rw [List.singleton_append] at hp
    rw [List.cons_append, hp, List.take_append_drop, hval, decVal, List.length_drop]
    congr 3
    omega

/-! ### The units of a layout -/

/-- The units that occur in the text of a finite number. -/
def isNumeric (u : CodeUnit) : Bool :=
  isDigit u || u = unit '.' || u = unit 'e' || u = unit '+' || u = unit '-'

theorem isNumeric_of_isDigit (h : isDigit u = true) : isNumeric u = true := by
  simp [isNumeric, h]

theorem isNumeric_of_mem_format (s : ℕ) (x : ℤ) : ∀ u ∈ format s x, isNumeric u = true := by
  have hd : ∀ n, ∀ u ∈ digits n, isNumeric u = true :=
    fun n u hu => isNumeric_of_isDigit (isDigit_of_mem_digits hu)
  have ht : ∀ k, ∀ u ∈ (digits s).take k, isNumeric u = true :=
    fun k u hu => hd s u (List.mem_of_mem_take hu)
  have hr : ∀ k, ∀ u ∈ (digits s).drop k, isNumeric u = true :=
    fun k u hu => hd s u (List.mem_of_mem_drop hu)
  have hz : ∀ k, ∀ u ∈ List.replicate k (unit '0'), isNumeric u = true :=
    fun k u hu => isNumeric_of_isDigit (isDigit_of_mem_replicate hu)
  have h0 : isNumeric (unit '0') = true := by decide
  have hdot : isNumeric (unit '.') = true := by decide
  have he : isNumeric (unit 'e') = true := by decide
  have hminus : isNumeric (unit '-') = true := by decide
  have hplus : isNumeric (unit '+') = true := by decide
  unfold format
  simp only
  split_ifs <;>
    simp only [List.forall_mem_append, List.forall_mem_cons, List.nil_append] <;>
    grind

/-- A layout starts with a digit. -/
theorem exists_format_eq_cons {s : ℕ} (hs : s ≠ 0) (x : ℤ) :
    ∃ u t, format s x = u :: t ∧ isDigit u = true := by
  obtain ⟨d, ds, hds⟩ := List.exists_cons_of_ne_nil (digits_ne_nil hs)
  have hd : isDigit d = true := isDigit_of_mem_digits (n := s) (by rw [hds]; simp)
  unfold format
  rw [hds]
  simp only
  split_ifs with h1 h2 h3
  · exact ⟨d, _, rfl, hd⟩
  · obtain ⟨n, hn⟩ : ∃ n, (((d :: ds).length : ℤ) + x).toNat = n + 1 :=
      ⟨(((d :: ds).length : ℤ) + x).toNat - 1, by omega⟩
    rw [hn]
    exact ⟨d, _, rfl, hd⟩
  · exact ⟨unit '0', _, rfl, by decide⟩
  all_goals exact ⟨d, _, rfl, hd⟩

theorem isSpace_of_isNumeric (h : isNumeric u = true) : isSpace u = false := by
  have hval : ∀ c ∈ ['.', 'e', '+', '-'], isSpace (unit c) = false := by
    simp only [List.forall_mem_cons]
    exact ⟨by decide, by decide, by decide, by decide, nofun⟩
  simp only [isNumeric, Bool.or_eq_true, decide_eq_true_eq] at h
  rcases h with (((h | h) | h) | h) | h
  · simp only [isDigit, Bool.and_eq_true, decide_eq_true_eq] at h
    simp only [isSpace, Bool.or_eq_false_iff, Bool.and_eq_false_iff, decide_eq_false_iff_not,
      beq_eq_false_iff_ne]
    omega
  all_goals
    rw [h]
    exact hval _ (by simp)

/-! ### The round trip -/

theorem parseRadix_of_isNumeric {t : Str} (h : ∀ u ∈ t, isNumeric u = true) :
    parseRadix t = none := by
  match t with
  | [] => rfl
  | [_] => rfl
  | a :: b :: t =>
    have hb : isNumeric b = true := h b (by simp)
    have hne : ∀ c : Char, isNumeric (unit c) = false → b ≠ unit c := by
      rintro c hc rfl
      rw [hc] at hb
      exact Bool.false_ne_true hb
    simp [parseRadix, hne 'x' (by decide), hne 'X' (by decide), hne 'o' (by decide),
      hne 'O' (by decide), hne 'b' (by decide), hne 'B' (by decide)]

theorem ofStr_of_isNumeric {t body : Str} (neg : Bool)
    (hnum : ∀ u ∈ t, isNumeric u = true) (hne : t ≠ []) (hsign : splitSign t = (neg, body))
    (hbody : ∀ u ∈ body, isNumeric u = true) (hparse : parseUnsigned body = some q) :
    ofStr t = ofRat (if neg then -q else q) := by
  have htrim : trim t = t :=
    trim_eq_self (fun u hu => isSpace_of_isNumeric (hnum u (List.mem_of_mem_head? hu)))
      (fun u hu => isSpace_of_isNumeric (hnum u (List.mem_of_mem_getLast? hu)))
  have hinf : body ≠ lit "Infinity" := by
    rintro rfl
    have h : isNumeric (unit 'I') = true := hbody _ (by decide)
    exact absurd h (by decide)
  rw [ofStr, htrim, if_neg hne, parseRadix_of_isNumeric hnum, hsign]
  simp only [if_neg hinf, hparse]

/-- **Round trip**: reading the text of a number gives the number back. -/
theorem ofStr_toStr (x : Number) : ofStr (toStr x) = x := by
  match x with
  | nan => decide +kernel
  | inf true => decide +kernel
  | inf false => decide +kernel
  | fin d =>
    rw [toStr]
    -- A positive double, through its layout.
    have hpos : ∀ {q : ℚ}, IsDouble q → 0 < q →
        ∃ u t, formatPos q = u :: t ∧ isDigit u = true ∧
          (∀ v ∈ formatPos q, isNumeric v = true) ∧
          parseUnsigned (formatPos q) = some (decVal (shortest q)) := by
      intro q hq h0
      obtain ⟨u, t, hcons, hu⟩ := exists_format_eq_cons (shortest_ne_zero hq h0) (shortest q).2
      exact ⟨u, t, hcons, hu, isNumeric_of_mem_format _ _,
        parseUnsigned_format (shortest_ne_zero hq h0) _⟩
    split_ifs with h0 hneg
    · obtain ⟨v, hv⟩ := d
      simp only at h0
      subst h0
      exact show ofStr (lit "0") = 0 by decide +kernel
    · obtain ⟨u, t, hcons, hu, hnum, hparse⟩ :=
        hpos (isDouble_neg d.isDouble) (neg_pos.mpr hneg)
      have hnum' : ∀ v ∈ lit "-" ++ formatPos (-d.val), isNumeric v = true := by
        rw [show lit "-" = [unit '-'] by decide, List.singleton_append, List.forall_mem_cons]
        exact ⟨by decide, hnum⟩
      rw [ofStr_of_isNumeric true hnum' (by simp [hcons]) rfl hnum hparse]
      refine ofRat_of_roundVal_eq ?_
      rw [if_pos rfl, roundVal_neg, roundVal_decVal_shortest (isDouble_neg d.isDouble)
        (neg_pos.mpr hneg), neg_neg]
    · have hp : 0 < d.val := lt_of_le_of_ne (not_lt.mp hneg) (Ne.symm h0)
      obtain ⟨u, t, hcons, hu, hnum, hparse⟩ := hpos d.isDouble hp
      have hsign : splitSign (formatPos d.val) = (false, formatPos d.val) := by
        have h1 : u ≠ unit '-' := by rintro rfl; exact absurd hu (by decide)
        have h2 : u ≠ unit '+' := by rintro rfl; exact absurd hu (by decide)
        rw [hcons, splitSign, if_neg h1, if_neg h2]
      rw [ofStr_of_isNumeric false hnum (by simp [hcons]) hsign hnum hparse]
      exact ofRat_of_roundVal_eq (by
        rw [if_neg (by simp)]; exact roundVal_decVal_shortest d.isDouble hp)

/-- Distinct numbers have distinct texts. -/
theorem toStr_injective : Function.Injective toStr := fun x y h => by
  rw [← ofStr_toStr x, h, ofStr_toStr]

/-- The text of a number has no colon in it. -/
theorem colon_not_mem_toStr (x : Number) : unit ':' ∉ toStr x := by
  have hnum : ∀ {t : Str}, (∀ u ∈ t, isNumeric u = true) → unit ':' ∉ t :=
    fun ht hmem => absurd (ht _ hmem) (by decide)
  match x with
  | nan => decide
  | inf true => decide
  | inf false => decide
  | fin d =>
    rw [toStr]
    split_ifs
    · decide
    · rw [List.mem_append, not_or]
      exact ⟨by decide, hnum (isNumeric_of_mem_format _ _)⟩
    · exact hnum (isNumeric_of_mem_format _ _)

/-! ### Sorting by difference -/

/-- Where a number stands among the numbers; a sort never asks this of NaN. -/
def rank : Number → ℤ ×ₗ ℚ
  | nan => toLex (0, 0)
  | inf true => toLex (-1, 0)
  | inf false => toLex (1, 0)
  | fin d => toLex (0, d.val)

/-- Sorting by difference sorts by rank. -/
theorem cmpSub_ne_gt_iff {a b : Number} (ha : a ≠ nan) (hb : b ≠ nan) :
    a.cmpSub b ≠ .gt ↔ a.rank ≤ b.rank := by
  match a, b with
  | nan, _ => exact absurd rfl ha
  | inf _, nan => exact absurd rfl hb
  | fin _, nan => exact absurd rfl hb
  | inf a, inf b => cases a <;> cases b <;> decide
  | inf a, fin d => cases a <;> simp [cmpSub, lt, rank, Prod.Lex.toLex_le_toLex]
  | fin d, inf b => cases b <;> simp [cmpSub, lt, rank, Prod.Lex.toLex_le_toLex]
  | fin d, fin e =>
    rcases lt_trichotomy d.val e.val with h | h | h
    · simp [cmpSub, lt, rank, Prod.Lex.toLex_le_toLex, h, h.le]
    · simp [cmpSub, lt, rank, h]
    · simp [cmpSub, lt, rank, Prod.Lex.toLex_le_toLex, h, h.not_gt, h.not_ge]

theorem eq_of_rank_eq {a b : Number} (ha : a ≠ nan) (hb : b ≠ nan) (h : a.rank = b.rank) :
    a = b := by
  match a, b with
  | nan, _ => exact absurd rfl ha
  | inf _, nan => exact absurd rfl hb
  | fin _, nan => exact absurd rfl hb
  | inf a, inf b => cases a <;> cases b <;> simp_all [rank]
  | inf a, fin d => cases a <;> simp [rank] at h
  | fin d, inf b => cases b <;> simp [rank] at h
  | fin d, fin e =>
    have hval : d.val = e.val := by simpa [rank] using h
    cases d
    cases e
    cases hval
    rfl

end Js.Number
