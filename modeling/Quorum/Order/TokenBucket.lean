import Mathlib

/-!
# Token buckets

A bucket holds up to `burst` tokens and fills at a rate.  Each call that is allowed takes one.  What
has accumulated after some calls (`level`) is followed from call to call; it is the least of what
the windows that end now leave (`le_level_iff`): `burst`, and the rate times the length of the
window, less the calls that were allowed in it.

If a call is allowed exactly if a token has accumulated (`Fair`), then in no window more calls are
allowed than `burst` and the rate times its length (`allowedWithin_le`).
-/

/-- How a bucket fills. -/
structure TokenBucket (K : Type) [Field K] [LinearOrder K] where
  /-- Tokens for a unit of time. -/
  rate : K
  /-- The tokens of a full bucket. -/
  burst : K
  rate_nonneg : 0 ≤ rate
  burst_nonneg : 0 ≤ burst

namespace TokenBucket

section Calls

variable {K : Type} [LinearOrder K] {now s : K} {calls : List (K × Bool)}

/-- Calls, newest first, with when they came and whether they were allowed, came in this order up to
now. -/
def Ordered : List (K × Bool) → K → Prop
  | [], _ => True
  | (t, _) :: past, now => t ≤ now ∧ Ordered past t

/-- The calls that were allowed since some time. -/
def allowedSince (s : K) (calls : List (K × Bool)) : ℕ := calls.countP fun c => c.2 && decide (s ≤ c.1)

/-- The calls that were allowed from some time up to some time. -/
def allowedWithin (s e : K) (calls : List (K × Bool)) : ℕ :=
  calls.countP fun c => c.2 && decide (s ≤ c.1 ∧ c.1 ≤ e)

theorem Ordered.mono {now' : K} (h : Ordered calls now) (hle : now ≤ now') : Ordered calls now' := by
  cases calls with
  | nil => trivial
  | cons c past => exact ⟨h.1.trans hle, h.2⟩

theorem Ordered.le (h : Ordered calls now) {c : K × Bool} (hc : c ∈ calls) : c.1 ≤ now := by
  induction calls generalizing now with
  | nil => cases hc
  | cons d past ih =>
    rcases List.mem_cons.mp hc with rfl | hc
    · exact h.1
    · exact (ih h.2 hc).trans h.1

theorem allowedSince_eq_zero (h : Ordered calls now) (hs : now < s) : allowedSince s calls = 0 := by
  refine List.countP_eq_zero.mpr fun c hc => ?_
  have hbefore : ¬s ≤ c.1 := not_le.mpr ((h.le hc).trans_lt hs)
  simp [hbefore]

end Calls

variable {K : Type} [Field K] [LinearOrder K] {b : TokenBucket K} {now s e x : K}
  {calls : List (K × Bool)}

def cost : Bool → K
  | true => 1
  | false => 0

/-- Tokens after some time. -/
def refilled (b : TokenBucket K) (tokens elapsed : K) : K := min (tokens + elapsed * b.rate) b.burst

/-- What has accumulated by now, after calls that are given newest first. -/
def level (b : TokenBucket K) : List (K × Bool) → K → K
  | [], _ => b.burst
  | (t, allowed) :: past, now => b.refilled (b.level past t - cost allowed) (now - t)

/-- A call was allowed exactly if a token had accumulated. -/
def Fair (b : TokenBucket K) : List (K × Bool) → Prop
  | [] => True
  | (t, allowed) :: past => (allowed = true ↔ 1 ≤ b.level past t) ∧ Fair b past

theorem allowedSince_cons {t : K} {allowed : Bool} (hs : s ≤ t) :
    (allowedSince s ((t, allowed) :: calls) : K) = cost allowed + allowedSince s calls := by
  unfold allowedSince
  cases allowed
  · rw [List.countP_cons_of_neg (by simp), cost, zero_add]
  · rw [List.countP_cons_of_pos (by simpa using hs), cost, Nat.cast_succ, add_comm]

variable [IsStrictOrderedRing K]

/-- **What has accumulated is the least that a window that ends now leaves.** -/
theorem le_level_iff (h : Ordered calls now) :
    x ≤ b.level calls now ↔
      ∀ s ≤ now, (allowedSince s calls : K) + x ≤ b.burst + (now - s) * b.rate := by
  induction calls generalizing now x with
  | nil =>
    change x ≤ b.burst ↔ ∀ s ≤ now, ((0 : ℕ) : K) + x ≤ _
    simp only [Nat.cast_zero, zero_add]
    constructor
    · intro hx s hs
      have hwindow := mul_nonneg (sub_nonneg.mpr hs) b.rate_nonneg
      linarith
    · intro hall
      simpa using hall now le_rfl
  | cons c past ih =>
    obtain ⟨t, allowed⟩ := c
    obtain ⟨ht, hpast⟩ := h
    change x ≤ min (b.level past t - cost allowed + (now - t) * b.rate) b.burst ↔ _
    have hlevel : x ≤ b.level past t - cost allowed + (now - t) * b.rate ↔
        x + cost allowed - (now - t) * b.rate ≤ b.level past t := by
      constructor <;> intro hle <;> linarith
    rw [le_min_iff, hlevel, ih hpast]
    constructor
    · rintro ⟨hwindows, hx⟩ s hs
      rcases le_or_gt s t with hst | hst
      · have hwindow := hwindows s hst
        rw [allowedSince_cons hst]
        linarith
      · -- The window begins after the last call.
        have hcalls : Ordered ((t, allowed) :: past) t := ⟨le_rfl, hpast⟩
        rw [allowedSince_eq_zero hcalls hst, Nat.cast_zero, zero_add]
        have hwindow := mul_nonneg (sub_nonneg.mpr hs) b.rate_nonneg
        linarith
    · intro hall
      refine ⟨fun s hs => ?_, ?_⟩
      · have hwindow := hall s (hs.trans ht)
        rw [allowedSince_cons hs] at hwindow
        linarith
      · have hwindow := hall now le_rfl
        have hcount : (0 : K) ≤ (allowedSince now ((t, allowed) :: past) : K) := Nat.cast_nonneg _
        rw [sub_self, zero_mul] at hwindow
        linarith

/-- **In a window, no more calls are allowed than a full bucket and what it fills by in that time.** -/
theorem allowedWithin_le (hordered : Ordered calls now) (hfair : b.Fair calls) (hse : s ≤ e) :
    (allowedWithin s e calls : K) ≤ b.burst + (e - s) * b.rate := by
  induction calls generalizing now with
  | nil =>
    have hwindow := mul_nonneg (sub_nonneg.mpr hse) b.rate_nonneg
    simpa [allowedWithin] using add_nonneg b.burst_nonneg hwindow
  | cons c past ih =>
    obtain ⟨t, allowed⟩ := c
    by_cases hc : allowed = true ∧ s ≤ t ∧ t ≤ e
    · obtain ⟨hallowed, hst, hte⟩ := hc
      -- The newest call of the window was allowed, so the window up to it had room.
      have hroom := (le_level_iff hordered.2).mp (hfair.1.mp hallowed) s hst
      have hcount : allowedWithin s e ((t, allowed) :: past) = allowedSince s past + 1 := by
        unfold allowedWithin allowedSince
        rw [List.countP_cons_of_pos (by simp [hallowed, hst, hte])]
        refine congrArg (· + 1) (List.countP_congr fun d hd => ?_)
        have hde : d.1 ≤ e := (hordered.2.le hd).trans hte
        simp [hde]
      rw [hcount, Nat.cast_succ]
      have hlonger := mul_le_mul_of_nonneg_right (sub_le_sub_right hte s) b.rate_nonneg
      linarith
    · have hcount : allowedWithin s e ((t, allowed) :: past) = allowedWithin s e past :=
        List.countP_cons_of_neg (by simpa using hc)
      rw [hcount]
      exact ih hordered.2 hfair.2

end TokenBucket
