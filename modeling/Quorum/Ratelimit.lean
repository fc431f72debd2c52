import Quorum.Js.Dict
import Quorum.Order.TokenBucket

/-!
# The rate limiter

The relay limits what a client may do before it signs in by a token bucket for each address, or for
each `/64` of IPv6 (`ratelimit.rs`).  Full buckets are dropped when the table gets large.

The tokens are read as rational numbers, and times as rational numbers of seconds.  After calls at
times that do not go back, every bucket of the table holds what has accumulated by its last call,
and a bucket that is not in the table would be full (`Tracks`).  So the answers are those of
`TokenBucket` for each client, with the table pruned or not (`limiter_is_token_bucket`).
-/

namespace Quorum.Ratelimit

open Js

/-! ### The source -/

/-- `IpAddr`. -/
inductive IpAddr
  | v4 (octets : Vector UInt8 4)
  | v6 (octets : Vector UInt8 16)
  deriving DecidableEq

/-- `RateLimiter`: for each key the tokens and when they were counted. -/
structure RateLimiter extends TokenBucket ℚ where
  buckets : Dict IpAddr (ℚ × ℚ)

/-- `RateLimiter::per_minute(per_minute)`. -/
def perMinute (n : ℕ) : RateLimiter where
  rate := n / 60
  burst := n
  rate_nonneg := by positivity
  burst_nonneg := by positivity
  buckets := .empty

/-- `bucket_key(ip)`. -/
def bucketKey : IpAddr → IpAddr
  | .v6 o => .v6 (.ofFn fun i => if i.val < 8 then o.get i else 0)
  | .v4 o => .v4 o

/-- `now.duration_since(last)`, which is zero if `last` is later. -/
def durationSince (now last : ℚ) : ℚ := max (now - last) 0

namespace RateLimiter

def prune (now : ℚ) (limiter : RateLimiter) : RateLimiter :=
  { limiter with
    buckets := limiter.buckets.filter fun _ p =>
      decide (p.1 + durationSince now p.2 * limiter.rate < limiter.burst) }

/-- A token is taken from the bucket of a key. -/
def takeToken (key : IpAddr) (now : ℚ) (limiter : RateLimiter) : Bool × RateLimiter :=
  let entry := (limiter.buckets.get? key).getD (limiter.burst, now)
  let tokens := min (entry.1 + durationSince now entry.2 * limiter.rate) limiter.burst
  if 1 ≤ tokens then
    (true, { limiter with buckets := limiter.buckets.set key (tokens - 1, now) })
  else (false, { limiter with buckets := limiter.buckets.set key (tokens, now) })

/-- `allow(key)`. -/
def allow (key : IpAddr) (now : ℚ) (limiter : RateLimiter) : Bool × RateLimiter :=
  let limiter := if 10000 < limiter.buckets.size then limiter.prune now else limiter
  limiter.takeToken (bucketKey key) now

/-- `allow` of a limiter that keeps all buckets. -/
def allowKeeping (key : IpAddr) (now : ℚ) (limiter : RateLimiter) : Bool × RateLimiter :=
  limiter.takeToken (bucketKey key) now

end RateLimiter

/-! ### Runs -/

structure Call where
  ip : IpAddr
  time : ℚ
  allowed : Bool

/-- A call of one of the limiters; the calls are noted, newest first. -/
def serve (answer : IpAddr → ℚ → RateLimiter → Bool × RateLimiter)
    (s : RateLimiter × List Call) (c : IpAddr × ℚ) : RateLimiter × List Call :=
  let r := answer c.1 c.2 s.1
  (r.2, ⟨c.1, c.2, r.1⟩ :: s.2)

def log (answer : IpAddr → ℚ → RateLimiter → Bool × RateLimiter) (limiter : RateLimiter)
    (calls : List (IpAddr × ℚ)) : List Call :=
  (calls.foldl (serve answer) (limiter, [])).2

/-- Two addresses share a bucket: one IPv4 address, or one `/64`. -/
def SameBucket : IpAddr → IpAddr → Prop
  | .v4 o, .v4 o' => o = o'
  | .v6 o, .v6 o' => ∀ i : Fin 16, i.val < 8 → o.get i = o'.get i
  | _, _ => False

/-- The calls that share a bucket with an address, as its bucket sees them. -/
def history (key : IpAddr) (calls : List Call) : List (ℚ × Bool) :=
  (calls.filter fun c => bucketKey c.ip == key).map fun c => (c.time, c.allowed)

theorem bucketKey_eq_iff {ip ip' : IpAddr} : bucketKey ip = bucketKey ip' ↔ SameBucket ip ip' := by
  cases ip <;> cases ip'
  case v4.v4 o o' => simp [bucketKey, SameBucket]
  case v4.v6 o o' => simp [bucketKey, SameBucket]
  case v6.v4 o o' => simp [bucketKey, SameBucket]
  case v6.v6 o o' =>
    unfold bucketKey SameBucket
    rw [IpAddr.v6.injEq, Vector.ext_iff]
    constructor
    · intro h i hi
      simpa [hi] using h i.val i.isLt
    · intro h i hlt
      by_cases hi : i < 8
      · simpa [hi] using h ⟨i, hlt⟩ hi
      · simp [hi]

/-! ### What the table holds -/

/-- The table holds what has accumulated for each key, and what it does not hold is full. -/
structure Tracks (b : TokenBucket ℚ) (limiter : RateLimiter) (calls : List Call) (now : ℚ) :
    Prop where
  same : limiter.toTokenBucket = b
  ordered : ∀ key, TokenBucket.Ordered (history key calls) now
  fair : ∀ key, b.Fair (history key calls)
  present : ∀ key tokens last, limiter.buckets.get? key = some (tokens, last) →
    ∃ allowed past, history key calls = (last, allowed) :: past ∧
      tokens = b.level past last - TokenBucket.cost allowed
  absent : ∀ key, limiter.buckets.get? key = none →
    ∀ t, now ≤ t → b.level (history key calls) t = b.burst

variable {b : TokenBucket ℚ} {limiter : RateLimiter} {calls : List Call} {now t : ℚ}
  {key ip : IpAddr}

theorem durationSince_of_le {last : ℚ} (h : last ≤ now) : durationSince now last = now - last :=
  max_eq_left (sub_nonneg.mpr h)

/-- What a bucket of the table has come to is what has accumulated. -/
theorem Tracks.level_of_present {tokens last : ℚ} (h : Tracks b limiter calls now) (ht : now ≤ t)
    (hkey : limiter.buckets.get? key = some (tokens, last)) :
    b.level (history key calls) t = min (tokens + durationSince t last * b.rate) b.burst := by
  obtain ⟨allowed, past, hhistory, rfl⟩ := h.present key tokens last hkey
  have hlast : last ≤ now := by
    have hordered := h.ordered key
    rw [hhistory] at hordered
    exact hordered.1
  rw [hhistory, durationSince_of_le (hlast.trans ht)]
  rfl

/-- Dropping full buckets loses nothing. -/
theorem Tracks.prune (h : Tracks b limiter calls now) (ht : now ≤ t) :
    Tracks b (limiter.prune t) calls t := by
  have hsame := h.same
  subst hsame
  refine ⟨rfl, fun key => (h.ordered key).mono ht, h.fair, fun key tokens last hkey => ?_,
    fun key hkey t' ht' => ?_⟩
  · exact h.present key tokens last (Dict.get?_of_filter hkey)
  · rw [RateLimiter.prune, Dict.get?_filter] at hkey
    cases hentry : limiter.buckets.get? key with
    | none => exact h.absent key hentry t' (ht.trans ht')
    | some entry =>
      obtain ⟨tokens, last⟩ := entry
      have hfull : limiter.burst ≤ tokens + durationSince t last * limiter.rate := by
        simpa [hentry] using hkey
      have hlonger : durationSince t last * limiter.rate ≤ durationSince t' last * limiter.rate :=
        mul_le_mul_of_nonneg_right (max_le_max_right 0 (sub_le_sub_right ht' last))
          limiter.rate_nonneg
      rw [h.level_of_present (ht.trans ht') hentry]
      exact min_eq_right (by linarith)

/-- **A token is taken exactly if one has accumulated.** -/
theorem Tracks.takeToken (h : Tracks b limiter calls now) (ht : now ≤ t) :
    limiter.takeToken key t =
      (decide (1 ≤ b.level (history key calls) t),
        { limiter with
          buckets := limiter.buckets.set key
            (b.level (history key calls) t -
              TokenBucket.cost (decide (1 ≤ b.level (history key calls) t)), t) }) := by
  have hsame := h.same
  subst hsame
  have htokens : min (((limiter.buckets.get? key).getD (limiter.burst, t)).1 +
      durationSince t ((limiter.buckets.get? key).getD (limiter.burst, t)).2 * limiter.rate)
        limiter.burst = limiter.level (history key calls) t := by
    cases hentry : limiter.buckets.get? key with
    | none =>
      rw [h.absent key hentry t ht, Option.getD_none, durationSince_of_le le_rfl, sub_self,
        zero_mul, add_zero, min_self]
    | some entry => exact (h.level_of_present ht hentry).symm
  unfold RateLimiter.takeToken
  dsimp only
  rw [htokens]
  split
  case isTrue hone => rw [decide_eq_true hone, TokenBucket.cost]
  case isFalse hone => rw [decide_eq_false hone, TokenBucket.cost, sub_zero]

theorem history_cons (c : Call) :
    history key (c :: calls) = if bucketKey c.ip = key then
      (c.time, c.allowed) :: history key calls else history key calls := by
  unfold history
  by_cases hkey : bucketKey c.ip = key
  · rw [List.filter_cons_of_pos (by simpa using hkey), if_pos hkey, List.map_cons]
  · rw [List.filter_cons_of_neg (by simpa using hkey), if_neg hkey]

/-- A call that is answered after what has accumulated. -/
theorem Tracks.served (h : Tracks b limiter calls now) (ht : now ≤ t) :
    Tracks b (limiter.takeToken (bucketKey ip) t).2
      (⟨ip, t, (limiter.takeToken (bucketKey ip) t).1⟩ :: calls) t := by
  rw [h.takeToken ht]
  refine ⟨h.same, fun key => ?_, fun key => ?_, fun key tokens last hkey => ?_,
    fun key hkey => ?_⟩
  · rw [history_cons]
    split
    · exact ⟨le_rfl, (h.ordered key).mono ht⟩
    · exact (h.ordered key).mono ht
  · rw [history_cons]
    split
    case isTrue hip =>
      subst hip
      exact ⟨decide_eq_true_iff, h.fair _⟩
    case isFalse => exact h.fair key
  · rw [history_cons]
    split
    case isTrue hip =>
      subst hip
      rw [Dict.get?_set_self] at hkey
      obtain ⟨rfl, rfl⟩ := Prod.mk.inj (Option.some.inj hkey)
      exact ⟨_, _, rfl, rfl⟩
    case isFalse hip =>
      rw [Dict.get?_set_of_ne _ _ hip] at hkey
      exact h.present key tokens last hkey
  · by_cases hip : bucketKey ip = key
    · rw [hip, Dict.get?_set_self] at hkey
      cases hkey
    · rw [Dict.get?_set_of_ne _ _ hip] at hkey
      rw [history_cons, if_neg hip]
      exact fun t' ht' => h.absent key hkey t' (ht.trans ht')

/-! ### Whole runs -/

/-- A limiter that answers after what has accumulated. -/
def Follows (answer : IpAddr → ℚ → RateLimiter → Bool × RateLimiter) : Prop :=
  ∀ {b limiter calls now t} (ip), Tracks b limiter calls now → now ≤ t →
    (answer ip t limiter).1 = decide (1 ≤ b.level (history (bucketKey ip) calls) t) ∧
      Tracks b (answer ip t limiter).2 (⟨ip, t, (answer ip t limiter).1⟩ :: calls) t

theorem follows_allowKeeping : Follows RateLimiter.allowKeeping :=
  fun _ h ht => ⟨congrArg Prod.fst (h.takeToken ht), h.served ht⟩

theorem follows_allow : Follows RateLimiter.allow := by
  intro b limiter calls now t ip h ht
  unfold RateLimiter.allow
  split
  · exact follows_allowKeeping ip (h.prune ht) le_rfl
  · exact follows_allowKeeping ip h ht

/-- **Limiters that answer after what has accumulated answer alike, call after call.** -/
theorem Follows.run {answer answer' : IpAddr → ℚ → RateLimiter → Bool × RateLimiter}
    (ha : Follows answer) (ha' : Follows answer') {limiter' : RateLimiter}
    {next : List (IpAddr × ℚ)} (h : Tracks b limiter calls now) (h' : Tracks b limiter' calls now)
    (hclock : next.Pairwise fun c d => c.2 ≤ d.2) (hnow : ∀ c ∈ next, now ≤ c.2) :
    (next.foldl (serve answer) (limiter, calls)).2 =
        (next.foldl (serve answer') (limiter', calls)).2 ∧
      ∃ limiter'' now', Tracks b limiter''
        (next.foldl (serve answer) (limiter, calls)).2 now' := by
  induction next generalizing limiter limiter' calls now with
  | nil => exact ⟨rfl, limiter, now, h⟩
  | cons c next ih =>
    obtain ⟨hlater, hclock⟩ := List.pairwise_cons.mp hclock
    have hc := hnow c List.mem_cons_self
    obtain ⟨hfirst, hnext⟩ := ha c.1 h hc
    obtain ⟨hfirst', hnext'⟩ := ha' c.1 h' hc
    rw [hfirst'.trans hfirst.symm] at hnext'
    have hserve : serve answer' (limiter', calls) c = ((answer' c.1 c.2 limiter').2,
        ⟨c.1, c.2, (answer c.1 c.2 limiter).1⟩ :: calls) := by
      rw [hfirst, ← hfirst']
      rfl
    rw [List.foldl_cons, List.foldl_cons, hserve]
    exact ih hnext hnext' hclock hlater

theorem tracks_perMinute (n : ℕ) : Tracks (perMinute n).toTokenBucket (perMinute n) [] now :=
  ⟨rfl, fun _ => trivial, fun _ => trivial, fun _ _ _ h => absurd h.symm (Option.some_ne_none _),
    fun _ _ _ _ => rfl⟩

theorem log_tracked (n : ℕ) {next : List (IpAddr × ℚ)}
    (hclock : next.Pairwise fun c d => c.2 ≤ d.2) :
    log RateLimiter.allow (perMinute n) next = log RateLimiter.allowKeeping (perMinute n) next ∧
      ∃ limiter now, Tracks (perMinute n).toTokenBucket limiter
        (log RateLimiter.allow (perMinute n) next) now := by
  have hbelow : ∃ now, ∀ c ∈ next, now ≤ c.2 := by
    cases next with
    | nil => exact ⟨0, fun c hc => absurd hc List.not_mem_nil⟩
    | cons c next =>
      refine ⟨c.2, fun d hd => ?_⟩
      rcases List.mem_cons.mp hd with rfl | hd
      · exact le_rfl
      · exact List.rel_of_pairwise_cons hclock hd
  obtain ⟨now, hnow⟩ := hbelow
  exact follows_allow.run follows_allowKeeping (tracks_perMinute n) (tracks_perMinute n) hclock hnow

theorem history_append {post pre : List Call} :
    history key (post ++ pre) = history key post ++ history key pre := by
  unfold history
  rw [List.filter_append, List.map_append]

theorem fair_of_append {past post : List (ℚ × Bool)} (h : b.Fair (post ++ past)) : b.Fair past := by
  induction post with
  | nil => exact h
  | cons c post ih => exact ih h.2

instance decidableSameBucket (ip ip' : IpAddr) : Decidable (SameBucket ip ip') :=
  decidable_of_iff _ bucketKey_eq_iff

/-- The calls of a bucket that were allowed in a window. -/
def allowedIn (ip : IpAddr) (s e : ℚ) (calls : List Call) : ℕ :=
  calls.countP fun c =>
    decide (SameBucket c.ip ip) && (c.allowed && decide (s ≤ c.time ∧ c.time ≤ e))

theorem allowedIn_eq {s e : ℚ} :
    allowedIn ip s e calls = TokenBucket.allowedWithin s e (history (bucketKey ip) calls) := by
  unfold allowedIn TokenBucket.allowedWithin history
  rw [List.countP_map, List.countP_filter]
  refine List.countP_congr fun c _ => ?_
  simp [bucketKey_eq_iff, and_comm]

/-- What a token bucket for each client prefix is. -/
structure IsTokenBucket (n : ℕ) (next : List (IpAddr × ℚ)) : Prop where
  /-- Dropping full buckets changes no answer. -/
  pruned : log RateLimiter.allow (perMinute n) next =
    log RateLimiter.allowKeeping (perMinute n) next
  /-- What is allowed in a window. -/
  bounded : ∀ ip s t, 0 ≤ t →
    (allowedIn ip s (s + t) (log RateLimiter.allow (perMinute n) next) : ℚ) ≤
      (perMinute n).burst + (perMinute n).rate * t
  /-- A call is refused only if no token has accumulated from the calls before it. -/
  refused : ∀ post c pre, log RateLimiter.allow (perMinute n) next = post ++ c :: pre →
    c.allowed = false →
      (perMinute n).level (history (bucketKey c.ip) pre) c.time < 1

/-- **The limiter is a token bucket for each client prefix.** -/
theorem limiter_is_token_bucket (n : ℕ) (next : List (IpAddr × ℚ))
    (hclock : next.Pairwise fun c d => c.2 ≤ d.2) : IsTokenBucket n next := by
  obtain ⟨hpruned, limiter, now, htracks⟩ := log_tracked n hclock
  refine ⟨hpruned, fun ip s t ht => ?_, fun post c pre hlog hrefused => ?_⟩
  · have hwindow := TokenBucket.allowedWithin_le (htracks.ordered (bucketKey ip))
      (htracks.fair (bucketKey ip)) (le_add_of_nonneg_right ht : s ≤ s + t)
    rw [add_sub_cancel_left, mul_comm] at hwindow
    rw [allowedIn_eq]
    exact hwindow
  · have hfair := htracks.fair (bucketKey c.ip)
    rw [hlog, history_append] at hfair
    have hcall := fair_of_append hfair
    rw [history_cons, if_pos rfl, hrefused] at hcall
    exact not_le.mp fun hone => Bool.false_ne_true (hcall.1.mpr hone)

theorem limiter_is_token_bucket_two :
    [(IpAddr.v4 (.replicate 4 1), (0 : ℚ)), (IpAddr.v4 (.replicate 4 1), 0),
      (IpAddr.v4 (.replicate 4 1), 1)].Pairwise (fun c d => c.2 ≤ d.2) ∧
    IsTokenBucket 2 [(.v4 (.replicate 4 1), 0), (.v4 (.replicate 4 1), 0),
      (.v4 (.replicate 4 1), 1)] :=
  have hclock := by decide +kernel
  ⟨hclock, limiter_is_token_bucket 2 _ hclock⟩

/-- The third of three calls is too much for two in a minute. -/
example : (log RateLimiter.allow (perMinute 2) [(.v4 (.replicate 4 1), 0),
    (.v4 (.replicate 4 1), 0), (.v4 (.replicate 4 1), 1)]).map Call.allowed =
      [false, true, true] := by
  decide +kernel

end Quorum.Ratelimit
