import Spooled.Rate.TokenBucket

/-!
# How long a refused request is told to wait

`plan_rate_limit_middleware` answers a refusal with `Retry-After`, in whole
seconds. The token bucket's wait is rounded up twice and suffices. The window
of a key reports Redis' `TTL`, which is rounded to the nearest second, and cuts
off what has passed between two readings of the clock, so that it may end
before the window does. It suffices exactly where the `TTL` was not rounded down
and no time passes between the readings, and where at most a second is left.
-/

namespace Spooled.TokenBucket

/-- `retry_after_ms.div_ceil(1000)`. -/
def Answer.retryAfter (a : Answer) : Int := ⌈(a.retryAfterMs : ℚ) / 1000⌉

/-- The key of a window: requests counted, and its end in seconds. -/
structure Window where
  count : Nat
  expiresAt : ℚ

/-- `check_rate_limit` with a window of a minute: the window it leaves and its answer. -/
def checkRateLimit (limit : Nat) (stored : Option Window) (time : ℚ) : Bool × Window :=
  let w := (stored.filter fun w => time < w.expiresAt).elim ⟨1, time + 60⟩
    fun w => { w with count := w.count + 1 }
  (w.count ≤ limit, w)

/-- The reply's `TTL`: the time left, rounded to the nearest second. -/
def Window.ttl (w : Window) (time : ℚ) : Int := ⌊w.expiresAt - time + 1 / 2⌋

/-- `reset_at`, of a clock read at `read`, seen from one read at `again`. -/
def Window.retryAfter (w : Window) (time read again : ℚ) : Int :=
  max ⌊read + w.ttl time - again⌋ 1

/-- The limit of a key: `per_minute.max(1)`. -/
def keyLimit (perMinute : Int) : Nat := (max perMinute 1).toNat

def millis (time : ℚ) : Int := ⌊time * 1000⌋

section Wait

variable {p : Plan} {time later : ℚ}

theorem millis_add {r : Int} (h : time + r ≤ later) : millis time + r * 1000 ≤ millis later := by
  unfold millis
  rw [← Int.floor_add_intCast]
  refine Int.floor_le_floor ?_
  push_cast
  linarith

theorem refill_suffices (hrate : 1 ≤ p.rate) (tokens : ℚ) :
    let r := ⌈((max ⌈(1 - tokens) * 1000 / p.rate⌉ 0 : Int) : ℚ) / 1000⌉
    0 ≤ r ∧ 1 ≤ tokens + r * p.rate := by
  intro r
  have hpos : (0 : ℚ) < p.rate := by exact_mod_cast hrate
  have hms : (1 - tokens) * 1000 / p.rate ≤ (max ⌈(1 - tokens) * 1000 / p.rate⌉ 0 : Int) :=
    (Int.le_ceil _).trans (by exact_mod_cast le_max_left _ _)
  have hsec : ((max ⌈(1 - tokens) * 1000 / p.rate⌉ 0 : Int) : ℚ) / 1000 ≤ r := Int.le_ceil _
  rw [div_le_iff₀ hpos] at hms
  refine ⟨Int.ceil_nonneg (div_nonneg (by exact_mod_cast le_max_right _ _) (by norm_num)), ?_⟩
  nlinarith

theorem refilled_after {b : Bucket} {r : Int} (hcap : 1 ≤ p.capacity) (hts : b.ts = millis time)
    (hr : 0 ≤ r) (hfull : 1 ≤ b.tokens + r * p.rate) (h : time + r ≤ later) :
    1 ≤ p.refilled ((some b).filter fun b => later < b.expiresAt) (millis later) := by
  have hcap : (1 : ℚ) ≤ p.capacity := by exact_mod_cast hcap
  have hclock := millis_add h
  unfold Plan.refilled
  cases hlive : (some b).filter fun b => later < b.expiresAt with
  | none =>
    have hfull : (1 : ℚ) ≤ p.capacity + (0 : Int) / 1000 * p.rate := by simpa using hcap
    simpa using le_min hcap hfull
  | some b' =>
    obtain rfl : b = b' := (Option.filter_eq_some_iff.1 hlive).1 |> Option.some.inj
    have hdelta : ¬ millis later - b.ts < 0 := by omega
    have hway : (r * 1000 : ℚ) ≤ ((millis later - b.ts : Int) : ℚ) := by
      exact_mod_cast (by omega : r * 1000 ≤ millis later - b.ts)
    refine le_min hcap ?_
    simp only [Option.elim_some, hdelta, if_false]
    have hrate : (0 : ℚ) ≤ p.rate := by positivity
    nlinarith

/-- A window's answer reaches its end: the `TTL` was not rounded down and the clock readings
agree, or at most a second is left. -/
def Window.Reaches (w : Window) (time read again : ℚ) : Prop :=
  (again = read ∧ w.expiresAt - time ≤ w.ttl time) ∨ w.expiresAt - time ≤ 1

/-- The `TTL` is less than a second more than what is left, so a second cut off is missed. -/
theorem Window.le_retryAfter_iff {w : Window} {read again : ℚ} (hclock : read ≤ again) :
    w.expiresAt - time ≤ w.retryAfter time read again ↔ w.Reaches time read again := by
  unfold Window.retryAfter Window.Reaches
  rw [Int.cast_max, le_max_iff, Int.cast_one]
  refine or_congr_left ?_
  rcases hclock.eq_or_lt with rfl | hlt
  · rw [add_sub_cancel_left, Int.floor_intCast]
    exact (and_iff_right rfl).symm
  · have hcut : ⌊read + w.ttl time - again⌋ < w.ttl time := by
      rw [Int.floor_lt]
      linarith
    have hcut : (⌊read + w.ttl time - again⌋ : ℚ) + 1 ≤ w.ttl time := by exact_mod_cast hcut
    have hround : (w.ttl time : ℚ) ≤ w.expiresAt - time + 1 / 2 := Int.floor_le _
    exact iff_of_false (by linarith) fun h => hlt.ne' h.1

theorem allowed_after_iff {limit : Nat} {stored : Option Window} (hlimit : 1 ≤ limit)
    (hno : (checkRateLimit limit stored time).1 = false) :
    (checkRateLimit limit (some (checkRateLimit limit stored time).2) later).1 = true ↔
      (checkRateLimit limit stored time).2.expiresAt ≤ later := by
  have hover : limit < (checkRateLimit limit stored time).2.count :=
    Nat.lt_of_not_le (of_decide_eq_false hno)
  generalize (checkRateLimit limit stored time).2 = w at hover ⊢
  unfold checkRateLimit
  by_cases hlive : later < w.expiresAt
  · simp [Option.filter, hlive, show ¬ w.count + 1 ≤ limit by omega]
  · simp [Option.filter, hlive, hlimit, not_lt.1 hlive]

/-- **The wait of `Retry-After` suffices** for the bucket of an organization, and for a window
exactly if its answer reaches its end. -/
theorem retry_after_suffices (p : Plan) (hrate : 1 ≤ p.rate) (hcap : 1 ≤ p.capacity)
    (perMinute : Int) :
    (∀ stored time later,
      let r := p.checkTokenBucket stored time (millis time)
      r.1.allowed = false → time + r.1.retryAfter ≤ later →
      (p.checkTokenBucket r.2 later (millis later)).1.allowed = true) ∧
    (∀ stored time read again, read ≤ again →
      let r := checkRateLimit (keyLimit perMinute) stored time
      r.1 = false →
      ((∀ later, time + r.2.retryAfter time read again ≤ later →
        (checkRateLimit (keyLimit perMinute) (some r.2) later).1 = true) ↔
          r.2.Reaches time read again)) := by
  constructor
  · intro stored time later r hno hlater
    have hblocked : ¬ (p.rate = 0 ∨ p.capacity = 0) := by omega
    simp only [r, Plan.checkTokenBucket, if_neg hblocked, Plan.script, Answer.retryAfter] at hno hlater ⊢
    simp only [hno, Bool.false_eq_true, if_false] at hlater ⊢
    obtain ⟨hr, hfull⟩ := refill_suffices hrate (p.refilled _ (millis time))
    exact decide_eq_true (refilled_after hcap rfl hr hfull hlater)
  · intro stored time read again hclock r hno
    have hlimit : 1 ≤ keyLimit perMinute := by unfold keyLimit; omega
    rw [← Window.le_retryAfter_iff hclock, sub_le_iff_le_add']
    constructor
    · intro hall
      exact (allowed_after_iff hlimit hno).1 (hall _ le_rfl)
    · intro hend later hlater
      exact (allowed_after_iff hlimit hno).2 (hend.trans hlater)

/-- An empty bucket that gains a token a second, and a full window with 30 seconds left. -/
theorem retry_after_suffices_second :
    (let r := (⟨1, 1⟩ : Plan).checkTokenBucket (some ⟨0, 0, 60⟩) 0 (millis 0)
     r.1.allowed = false ∧
       ((⟨1, 1⟩ : Plan).checkTokenBucket r.2 1 (millis 1)).1.allowed = true) ∧
    (let r := checkRateLimit (keyLimit 1) (some ⟨1, 30⟩) 0
     r.1 = false ∧ r.2.Reaches 0 0 0 ∧
       (checkRateLimit (keyLimit 1) (some r.2) 30).1 = true) := by
  have h := retry_after_suffices ⟨1, 1⟩ (by decide) (by decide) 1
  have hreach : (checkRateLimit (keyLimit 1) (some ⟨1, 30⟩) 0).2.Reaches 0 0 0 :=
    .inl ⟨rfl, by decide +kernel⟩
  exact ⟨⟨by decide +kernel, h.1 _ 0 1 (by decide +kernel) (by decide +kernel)⟩,
    by decide +kernel, hreach,
    (h.2 (some ⟨1, 30⟩) 0 0 0 le_rfl (by decide +kernel)).2 hreach 30 (by decide +kernel)⟩

/-- With 30.4 seconds left the answer is 30, and a request 30 seconds later is refused. -/
theorem retry_after_window_short :
    let r := checkRateLimit (keyLimit 1) (some ⟨1, 304 / 10⟩) 0
    r.1 = false ∧ r.2.retryAfter 0 0 0 = 30 ∧
      (checkRateLimit (keyLimit 1) (some r.2) 30).1 = false := by
  decide +kernel

end Wait

end Spooled.TokenBucket
