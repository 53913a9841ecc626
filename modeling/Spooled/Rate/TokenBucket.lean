import Spooled.Lib.Run
import Mathlib

/-!
# The token bucket

`RedisCache::check_token_bucket`: a script that refills a bucket by the time
since the clock of the last call and takes one token. Numbers of the script are
rationals, and a call is atomic. The key keeps `tokens` and `ts`; the clock is
the caller's, in milliseconds, and the key expires by true time.

What is left in the bucket and what has been allowed never exceed the capacity
and the refill of the clock's way from the first call to the last. A call whose
clock is behind `ts` gets no refill, but sets `ts` back, so that the next one is
refilled for the same time again.
-/

namespace Spooled.TokenBucket

/-! ## The script -/

/-- Parameters of a bucket: tokens per second, and burst. -/
structure Plan where
  rate : Nat
  capacity : Nat

/-- What the key holds, and until when (in seconds of true time). -/
structure Bucket where
  tokens : ℚ
  ts : Int
  expiresAt : ℚ
  deriving DecidableEq

/-- `TokenBucketResult`. -/
structure Answer where
  allowed : Bool
  remaining : Int
  retryAfterMs : Int
  nextTokenMs : Int
  deriving DecidableEq

namespace Plan

variable (p : Plan)

/-- At least a minute, and twice the time to fill the bucket. -/
def ttlMs : Int := max 60 (max (⌈(p.capacity : ℚ) / p.rate⌉ * 2) 1) * 1000

/-- The tokens before the call takes one; a key that is not there counts as full and as written
just now. -/
def refilled (data : Option Bucket) (nowMs : Int) : ℚ :=
  let tokens := data.elim (p.capacity : ℚ) (·.tokens)
  let ts := data.elim nowMs (·.ts)
  let delta := if nowMs - ts < 0 then 0 else nowMs - ts
  min (p.capacity : ℚ) (tokens + (delta : ℚ) / 1000 * p.rate)

/-- The script: its answer and the key it leaves, for a call at `time`. -/
def script (data : Option Bucket) (time : ℚ) (nowMs : Int) : Answer × Bucket :=
  let tokens := p.refilled data nowMs
  let allowed : Bool := 1 ≤ tokens
  let left := if allowed then tokens - 1 else tokens
  let retryMs := if allowed then 0 else ⌈(1 - tokens) * 1000 / p.rate⌉
  let nextMs := if ⌊left⌋ < p.capacity then ⌈(⌊left⌋ + 1 - left) * 1000 / p.rate⌉ else 0
  (⟨allowed, max ⌊left⌋ 0, max retryMs 0, max nextMs 0⟩, ⟨left, nowMs, time + p.ttlMs / 1000⟩)

/-- `check_token_bucket`: a rate or a burst of zero blocks, without the script. -/
def checkTokenBucket (stored : Option Bucket) (time : ℚ) (nowMs : Int) :
    Answer × Option Bucket :=
  if p.rate = 0 ∨ p.capacity = 0 then (⟨false, 0, 60000, 60000⟩, stored)
  else
    let data := stored.filter fun b => time < b.expiresAt
    ((p.script data time nowMs).1, some (p.script data time nowMs).2)

end Plan

/-! ## Runs of calls -/

/-- A call at a true time, in seconds, with the clock of its replica. -/
structure Call where
  time : ℚ
  nowMs : Int
  deriving DecidableEq

/-- The key, and the calls answered so far, newest first. -/
structure State where
  stored : Option Bucket
  served : List (Call × Bool)

/-- Calls come in the order of true time. -/
def State.call (p : Plan) (s : State) (c : Call) : Option State :=
  if s.served.head?.all (fun x => x.1.time ≤ c.time) then
    let r := p.checkTokenBucket s.stored c.time c.nowMs
    some ⟨r.2, (c, r.1.allowed) :: s.served⟩
  else none

/-- Calls on one key, by replicas whose clocks are at most `skew` seconds off. -/
def bucketSystem (p : Plan) (skew : ℚ) : Machine where
  State := State
  Label := Call
  Init s := s.stored = none ∧ s.served = []
  next s c := if |(c.nowMs : ℚ) / 1000 - c.time| ≤ skew then s.call p c else none

def State.allowedIn (s : State) (a b : ℚ) : Nat :=
  s.served.countP fun x => x.2 && decide (a ≤ x.1.time) && decide (x.1.time ≤ b)

/-- The clock of the call is not behind the one of the last call; and where the key has expired
since, it is ahead by the time that fills the bucket. -/
def Call.steady (p : Plan) (s : State) (c : Call) : Prop :=
  ∀ b, s.stored = some b →
    b.ts ≤ c.nowMs ∧ (b.expiresAt ≤ c.time → (p.capacity : ℚ) * 1000 ≤ p.rate * (c.nowMs - b.ts))

/-! ## One call -/

section Step

variable {p : Plan} {data : Option Bucket} {time : ℚ} {nowMs : Int}

theorem refilled_le : p.refilled data nowMs ≤ p.capacity := min_le_left _ _

theorem refilled_nonneg (hdata : ∀ b ∈ data, 0 ≤ b.tokens) : 0 ≤ p.refilled data nowMs := by
  have hcap : (0 : ℚ) ≤ p.capacity := by positivity
  have htokens : (0 : ℚ) ≤ data.elim (p.capacity : ℚ) (·.tokens) := by
    cases data with
    | none => exact hcap
    | some b => exact hdata b rfl
  have hdelta : ∀ d : Int, (0 : ℚ) ≤ ((if d < 0 then 0 else d : Int) : ℚ) := by
    intro d
    split
    · exact le_refl _
    · exact_mod_cast (by omega)
  have hd := hdelta (nowMs - data.elim nowMs (·.ts))
  unfold Plan.refilled
  refine le_min hcap ?_
  positivity

theorem refilled_le_of_le {b : Bucket} (h : b.ts ≤ nowMs) :
    p.refilled (some b) nowMs ≤ b.tokens + (nowMs - b.ts) / 1000 * p.rate := by
  have hdelta : ¬ nowMs - b.ts < 0 := by omega
  unfold Plan.refilled
  simp only [Option.elim_some, hdelta, if_false]
  refine le_trans (min_le_right _ _) ?_
  push_cast
  exact le_refl _

def worth (allowed : Bool) : ℚ := if allowed then 1 else 0

theorem script_tokens : (p.script data time nowMs).2.tokens + worth (p.script data time nowMs).1.allowed
    = p.refilled data nowMs := by
  unfold Plan.script worth
  by_cases h : 1 ≤ p.refilled data nowMs
  · simp [h]
  · simp [h]

theorem script_nonneg (hdata : ∀ b ∈ data, 0 ≤ b.tokens) :
    0 ≤ (p.script data time nowMs).2.tokens := by
  have h0 : 0 ≤ p.refilled data nowMs := refilled_nonneg hdata
  unfold Plan.script
  by_cases h : 1 ≤ p.refilled data nowMs
  · simp [h]
  · simp [h, h0]

end Step

/-! ## What has been spent -/

def State.allowedSince (s : State) (a : ℚ) : Nat :=
  s.served.countP fun x => x.2 && decide (a ≤ x.1.time)

def State.Kept (s : State) : Prop :=
  match s.stored, s.served with
  | none, [] => True
  | some b, (c, _) :: served => b.ts = c.nowMs ∧ 0 ≤ b.tokens ∧ ∀ x ∈ served, x.1.time ≤ c.time
  | _, _ => False

/-- Since the first call of a stretch, what is left and what has been allowed are paid for by
the capacity and the way of the clock. -/
def State.Paid (p : Plan) (a : ℚ) (s : State) : Prop :=
  (∀ x ∈ s.served, x.1.time < a) ∨ ∃ b first ok, s.stored = some b ∧ (first, ok) ∈ s.served ∧
    a ≤ first.time ∧
    s.allowedSince a + b.tokens ≤ p.capacity + (b.ts - first.nowMs) / 1000 * (p.rate : ℚ)

variable {p : Plan} {s s' : State} {c : Call} {a b skew : ℚ}

theorem State.allowedSince_eq_zero (h : ∀ x ∈ s.served, x.1.time < a) : s.allowedSince a = 0 := by
  unfold State.allowedSince
  refine List.countP_eq_zero.2 fun x hx => ?_
  have hlt := h x hx
  simp [hlt]

theorem State.of_call (hrate : 1 ≤ p.rate) (hcap : 1 ≤ p.capacity) (h : s.call p c = some s') :
    (∀ x ∈ s.served.head?, x.1.time ≤ c.time) ∧
      ∃ r, r = p.script (s.stored.filter fun b => c.time < b.expiresAt) c.time c.nowMs ∧
        s' = ⟨some r.2, (c, r.1.allowed) :: s.served⟩ := by
  unfold State.call at h
  split at h
  · next hhead =>
    have hopen : ¬ (p.rate = 0 ∨ p.capacity = 0) := by omega
    simp only [Plan.checkTokenBucket, hopen, if_false] at h
    refine ⟨fun x hx => ?_, _, rfl, (Option.some.inj h).symm⟩
    rw [hx] at hhead
    simpa using hhead
  · cases h

theorem State.Kept.times (h : s.Kept) (hhead : ∀ x ∈ s.served.head?, x.1.time ≤ c.time) :
    ∀ x ∈ s.served, x.1.time ≤ c.time := by
  unfold Kept at h
  intro x hx
  split at h
  · next hserved =>
    rw [hserved] at hx
    cases hx
  · next b c₀ ok served hstored hserved =>
    rw [hserved] at hx hhead
    have hlast : c₀.time ≤ c.time := hhead _ rfl
    rcases List.mem_cons.1 hx with rfl | hx
    · exact hlast
    · exact le_trans (h.2.2 x hx) hlast
  · cases h

theorem State.Kept.tokens (h : s.Kept) {b : Bucket} (hb : s.stored = some b) : 0 ≤ b.tokens := by
  unfold Kept at h
  rw [hb] at h
  split at h
  · next hno _ => cases hno
  · next hb' _ =>
    cases hb'
    exact h.2.1
  · cases h

theorem State.Kept.filter (h : s.Kept) (t : ℚ) :
    ∀ b ∈ s.stored.filter (fun b => t < b.expiresAt), 0 ≤ b.tokens := by
  intro b hb
  exact h.tokens (Option.mem_filter_iff.1 hb).1

theorem refilled_steady (hkept : s.Kept) (hsteady : c.steady p s) {b : Bucket}
    (hb : s.stored = some b) :
    p.refilled (s.stored.filter fun b => c.time < b.expiresAt) c.nowMs
      ≤ b.tokens + (c.nowMs - b.ts) / 1000 * p.rate := by
  obtain ⟨hclock, hexpired⟩ := hsteady b hb
  by_cases hlive : c.time < b.expiresAt
  · rw [hb, Option.filter_some, if_pos (decide_eq_true hlive)]
    exact refilled_le_of_le hclock
  · -- the key is gone, and by its clock the bucket would be full as well
    have hfull := hexpired (not_lt.1 hlive)
    have htokens := hkept.tokens hb
    have hle : p.refilled (s.stored.filter fun b => c.time < b.expiresAt) c.nowMs ≤ p.capacity :=
      refilled_le
    linarith

/-- **One call.** -/
theorem State.Paid.call (hrate : 1 ≤ p.rate) (hcap : 1 ≤ p.capacity) (hkept : s.Kept)
    (hpaid : s.Paid p a) (hsteady : c.steady p s) (h : s.call p c = some s') :
    s'.Kept ∧ s'.Paid p a := by
  obtain ⟨hhead, r, hr, rfl⟩ := State.of_call hrate hcap h
  have htimes := hkept.times hhead
  have hleft : 0 ≤ r.2.tokens := hr ▸ script_nonneg (hkept.filter c.time)
  have hts : r.2.ts = c.nowMs := by rw [hr]; rfl
  have htaken : r.2.tokens + worth r.1.allowed =
      p.refilled (s.stored.filter fun b => c.time < b.expiresAt) c.nowMs := hr ▸ script_tokens
  refine ⟨⟨hts, hleft, htimes⟩, ?_⟩
  by_cases hin : a ≤ c.time
  · -- the call is in the stretch: it adds what it is worth
    have hcount : ((State.mk (some r.2) ((c, r.1.allowed) :: s.served)).allowedSince a : ℚ)
        = s.allowedSince a + worth r.1.allowed := by
      unfold State.allowedSince worth
      rw [List.countP_cons]
      cases r.1.allowed with
      | false => simp
      | true => simp [hin]
    rcases hpaid with hnone | ⟨b, first, ok, hb, hfirst, hafter, hpaid⟩
    · have hzero := State.allowedSince_eq_zero hnone
      refine .inr ⟨r.2, c, r.1.allowed, rfl, List.mem_cons_self, hin, ?_⟩
      have hle : p.refilled (s.stored.filter fun b => c.time < b.expiresAt) c.nowMs
          ≤ p.capacity := refilled_le
      rw [hcount, hzero, hts]
      push_cast
      linarith
    · have hle := refilled_steady hkept hsteady hb
      refine .inr ⟨r.2, first, ok, rfl, List.mem_cons_of_mem _ hfirst, hafter, ?_⟩
      rw [hcount, hts]
      linarith
  · refine .inl fun x hx => ?_
    rcases List.mem_cons.1 hx with rfl | hx
    · exact not_le.1 hin
    · exact lt_of_le_of_lt (htimes x hx) (not_le.1 hin)

/-! ## Whole runs -/

/-- Clocks of the calls answered so far are at most `skew` seconds off. -/
def State.Near (skew : ℚ) (s : State) : Prop :=
  ∀ x ∈ s.served, |(x.1.nowMs : ℚ) / 1000 - x.1.time| ≤ skew

theorem State.Paid.allowedIn_le (hpaid : s.Paid p a) (hkept : s.Kept) (hnear : s.Near skew)
    (hab : a ≤ b) (hskew : 0 ≤ skew) (hlast : ∀ x ∈ s.served, x.1.time ≤ b) :
    (s.allowedIn a b : ℚ) ≤ p.capacity + p.rate * (b - a + 2 * skew) := by
  have hrate : (0 : ℚ) ≤ p.rate := by positivity
  have hcap : (0 : ℚ) ≤ p.capacity := by positivity
  have hwhole : s.allowedIn a b = s.allowedSince a := by
    unfold State.allowedIn State.allowedSince
    refine List.countP_congr fun x hx => ?_
    have hx := hlast x hx
    simp [hx]
  rcases hpaid with hnone | ⟨k, first, ok, hk, hfirst, hafter, hpaid⟩
  · rw [hwhole, State.allowedSince_eq_zero hnone]
    have hspan : 0 ≤ b - a + 2 * skew := by linarith
    have := mul_nonneg hrate hspan
    push_cast
    linarith
  · -- the clock of the last call and the clock of the first one, each off by at most the skew
    have htokens := hkept.tokens hk
    have hclock : (k.ts : ℚ) / 1000 ≤ b + skew := by
      unfold State.Kept at hkept
      rw [hk] at hkept
      split at hkept
      · next hno _ => cases hno
      · next k' c ok' served hk' hserved =>
        cases hk'
        have hmem : (c, ok') ∈ s.served := hserved ▸ List.mem_cons_self
        have hoff := (abs_le.1 (hnear _ hmem)).2
        have htime := hlast _ hmem
        rw [hkept.1]
        linarith
      · cases hkept
    have hstart : a - skew ≤ (first.nowMs : ℚ) / 1000 := by
      have hoff := (abs_le.1 (hnear _ hfirst)).1
      linarith
    have hway : ((k.ts : ℚ) - first.nowMs) / 1000 ≤ b - a + 2 * skew := by
      have : ((k.ts : ℚ) - first.nowMs) / 1000 = (k.ts : ℚ) / 1000 - (first.nowMs : ℚ) / 1000 := by
        ring
      linarith
    have hmul := mul_le_mul_of_nonneg_right hway hrate
    rw [hwhole]
    linarith

theorem allowedIn_cons_of_lt {stored stored' : Option Bucket} {served : List (Call × Bool)}
    {ok : Bool} (h : b < c.time) : (State.mk stored' ((c, ok) :: served)).allowedIn a b =
      (State.mk stored served).allowedIn a b := by
  unfold State.allowedIn
  rw [List.countP_cons]
  have hno : ¬ c.time ≤ b := not_le.2 h
  simp [hno]

theorem bucket_invariant (hrate : 1 ≤ p.rate) (hcap : 1 ≤ p.capacity) (hskew : 0 ≤ skew)
    (hab : a ≤ b) {h : List ((bucketSystem p skew).State × (bucketSystem p skew).Label)}
    (hr : (bucketSystem p skew).Run s h)
    (hsteady : (bucketSystem p skew).Steps (fun s c => Call.steady p s c) h) :
    (s.Kept ∧ s.Paid p a ∧ s.Near skew) ∧
      (s.allowedIn a b : ℚ) ≤ p.capacity + p.rate * (b - a + 2 * skew) := by
  refine Machine.Run.invariant (C := fun s c => Call.steady p s c)
    (I := fun s _ => (State.Kept s ∧ State.Paid p a s ∧ State.Near skew s) ∧
      (State.allowedIn s a b : ℚ) ≤ p.capacity + p.rate * (b - a + 2 * skew)) ?_ ?_ hr hsteady
  · rintro ⟨stored, served⟩ ⟨rfl, rfl⟩
    have hpaid : State.Paid p a ⟨none, []⟩ := .inl nofun
    have hkept : State.Kept ⟨none, []⟩ := trivial
    exact ⟨⟨hkept, hpaid, nofun⟩, hpaid.allowedIn_le hkept nofun hab hskew nofun⟩
  · rintro s h c s' - - ⟨⟨hkept, hpaid, hnear⟩, hbound⟩ hsteady hn
    have hn : (if |(c.nowMs : ℚ) / 1000 - c.time| ≤ skew then State.call p s c else none)
        = some s' := hn
    split at hn
    · next hoff =>
      obtain ⟨hkept', hpaid'⟩ := hpaid.call hrate hcap hkept hsteady hn
      obtain ⟨hhead, r, -, rfl⟩ := State.of_call hrate hcap hn
      have hnear' : State.Near skew ⟨some r.2, (c, r.1.allowed) :: s.served⟩ := by
        intro x hx
        rcases List.mem_cons.1 hx with rfl | hx
        · exact hoff
        · exact hnear x hx
      refine ⟨⟨hkept', hpaid', hnear'⟩, ?_⟩
      by_cases hin : c.time ≤ b
      · refine hpaid'.allowedIn_le hkept' hnear' hab hskew fun x hx => ?_
        rcases List.mem_cons.1 hx with rfl | hx
        · exact hin
        · exact le_trans (hkept.times hhead x hx) hin
      · have hsame : State.allowedIn ⟨some r.2, (c, r.1.allowed) :: s.served⟩ a b = s.allowedIn a b :=
          allowedIn_cons_of_lt (not_le.1 hin)
        rw [hsame]
        exact hbound
    · cases hn

/-- **The token-bucket bound.** In any stretch of length `T`, at most the capacity and the refill
of `T` and twice the skew is allowed, while every call is steady. -/
theorem token_bucket_bound (p : Plan) (hrate : 1 ≤ p.rate) (hcap : 1 ≤ p.capacity) (skew : ℚ)
    (hskew : 0 ≤ skew) {s : State}
    {h : List ((bucketSystem p skew).State × (bucketSystem p skew).Label)}
    (hr : (bucketSystem p skew).Run s h)
    (hsteady : (bucketSystem p skew).Steps (fun s c => Call.steady p s c) h) (a T : ℚ)
    (hT : 0 ≤ T) : (s.allowedIn a (a + T) : ℚ) ≤ p.capacity + p.rate * (T + 2 * skew) := by
  have hbound := (bucket_invariant (a := a) (b := a + T) hrate hcap hskew (by linarith) hr hsteady).2
  rwa [add_sub_cancel_left] at hbound

/-! ## Two replicas -/

def one : Plan := ⟨1, 1⟩

def Call.isSteady (p : Plan) (s : State) (c : Call) : Bool :=
  s.stored.all fun b => decide (b.ts ≤ c.nowMs) &&
    (decide (c.time < b.expiresAt) ||
      decide ((p.capacity : ℚ) * 1000 ≤ p.rate * (c.nowMs - b.ts)))

theorem Call.isSteady_iff : c.isSteady p s = true ↔ c.steady p s := by
  simp only [isSteady, steady, Option.all_eq_true, Bool.and_eq_true, Bool.or_eq_true,
    decide_eq_true_eq, ← not_le, or_iff_not_imp_left, not_not]

def fast (t : ℚ) (ms : Int) : Call := ⟨t, ms + 500⟩

def slow (t : ℚ) (ms : Int) : Call := ⟨t, ms - 500⟩

/-- A slow replica, then a fast one: the second call gets the skew as a refill, and the third one
comes too early. -/
theorem token_bucket_bound_two : ∃ s h, (bucketSystem one (1 / 2)).Run s h ∧
    s.served.map (·.2) = [false, true, true] ∧
      (s.allowedIn 0 (0 + 0) : ℚ) ≤ 1 + 1 * (0 + 2 * (1 / 2)) := by
  obtain ⟨s, h, hr, hp⟩ := Machine.Run.of_exec (bucketSystem one (1 / 2))
    [slow 0 0, fast 0 0, fast 0 0] ⟨none, []⟩
    (fun x => decide (x.1.served.map (·.2) = [false, true, true]) &&
      x.2.all fun y => Call.isSteady one y.1 y.2) ⟨rfl, rfl⟩ (by decide +kernel)
  obtain ⟨hserved, hsteady⟩ := Bool.and_eq_true_iff.1 hp
  have hbound := token_bucket_bound one (by decide) (by decide) (1 / 2) (by norm_num) hr
    (fun x hx => Call.isSteady_iff.1 (List.all_eq_true.1 hsteady x hx)) 0 0 (le_refl 0)
  refine ⟨s, h, hr, of_decide_eq_true hserved, ?_⟩
  simpa [one] using hbound

/-- Two replicas in turn, all at one instant: every call of the slow one sets `ts` back, and the
next call of the fast one is refilled by a second again. -/
theorem clock_set_back : ∃ s h, (bucketSystem one (1 / 2)).Run s h ∧
    (1 : ℚ) + 1 * (0 + 2 * (1 / 2)) < s.allowedIn 0 (0 + 0) := by
  obtain ⟨s, h, hr, hp⟩ := Machine.Run.of_exec (bucketSystem one (1 / 2))
    [fast 0 0, slow 0 0, fast 0 0, slow 0 0, fast 0 0] ⟨none, []⟩
    (fun x => decide (State.allowedIn x.1 0 (0 + 0) = 3)) ⟨rfl, rfl⟩ (by decide +kernel)
  refine ⟨s, h, hr, ?_⟩
  rw [of_decide_eq_true hp]
  norm_num

end Spooled.TokenBucket
