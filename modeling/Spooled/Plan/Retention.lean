import Spooled.Plan.Limits

/-!
# Retention, promised and enforced

The API promises the retention of `PlanLimits.forTierWithOverrides`; the sweeps
of `cleanup_old_data_by_org` compute theirs in SQL, from `custom_limits` through
`custom_retention_days` and from the plan's name. The two readings of a stored
value agree on every JSON value. The SQL knows neither the environment nor
another spelling of a plan's name, so the days differ exactly through those.
-/

namespace Spooled

/-! ## The sweeps -/

/-- The columns of `organizations` that retention reads. -/
structure PlanColumns where
  planTier : String := "free"
  customLimits : Option Json := none

/-- `~ '^[0-9]{1,5}$'`. -/
def shortDigits (t : Text) : Bool := decide (1 ≤ t.length ∧ t.length ≤ 5) && t.all Char.isDigit

/-- `custom_retention_days`; `none` is NULL. -/
def customRetentionDays (limits : Option Json) (key : String) : Option Nat :=
  match limits.bind (·.get key) with
  | some (.number n) =>
    if shortDigits n.text then
      if Nat.ofDigitChars 10 n.text 0 ≤ 36500 then some (Nat.ofDigitChars 10 n.text 0) else none
    else none
  | _ => none

inductive RetentionSweep
  | workflows | finishedJobs | failedJobs | deadLetterQueue
  | scheduleRuns | jobHistory | outgoingWebhookDeliveries | webhookDeliveries
deriving DecidableEq, Repr

namespace RetentionSweep

def key : RetentionSweep → SettingKey
  | workflows | finishedJobs | failedJobs | deadLetterQueue => .jobRetentionDays
  | scheduleRuns | jobHistory | outgoingWebhookDeliveries | webhookDeliveries =>
    .historyRetentionDays

/-- The `CASE o.plan_tier` of the statement. -/
def planDays (s : RetentionSweep) (tier : String) : Nat :=
  if tier = "enterprise" then 90
  else if tier = "pro" then 30
  else match s.key with
    | .jobRetentionDays => if tier = "starter" then 14 else 3
    | _ => if tier = "starter" then 7 else 1

def days (s : RetentionSweep) (org : PlanColumns) : Nat :=
  (customRetentionDays org.customLimits s.key.name).getD (s.planDays org.planTier)

end RetentionSweep

/-! ## A stored value, read twice -/

theorem not_shortDigits {t : Text} {c : Char} (hc : c ∈ t) (hd : c.isDigit = false) :
    shortDigits t = false := by
  unfold shortDigits
  rw [Bool.and_eq_false_iff, List.all_eq_false]
  exact .inr ⟨c, hc, by rw [hd]; exact Bool.false_ne_true⟩

/-- No sign, no fraction, no exponent. -/
def JsonNumber.Plain (n : JsonNumber) : Prop := n.neg = false ∧ n.frac = [] ∧ n.exp = none

instance (n : JsonNumber) : Decidable n.Plain := inferInstanceAs (Decidable (_ ∧ _ ∧ _))

theorem JsonNumber.Plain.text {n : JsonNumber} (h : n.Plain) : n.text = Nat.toDigits 10 n.whole := by
  obtain ⟨hneg, hfrac, hexp⟩ := h
  unfold JsonNumber.text
  rw [hneg, hfrac, hexp]
  simp

theorem shortDigits_text {n : JsonNumber} :
    shortDigits n.text = true ↔ n.Plain ∧ n.whole < 100000 := by
  by_cases hplain : n.Plain
  · have hdigits : (Nat.toDigits 10 n.whole).all Char.isDigit = true :=
      List.all_eq_true.2 fun c hc => Nat.isDigit_of_mem_toDigits (by decide) (by decide) hc
    have hlen := Nat.length_toDigits_le_iff (n := n.whole) (k := 5) (b := 10) (by decide) (by decide)
    have hpos := Nat.length_toDigits_pos (b := 10) (n := n.whole)
    rw [hplain.text, shortDigits, hdigits, Bool.and_true, decide_eq_true_eq, hlen]
    simp only [hplain, true_and]
    omega
  · refine iff_of_false ?_ fun h => hplain h.1
    rw [Bool.not_eq_true]
    unfold JsonNumber.text
    -- the character that is no digit
    by_cases hneg : n.neg = true
    · exact not_shortDigits (c := '-') (by simp [hneg]) rfl
    by_cases hfrac : n.frac = []
    · cases hexp : n.exp with
      | none =>
        rw [Bool.not_eq_true] at hneg
        exact absurd ⟨hneg, hfrac, hexp⟩ hplain
      | some e => exact not_shortDigits (c := 'e') (by simp) rfl
    · exact not_shortDigits (c := '.') (by simp [hfrac]) rfl

theorem RetentionSweep.key_max (s : RetentionSweep) : s.key.max = 36500 := by
  cases s <;> rfl

theorem shortDigits_days (n : JsonNumber) :
    (if shortDigits n.text then
      if Nat.ofDigitChars 10 n.text 0 ≤ 36500 then some (Nat.ofDigitChars 10 n.text 0) else none
    else none) = if n.Plain ∧ n.whole ≤ 36500 then some n.whole else none := by
  by_cases hplain : n.Plain
  · have hdays : Nat.ofDigitChars 10 n.text 0 = n.whole := by
      rw [hplain.text, Nat.ofDigitChars_ten_toDigits]
    simp only [shortDigits_text, hdays, hplain, true_and]
    by_cases hle : n.whole ≤ 36500
    · rw [if_pos (by omega)]
    · rw [if_neg hle, ite_self]
  · rw [if_neg (fun h => hplain (shortDigits_text.1 h).1), if_neg (fun h => hplain h.1)]

theorem parseSetting_number (n : JsonNumber) : parseSetting 36500 (.number n) =
    if n.Plain ∧ n.whole ≤ 36500 then .ok (.value n.whole)
    else .error (parseSetting.message 36500) := by
  have hu64 : n.asU64 = if n.Plain ∧ n.whole < 2 ^ 64 then some n.whole else none := by
    unfold JsonNumber.asU64 JsonNumber.Plain
    simp only [and_assoc]
  simp only [parseSetting, Json.isNull, Bool.false_eq_true, if_false, Json.asU64, hu64]
  by_cases hplain : n.Plain
  · simp only [hplain, true_and]
    by_cases hlt : n.whole < 2 ^ 64
    · rw [if_pos hlt]
    · rw [if_neg hlt, if_neg (by omega)]
  · rw [if_neg (fun h => hplain h.1), if_neg (fun h => hplain h.1)]

/-- **The two readings agree** on every stored value. -/
theorem customRetentionDays_eq (s : RetentionSweep) (limits : Option Json) :
    customRetentionDays limits s.key.name = limits.bind (Json.setting s.key) := by
  cases limits with
  | none => rfl
  | some v =>
    show customRetentionDays (some v) s.key.name = v.setting s.key
    unfold customRetentionDays Json.setting
    rw [s.key_max, Option.bind_some]
    generalize v.get s.key.name = r
    rcases r with _ | (_ | _ | n | _ | _ | _)
    case some.number =>
      rw [Option.map_some, parseSetting_number]
      refine (shortDigits_days n).trans ?_
      split <;> rfl
    all_goals rfl

/-! ## The promise -/

section Promise

variable (p : Platform) (env : EnvPlanOverrides)

variable (tier : String)

/-- What the environment says of a setting for a tier, highest layer first. -/
def EnvPlanOverrides.setting (k : SettingKey) : Option Nat :=
  ((env.tier p tier).bind (·.setting k)) <|>
    ((env.tier p tier).bind fun t => t.json.bind (Json.setting k)) <|>
    ((PlanLimits.globalOverrides env tier).bind (Json.setting k))

def tierOf : String := (PlanLimits.forTier p tier).tier

theorem toLowercase_tierOf : p.toLowercase (tierOf p tier) = tierOf p tier := by
  apply p.lower_tiers
  unfold tierOf PlanLimits.forTier
  split <;> decide

theorem setting_forTierWithOverrides (custom : Option Json) (k : SettingKey) :
    (PlanLimits.forTierWithOverrides p env tier custom).setting k =
      (custom.bind (Json.setting k)).getD
        ((env.setting p (tierOf p tier) k).getD ((PlanLimits.forTier p tier).setting k)) := by
  unfold PlanLimits.forTierWithOverrides
  rw [PlanLimits.setting_applyJson]
  congr 1
  unfold PlanLimits.applyEnvOverrides EnvPlanOverrides.setting
  have htier : p.toLowercase (PlanLimits.forTier p tier).tier = tierOf p tier :=
    toLowercase_tierOf p tier
  simp only [htier]
  cases env.tier p (tierOf p tier) with
  | none =>
    rw [PlanLimits.setting_applyJson]
    rfl
  | some t =>
    show (t.setting k).getD (((PlanLimits.applyJson? _ _).applyJson? t.json).setting k) = _
    rw [PlanLimits.setting_applyJson, PlanLimits.setting_applyJson]
    simp only [Option.bind_some]
    cases t.setting k with
    | some n => rfl
    | none => cases t.json.bind (Json.setting k) <;> rfl

/-- The name of a paid plan is spelled in lower case, as the SQL compares it. -/
def SpelledLower : Prop :=
  p.toLowercase tier ∈ ["starter", "pro", "enterprise"] → p.toLowercase tier = tier

theorem planDays_eq_iff (s : RetentionSweep) (tier : String) :
    s.planDays tier = (PlanLimits.forTier p tier).setting s.key ↔ SpelledLower p tier := by
  have hother : ∀ name ∈ ["starter", "pro", "enterprise"], p.toLowercase tier = name →
      tier ≠ name → ∀ name' ∈ ["starter", "pro", "enterprise"], tier ≠ name' := by
    rintro name - hl hne name' hname' rfl
    exact hne ((p.lower_tiers tier (List.mem_cons_of_mem _ hname')).symm.trans hl)
  unfold SpelledLower
  by_cases hmem : p.toLowercase tier ∈ ["starter", "pro", "enterprise"]
  · by_cases hlower : p.toLowercase tier = tier
    · refine iff_of_true ?_ fun _ => hlower
      unfold PlanLimits.forTier
      rw [hlower] at hmem ⊢
      simp only [List.mem_cons, List.not_mem_nil, or_false] at hmem
      rcases hmem with rfl | rfl | rfl <;> cases s <;> rfl
    · -- another spelling gets the days of the free plan
      refine iff_of_false ?_ fun h => hlower (h hmem)
      have hfree := hother _ hmem rfl (Ne.symm hlower)
      have hs := hfree "starter" (by decide)
      have hp := hfree "pro" (by decide)
      have he := hfree "enterprise" (by decide)
      unfold PlanLimits.forTier RetentionSweep.planDays
      simp only [List.mem_cons, List.not_mem_nil, or_false] at hmem
      rcases hmem with hl | hl | hl <;> cases s <;>
        simp [hl, hs, hp, he, RetentionSweep.key, PlanLimits.starter, PlanLimits.pro,
          PlanLimits.enterprise]
  · refine iff_of_true ?_ fun h => absurd h hmem
    -- the names are their own lower case
    have hne : ∀ name ∈ ["starter", "pro", "enterprise"], tier ≠ name := by
      rintro name hname rfl
      rw [p.lower_tiers tier (List.mem_cons_of_mem _ hname)] at hmem
      exact hmem hname
    have hs := hne "starter" (by decide)
    have hp := hne "pro" (by decide)
    have he := hne "enterprise" (by decide)
    have hplan : PlanLimits.forTier p tier = .free := by
      unfold PlanLimits.forTier
      split
      · next hl => exact absurd (by rw [hl]; decide) hmem
      · next hl => exact absurd (by rw [hl]; decide) hmem
      · next hl => exact absurd (by rw [hl]; decide) hmem
      · rfl
    rw [hplan]
    unfold RetentionSweep.planDays
    rw [if_neg he, if_neg hp]
    cases s <;> exact if_neg hs

/-- **When retention is enforced as promised**: for an organization with an override of its own,
where the environment gives the plan the days of the SQL, and where it says nothing of the setting
and the plan is spelled in lower case. -/
theorem retention_enforced_as_promised (environ : String → Option String) (s : RetentionSweep)
    (org : PlanColumns) :
    s.days org = (PlanLimits.forTierWithOverrides p (.fromEnv p environ) org.planTier
        org.customLimits).setting s.key ↔
      (org.customLimits.bind (Json.setting s.key)).isSome = true ∨
      match (EnvPlanOverrides.fromEnv p environ).setting p (tierOf p org.planTier) s.key with
      | some days => s.planDays org.planTier = days
      | none => SpelledLower p org.planTier := by
  rw [setting_forTierWithOverrides, RetentionSweep.days, customRetentionDays_eq]
  cases org.customLimits.bind (Json.setting s.key) with
  | some n => exact iff_of_true rfl (.inl rfl)
  | none =>
    rw [Option.getD_none, Option.getD_none, Option.isSome_none, or_iff_right Bool.false_ne_true]
    cases (EnvPlanOverrides.fromEnv p environ).setting p (tierOf p org.planTier) s.key with
    | some days => rfl
    | none => exact planDays_eq_iff p s org.planTier

end Promise

def asciiPlatform : Platform where
  toLowercase t := String.ofList (t.toList.map Char.toLower)
  trim t := String.ofList
    ((t.toList.dropWhile Char.isWhitespace).reverse.dropWhile Char.isWhitespace).reverse
  parseJson _ := none
  lower_tiers := by decide +kernel

/-- A free organization that keeps its jobs for 10 days, and one on a server whose variable repeats
the days of the plan. -/
theorem retention_enforced_as_promised_ten :
    (PlanLimits.forTierWithOverrides asciiPlatform (.fromEnv asciiPlatform fun _ => none) "free"
      (some (.object [("job_retention_days", .number { whole := 10 })]))).setting
        .jobRetentionDays = 10 ∧
    (PlanLimits.forTierWithOverrides asciiPlatform (.fromEnv asciiPlatform fun key =>
      if key = "SPOOLED_PLAN_FREE_JOB_RETENTION_DAYS" then some "3" else none) "free" none).setting
        .jobRetentionDays = 3 :=
  ⟨((retention_enforced_as_promised asciiPlatform (fun _ => none) .finishedJobs
      { customLimits := some (.object [("job_retention_days", .number { whole := 10 })]) }).2
      (.inl (by decide +kernel))).symm.trans (by decide +kernel),
    ((retention_enforced_as_promised asciiPlatform _ .finishedJobs {}).2
      (.inr (by
        have henv : (EnvPlanOverrides.fromEnv asciiPlatform fun key =>
            if key = "SPOOLED_PLAN_FREE_JOB_RETENTION_DAYS" then some "3" else none).setting
              asciiPlatform (tierOf asciiPlatform "free") .jobRetentionDays = some 3 := by
          decide +kernel
        rw [show RetentionSweep.finishedJobs.key = .jobRetentionDays from rfl, henv]
        rfl))).symm.trans (by decide +kernel)⟩

/-- A free organization on a server with `SPOOLED_PLAN_FREE_JOB_RETENTION_DAYS=30`: 30 days
are promised, and the jobs are deleted after 3. -/
theorem retention_ignores_environment :
    RetentionSweep.finishedJobs.days {} = 3 ∧ (PlanLimits.forTierWithOverrides asciiPlatform
      (.fromEnv asciiPlatform fun key =>
        if key = "SPOOLED_PLAN_FREE_JOB_RETENTION_DAYS" then some "30" else none)
      "free" none).setting .jobRetentionDays = 30 := by
  decide +kernel

/-- The same for a plan stored as `PRO`: 30 days are promised, 3 are kept. -/
example : RetentionSweep.finishedJobs.days { planTier := "PRO" } = 3 ∧
    (PlanLimits.forTierWithOverrides asciiPlatform {} "PRO" none).setting .jobRetentionDays = 30 := by
  decide +kernel

end Spooled
