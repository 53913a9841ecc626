import Spooled.Lib.Text
import Mathlib

/-!
# Plan limits

`config/plans.rs`: the built-in plans and the four layers of overrides, lowest
first: `SPOOLED_PLAN_LIMITS_JSON`, `SPOOLED_PLAN_<TIER>_LIMITS_JSON`, the
variables of single fields, and the organization's `custom_limits`. An override
with an invalid value is ignored, so what a layer contributes to a setting is an
optional number (`Json.setting`), and the limit in force is the last one given.
-/

namespace Spooled

/-! ## JSON values -/

/-- A number as it is written; `jsonb` writes no exponent. -/
structure JsonNumber where
  neg : Bool := false
  whole : Nat
  frac : Text := []
  exp : Option Int := none
deriving DecidableEq, Repr

namespace JsonNumber

/-- `Value::as_u64`: only a number without fraction, exponent and sign is one. -/
def asU64 (n : JsonNumber) : Option Nat :=
  if n.neg = false ∧ n.frac = [] ∧ n.exp = none ∧ n.whole < 2 ^ 64 then some n.whole else none

/-- `Value::as_i64`; `-0` is read as a float. -/
def asI64 (n : JsonNumber) : Option Int :=
  if n.frac = [] ∧ n.exp = none then
    if n.neg then if 0 < n.whole ∧ n.whole ≤ 2 ^ 63 then some (-n.whole) else none
    else if n.whole < 2 ^ 63 then some n.whole else none
  else none

def text (n : JsonNumber) : Text :=
  (if n.neg then ['-'] else []) ++ Nat.toDigits 10 n.whole ++
    (if n.frac = [] then [] else '.' :: n.frac) ++
    match n.exp with
    | some e => 'e' :: (toString e).toList
    | none => []

end JsonNumber

inductive Json
  | null
  | bool (b : Bool)
  | number (n : JsonNumber)
  | string (t : String)
  | array (vs : List Json)
  | object (fields : List (String × Json))

namespace Json

/-- The value of a key; `none` if there is none, or the value is no object. -/
def get (key : String) : Json → Option Json
  | object fields => fields.lookup key
  | _ => none

def asU64 : Json → Option Nat
  | number n => n.asU64
  | _ => none

def asI64 : Json → Option Int
  | number n => n.asI64
  | _ => none

def isNull : Json → Bool
  | null => true
  | _ => false

end Json

/-! ## The keys -/

/-- The resource caps, which may be unlimited. -/
inductive CapKey
  | maxJobsPerDay | maxActiveJobs | maxQueues | maxWorkers | maxApiKeys | maxSchedules
  | maxWorkflows | maxWebhooks
deriving DecidableEq, Repr

/-- The settings, which always have a value. -/
inductive SettingKey
  | maxPayloadSizeBytes | rateLimitRequestsPerSecond | rateLimitBurst | jobRetentionDays
  | historyRetentionDays
deriving DecidableEq, Repr

def maxRetentionDays : Nat := 36500

namespace CapKey

def all : List CapKey :=
  [maxJobsPerDay, maxActiveJobs, maxQueues, maxWorkers, maxApiKeys, maxSchedules, maxWorkflows,
    maxWebhooks]

def name : CapKey → String
  | maxJobsPerDay => "max_jobs_per_day"
  | maxActiveJobs => "max_active_jobs"
  | maxQueues => "max_queues"
  | maxWorkers => "max_workers"
  | maxApiKeys => "max_api_keys"
  | maxSchedules => "max_schedules"
  | maxWorkflows => "max_workflows"
  | maxWebhooks => "max_webhooks"

def envName : CapKey → String
  | maxJobsPerDay => "MAX_JOBS_PER_DAY"
  | maxActiveJobs => "MAX_ACTIVE_JOBS"
  | maxQueues => "MAX_QUEUES"
  | maxWorkers => "MAX_WORKERS"
  | maxApiKeys => "MAX_API_KEYS"
  | maxSchedules => "MAX_SCHEDULES"
  | maxWorkflows => "MAX_WORKFLOWS"
  | maxWebhooks => "MAX_WEBHOOKS"

/-- The job counts are 64-bit, the other caps 32-bit. -/
def wide : CapKey → Bool
  | maxJobsPerDay | maxActiveJobs => true
  | _ => false

/-- `OverrideKind::Cap`. -/
def max (k : CapKey) : Nat := if k.wide then 2 ^ 63 - 1 else 2 ^ 32 - 1

end CapKey

namespace SettingKey

def all : List SettingKey :=
  [maxPayloadSizeBytes, rateLimitRequestsPerSecond, rateLimitBurst, jobRetentionDays,
    historyRetentionDays]

def name : SettingKey → String
  | maxPayloadSizeBytes => "max_payload_size_bytes"
  | rateLimitRequestsPerSecond => "rate_limit_requests_per_second"
  | rateLimitBurst => "rate_limit_burst"
  | jobRetentionDays => "job_retention_days"
  | historyRetentionDays => "history_retention_days"

def envName : SettingKey → String
  | maxPayloadSizeBytes => "MAX_PAYLOAD_SIZE_BYTES"
  | rateLimitRequestsPerSecond => "RATE_LIMIT_RPS"
  | rateLimitBurst => "RATE_LIMIT_BURST"
  | jobRetentionDays => "JOB_RETENTION_DAYS"
  | historyRetentionDays => "HISTORY_RETENTION_DAYS"

/-- `OverrideKind::Setting`. -/
def max : SettingKey → Nat
  | jobRetentionDays | historyRetentionDays => maxRetentionDays
  | _ => 2 ^ 32 - 1

def width : SettingKey → Nat
  | maxPayloadSizeBytes => 2 ^ 64
  | _ => 2 ^ 32

end SettingKey

/-! ## The built-in plans -/

structure PlanLimits where
  tier : String
  displayName : String
  /-- `none`: unlimited. -/
  cap : CapKey → Option Nat
  setting : SettingKey → Nat

namespace PlanLimits

def free : PlanLimits where
  tier := "free"
  displayName := "Free"
  cap
    | .maxJobsPerDay => some 1000
    | .maxActiveJobs => some 10
    | .maxQueues => some 2
    | .maxWorkers => some 1
    | .maxApiKeys => some 2
    | .maxSchedules => some 1
    | .maxWorkflows => some 0
    | .maxWebhooks => some 1
  setting
    | .maxPayloadSizeBytes => 64 * 1024
    | .rateLimitRequestsPerSecond => 5
    | .rateLimitBurst => 10
    | .jobRetentionDays => 3
    | .historyRetentionDays => 1

def starter : PlanLimits where
  tier := "starter"
  displayName := "Starter"
  cap
    | .maxJobsPerDay => some 10000
    | .maxActiveJobs => some 500
    | .maxQueues => some 10
    | .maxWorkers => some 5
    | .maxApiKeys => some 5
    | .maxSchedules => some 10
    | .maxWorkflows => some 5
    | .maxWebhooks => some 5
  setting
    | .maxPayloadSizeBytes => 256 * 1024
    | .rateLimitRequestsPerSecond => 25
    | .rateLimitBurst => 50
    | .jobRetentionDays => 14
    | .historyRetentionDays => 7

def pro : PlanLimits where
  tier := "pro"
  displayName := "Pro"
  cap
    | .maxJobsPerDay => some 100000
    | .maxActiveJobs => some 5000
    | .maxQueues => some 50
    | .maxWorkers => some 25
    | .maxApiKeys => some 25
    | .maxSchedules => some 50
    | .maxWorkflows => some 25
    | .maxWebhooks => some 20
  setting
    | .maxPayloadSizeBytes => 1024 * 1024
    | .rateLimitRequestsPerSecond => 100
    | .rateLimitBurst => 200
    | .jobRetentionDays => 30
    | .historyRetentionDays => 30

def enterprise : PlanLimits where
  tier := "enterprise"
  displayName := "Enterprise"
  cap _ := none
  setting
    | .maxPayloadSizeBytes => 1024 * 1024
    | .rateLimitRequestsPerSecond => 500
    | .rateLimitBurst => 1000
    | .jobRetentionDays => 90
    | .historyRetentionDays => 90

/-- `is_disabled`. -/
def isDisabled (limits : PlanLimits) : CapKey → Bool
  | .maxWorkflows => limits.cap .maxWorkflows == some 0
  | _ => false

def checkLimit (limits : PlanLimits) (k : CapKey) (current adding : Nat) : Bool :=
  (limits.cap k).all fun max => decide (current + adding ≤ max)

/-- `check_resource_limit`. -/
def allows (limits : PlanLimits) (k : CapKey) (current adding : Nat) : Bool :=
  !limits.isDisabled k && limits.checkLimit k current adding

def Within (limits : PlanLimits) (k : CapKey) (current : Nat) : Prop :=
  ∀ max ∈ limits.cap k, current ≤ max

theorem le_of_allows {limits : PlanLimits} {k : CapKey} {current adding max : Nat}
    (h : limits.allows k current adding = true) (hmax : max ∈ limits.cap k) :
    current + adding ≤ max := by
  have hcheck := (Bool.and_eq_true_iff.1 h).2
  rw [checkLimit, Option.mem_def.1 hmax] at hcheck
  exact of_decide_eq_true hcheck

theorem within_iff {limits : PlanLimits} {k : CapKey} {current : Nat} :
    limits.Within k current ↔ limits.checkLimit k current 0 = true := by
  unfold Within checkLimit
  cases limits.cap k with
  | none => simp
  | some max => simp

end PlanLimits

/-- What the code takes from the standard library and `serde_json`. -/
structure Platform where
  toLowercase : String → String
  trim : String → String
  parseJson : String → Option Json
  lower_tiers : ∀ t ∈ ["free", "starter", "pro", "enterprise"], toLowercase t = t

section Tier

variable (p : Platform)

/-- Unknown tiers are free. -/
def PlanLimits.forTier (tier : String) : PlanLimits :=
  match p.toLowercase tier with
  | "starter" => .starter
  | "pro" => .pro
  | "enterprise" => .enterprise
  | _ => .free

end Tier

/-! ## Overrides in JSON -/

inductive OverrideValue
  | unlimited
  | keepPlan
  | value (n : Nat)
deriving DecidableEq, Repr

/-- `parse_override` of a cap. -/
def parseCap (max : Nat) (v : Json) : Except String OverrideValue :=
  if v.isNull || v.asI64 == some (-1) then .ok .unlimited
  else match v.asU64 with
    | some n => if n ≤ max then .ok (.value n) else .error (message max)
    | none => .error (message max)
where
  message (max : Nat) : String :=
    "must be a whole number from 0 to " ++ toString max ++ ", or null / -1 for unlimited"

/-- `parse_override` of a setting. -/
def parseSetting (max : Nat) (v : Json) : Except String OverrideValue :=
  if v.isNull then .ok .keepPlan
  else match v.asU64 with
    | some n => if n ≤ max then .ok (.value n) else .error (message max)
    | none => .error (message max)
where
  message (max : Nat) : String :=
    "must be a whole number from 0 to " ++ toString max ++ ", or null for the plan default"

namespace PlanLimits

variable (limits : PlanLimits)

/-- `apply_override` of a cap; the narrow ones are cast to `u32`. -/
def applyCap (k : CapKey) : OverrideValue → PlanLimits
  | .keepPlan => limits
  | .unlimited => { limits with cap := Function.update limits.cap k none }
  | .value n =>
    { limits with cap := Function.update limits.cap k (some (if k.wide then n else n % 2 ^ 32)) }

/-- `apply_override` of a setting. -/
def applySetting (k : SettingKey) : OverrideValue → PlanLimits
  | .value n => { limits with setting := Function.update limits.setting k (n % k.width) }
  | _ => limits

/-- One key of `apply_overrides_from_object`: an invalid value is ignored. -/
def overrideCap (v : Json) (k : CapKey) : PlanLimits :=
  match (v.get k.name).map (parseCap k.max) with
  | some (.ok value) => limits.applyCap k value
  | _ => limits

def overrideSetting (v : Json) (k : SettingKey) : PlanLimits :=
  match (v.get k.name).map (parseSetting k.max) with
  | some (.ok value) => limits.applySetting k value
  | _ => limits

/-- `apply_overrides_from_json`: every key in the order of `OVERRIDE_KEYS`. -/
def applyOverridesFromJson (v : Json) : PlanLimits :=
  SettingKey.all.foldl (fun l k => l.overrideSetting v k)
    (CapKey.all.foldl (fun l k => l.overrideCap v k) limits)

end PlanLimits

/-! ## Overrides in the environment -/

structure TierEnvOverrides where
  json : Option Json := none
  cap : CapKey → Option (Option Nat) := fun _ => none
  setting : SettingKey → Option Nat := fun _ => none

structure EnvPlanOverrides where
  globalJson : Option Json := none
  free : TierEnvOverrides := {}
  starter : TierEnvOverrides := {}
  pro : TierEnvOverrides := {}
  enterprise : TierEnvOverrides := {}

/-- `str::parse` of an unsigned integer below `bound`; a plus sign is accepted. -/
def parseUnsigned (bound : Nat) (t : Text) : Option Nat :=
  let digits := if t.head? = some '+' then t.tail else t
  if digits ≠ [] ∧ digits.all Char.isDigit ∧ Nat.ofDigitChars 10 digits 0 < bound then
    some (Nat.ofDigitChars 10 digits 0)
  else none

section Env

variable (p : Platform) (env : String → Option String)

def envGet (key : String) : Option String :=
  ((env key).map p.trim).filter (· != "")

def parseEnvJson (key : String) : Option Json := (envGet p env key).bind p.parseJson

def parseOptionalU64Env (key : String) : Option (Option Nat) :=
  (envGet p env key).bind fun raw =>
    if ["unlimited", "none", "null", "-1"].contains (p.toLowercase raw) then some none
    else (parseUnsigned (2 ^ 64) raw.toList).map some

def parseOptionalU32Env (key : String) : Option (Option Nat) :=
  (parseOptionalU64Env p env key).bind fun
    | none => some none
    | some n => if n < 2 ^ 32 then some (some n) else none

def parseUnsignedEnv (bound : Nat) (key : String) : Option Nat :=
  (envGet p env key).bind fun raw => parseUnsigned bound raw.toList

/-- One tier: its JSON, and `load_tier_fields`. -/
def loadTier (tierUpper : String) : TierEnvOverrides where
  json := parseEnvJson p env ("SPOOLED_PLAN_" ++ tierUpper ++ "_LIMITS_JSON")
  cap k := (if k.wide then parseOptionalU64Env else parseOptionalU32Env) p env
    ("SPOOLED_PLAN_" ++ tierUpper ++ "_" ++ k.envName)
  setting k := parseUnsignedEnv p env k.width ("SPOOLED_PLAN_" ++ tierUpper ++ "_" ++ k.envName)

def EnvPlanOverrides.fromEnv : EnvPlanOverrides where
  globalJson := parseEnvJson p env "SPOOLED_PLAN_LIMITS_JSON"
  free := loadTier p env "FREE"
  starter := loadTier p env "STARTER"
  pro := loadTier p env "PRO"
  enterprise := loadTier p env "ENTERPRISE"

end Env

section Apply

variable (p : Platform)

def EnvPlanOverrides.tier (env : EnvPlanOverrides) (tier : String) : Option TierEnvOverrides :=
  match p.toLowercase tier with
  | "free" => some env.free
  | "starter" => some env.starter
  | "pro" => some env.pro
  | "enterprise" => some env.enterprise
  | _ => none

namespace PlanLimits

section

variable (limits : PlanLimits) (env : EnvPlanOverrides)

def applyFields (t : TierEnvOverrides) : PlanLimits :=
  { limits with
    cap := fun k => (t.cap k).getD (limits.cap k)
    setting := fun k => (t.setting k).getD (limits.setting k) }

/-- The object of the tier in `SPOOLED_PLAN_LIMITS_JSON`. -/
def globalOverrides (tier : String) : Option Json :=
  env.globalJson.bind (·.get tier)

def applyJson? (v : Option Json) : PlanLimits :=
  v.elim limits limits.applyOverridesFromJson

def applyEnvOverrides : PlanLimits :=
  let tier := p.toLowercase limits.tier
  let limits := limits.applyJson? (globalOverrides env tier)
  match env.tier p tier with
  | some t => (limits.applyJson? t.json).applyFields t
  | none => limits

def forTierWithOverrides (tier : String) (customLimits : Option Json) :
    PlanLimits :=
  ((forTier p tier).applyEnvOverrides p env).applyJson? customLimits

end

end PlanLimits

end Apply

/-! ## What a layer contributes to a setting -/

/-- The valid override of a setting, if the object has one. -/
def Json.setting (k : SettingKey) (v : Json) : Option Nat :=
  match (v.get k.name).map (parseSetting k.max) with
  | some (.ok (.value n)) => some n
  | _ => none

theorem SettingKey.max_lt_width (k : SettingKey) : k.max < k.width := by
  cases k <;> decide

theorem parseSetting_le {max n : Nat} {v : Json} (h : parseSetting max v = .ok (.value n)) :
    n ≤ max := by
  unfold parseSetting at h
  split at h
  · cases h
  split at h
  · split at h
    · next hle =>
      cases h
      exact hle
    · cases h
  · cases h

namespace PlanLimits

variable (limits : PlanLimits) (v : Json)

theorem setting_overrideCap (k : CapKey) : (limits.overrideCap v k).setting = limits.setting := by
  unfold overrideCap
  split
  · next value _ => cases value <;> rfl
  · rfl

theorem setting_overrideSetting (k k' : SettingKey) : (limits.overrideSetting v k).setting k' =
    if k' = k then (v.setting k).getD (limits.setting k) else limits.setting k' := by
  unfold overrideSetting Json.setting
  have hmod : ∀ n, (v.get k.name).map (parseSetting k.max) = some (.ok (.value n)) →
      n % k.width = n := by
    intro n hn
    obtain ⟨w, -, hw⟩ := Option.map_eq_some_iff.1 hn
    have hmax := parseSetting_le hw
    have hlt := k.max_lt_width
    exact Nat.mod_eq_of_lt (by omega)
  generalize (v.get k.name).map (parseSetting k.max) = r at hmod ⊢
  match r with
  | some (.ok (.value n)) =>
    show Function.update limits.setting k (n % k.width) k' = _
    rw [hmod n rfl, Function.update_apply]
    rfl
  | some (.ok .unlimited) | some (.ok .keepPlan) | some (.error _) | none =>
    show limits.setting k' = if k' = k then limits.setting k else limits.setting k'
    split
    · next hk => rw [hk]
    · rfl

theorem setting_foldl_overrideCap (ks : List CapKey) :
    (ks.foldl (fun l k => l.overrideCap v k) limits).setting = limits.setting := by
  induction ks generalizing limits with
  | nil => rfl
  | cons k ks ih => rw [List.foldl_cons, ih, setting_overrideCap]

theorem setting_foldl_overrideSetting (ks : List SettingKey) (k : SettingKey) :
    (ks.foldl (fun l k => l.overrideSetting v k) limits).setting k =
      if k ∈ ks then (v.setting k).getD (limits.setting k) else limits.setting k := by
  induction ks generalizing limits with
  | nil => rfl
  | cons k' ks ih =>
    rw [List.foldl_cons, ih, setting_overrideSetting]
    by_cases hk : k = k'
    · subst hk
      rw [if_pos rfl, if_pos List.mem_cons_self]
      cases v.setting k <;> simp
    · simp only [hk, if_false, List.mem_cons, false_or]

/-- **One layer**: a valid override of a setting wins, anything else changes nothing. -/
theorem setting_applyJson (v : Option Json) (k : SettingKey) :
    (limits.applyJson? v).setting k = (v.bind (Json.setting k)).getD (limits.setting k) := by
  cases v with
  | none => rfl
  | some v =>
    show (limits.applyOverridesFromJson v).setting k = (v.setting k).getD (limits.setting k)
    unfold applyOverridesFromJson
    rw [setting_foldl_overrideSetting, setting_foldl_overrideCap, if_pos]
    cases k <;> decide

end PlanLimits

end Spooled
