import Spooled.Lib.Capped
import Spooled.Plan.Limits

/-!
# Caps on what can be switched on and off

The schedules, outgoing webhooks and API keys of one organization. A plan caps
the active schedules, the enabled webhooks and the active keys that are not
system keys. Each statement is one step; a transaction takes effect with its
commit. `lock_resource` is held from `locked` to the commit, and the row that
`FOR UPDATE` has read is locked from then on.

An update reads the row before it opens its transaction, and some decide from
that row whether they pay for a slot: `schedules::resume` pays when the row was
paused, the update of a webhook when it was disabled, and the update of a key
writes back the flag that it has read when the request names none.
-/

namespace Spooled.Cap

/-! ## Rows -/

inductive Resource
  | schedules | webhooks | apiKeys
deriving DecidableEq, Repr

def Resource.cap : Resource → CapKey
  | schedules => .maxSchedules
  | webhooks => .maxWebhooks
  | apiKeys => .maxApiKeys

/-- The columns that decide what counts: `on` is `is_active`, of webhooks `enabled`; `isSystem` is
a column of keys and `failureCount` of webhooks. -/
structure Switch where
  id : Nat
  on : Bool
  isSystem : Bool := false
  failureCount : Nat := 0
deriving DecidableEq, Repr

/-- A row that `get_org_resource_counts` counts. -/
def Resource.counts : Resource → Switch → Bool
  | schedules, row => row.on
  | webhooks, row => row.on
  | apiKeys, row => row.on && !row.isSystem

abbrev Switches := Table Nat Switch Switch.id

structure SwitchStore where
  table : Resource → Switches

def SwitchStore.count (s : SwitchStore) (r : Resource) : Nat := (s.table r).rows.countP r.counts

/-! ## Statements -/

/-- `AUTO_DISABLE_FAILURE_THRESHOLD`. -/
def autoDisableThreshold : Nat := 20

/-- `SET is_active = COALESCE($1, is_active)`; an update of a webhook may end its failure streak. -/
def Switch.set (on : Option Bool) (reset : Bool) (row : Switch) : Switch :=
  { row with on := on.getD row.on, failureCount := if reset then 0 else row.failureCount }

/-- `record_delivery_outcome`. -/
def Switch.outcome (delivered : Bool) (row : Switch) : Switch :=
  { row with
    failureCount := if delivered then 0 else row.failureCount + 1
    on := if !delivered && decide (autoDisableThreshold ≤ row.failureCount + 1) then false
      else row.on }

inductive SwitchWrite
  | insert (on : Bool)
  | set (on : Option Bool) (reset : Bool)
  | outcome (delivered : Bool)
  | delete

def SwitchWrite.apply (w : SwitchWrite) (id : Nat) (t : Switches) : Switches :=
  match w with
  | insert on => t.insert { id, on }
  | set on reset => t.update (·.id == id) (Switch.set on reset) fun _ => rfl
  | outcome delivered => t.update (·.id == id) (Switch.outcome delivered) fun _ => rfl
  | delete => t.delete (·.id == id)

/-- The statement leaves a row switched on whatever it was before. -/
def SwitchWrite.turnsOn : SwitchWrite → Bool
  | insert on => on
  | set on _ => on == some true
  | outcome _ | delete => false

/-- The `adding` of a check; a webhook that is created disabled adds nothing. -/
def SwitchWrite.adding (w : SwitchWrite) : Nat := if w.turnsOn then 1 else 0

/-! ## Requests -/

/-- How a transaction pays for a slot: by a check of the count, or by one when the row, read again
under the lock, is off. -/
inductive Payment
  | always | ifOff
deriving DecidableEq, Repr

structure SwitchPlan where
  pays : Option Payment
  write : SwitchWrite

/-- The requests that read the row before they open their transaction. -/
inductive Edit
  | scheduleUpdate (isActive : Option Bool)
  | scheduleResume
  /-- `repointed`: the request has a URL that differs from the stored one. -/
  | webhookUpdate (enabled : Option Bool) (repointed : Bool)
  | keyUpdate (isActive : Option Bool)
  | keyRevoke

namespace Edit

def resource : Edit → Resource
  | scheduleUpdate _ | scheduleResume => .schedules
  | webhookUpdate .. => .webhooks
  | keyUpdate _ | keyRevoke => .apiKeys

def plan (e : Edit) (existing : Switch) : SwitchPlan :=
  match e with
  | scheduleUpdate isActive => ⟨if isActive = some true then some .ifOff else none, .set isActive false⟩
  | scheduleResume => ⟨if existing.on then none else some .always, .set (some true) false⟩
  | webhookUpdate enabled repointed =>
    let enabled := enabled.getD existing.on
    let isEnabling := enabled && !existing.on
    ⟨if isEnabling then some .always else none, .set (some enabled) (isEnabling || repointed)⟩
  | keyUpdate isActive =>
    ⟨if isActive = some true && !existing.isSystem then some .ifOff else none,
      .set (some (isActive.getD existing.on)) false⟩
  | keyRevoke => ⟨none, .set (some false) false⟩

end Edit

inductive SwitchPhase
  | reading (e : Edit)
  | opened (plan : SwitchPlan)
  | locked (pays : Payment) (w : SwitchWrite)
  /-- The row, read again, is off: the count is checked next. -/
  | checking (w : SwitchWrite)
  | paid (w : SwitchWrite) (rowLocked : Bool)

structure SwitchProc where
  resource : Resource
  id : Nat
  phase : SwitchPhase

inductive SwitchAsk
  | edit (id : Nat) (e : Edit)
  | scheduleCreate (id : Nat)
  | schedulePause (id : Nat)
  | scheduleDelete (id : Nat)
  | webhookCreate (id : Nat) (enabled : Bool)
  | webhookDelete (id : Nat)
  | recordDeliveryOutcome (id : Nat) (delivered : Bool)
  | keyCreate (id : Nat)

def SwitchAsk.proc : SwitchAsk → SwitchProc
  | edit id e => ⟨e.resource, id, .reading e⟩
  | scheduleCreate id => ⟨.schedules, id, .opened ⟨some .always, .insert true⟩⟩
  | schedulePause id => ⟨.schedules, id, .opened ⟨none, .set (some false) false⟩⟩
  | scheduleDelete id => ⟨.schedules, id, .opened ⟨none, .delete⟩⟩
  | webhookCreate id enabled => ⟨.webhooks, id, .opened ⟨some .always, .insert enabled⟩⟩
  | webhookDelete id => ⟨.webhooks, id, .opened ⟨none, .delete⟩⟩
  | recordDeliveryOutcome id delivered => ⟨.webhooks, id, .opened ⟨none, .outcome delivered⟩⟩
  | keyCreate id => ⟨.apiKeys, id, .opened ⟨some .always, .insert true⟩⟩

namespace SwitchProc

/-- It has taken `lock_resource`. -/
def hasLock (r : Resource) (p : SwitchProc) : Bool :=
  p.resource == r && match p.phase with
    | .locked .. | .checking _ | .paid .. => true
    | .reading _ | .opened _ => false

/-- It has the row `FOR UPDATE`. -/
def hasRow (r : Resource) (id : Nat) (p : SwitchProc) : Bool :=
  p.resource == r && p.id == id && match p.phase with
    | .checking _ => true
    | .paid _ rowLocked => rowLocked
    | .reading _ | .opened _ | .locked .. => false

structure Command where
  resource : Resource
  id : Nat
  write : SwitchWrite

def Command.run (c : Command) (s : SwitchStore) : SwitchStore where
  table r := if r = c.resource then c.write.apply c.id (s.table r) else s.table r

/-- The write with which the transaction ends; it waits for the row. -/
def writes (os : List SwitchProc) (p : SwitchProc) (w : SwitchWrite) :
    Option (Turn Command SwitchProc) :=
  if os.any (hasRow p.resource p.id) then none else some (.run ⟨p.resource, p.id, w⟩ none)

def act (limits : PlanLimits) (s : SwitchStore) (os : List SwitchProc) (p : SwitchProc) :
    Option (Turn Command SwitchProc) :=
  match p.phase with
  | .reading e => match (s.table p.resource).find p.id with
    | none => some .quit
    | some existing => some (.stay { p with phase := .opened (e.plan existing) })
  | .opened ⟨none, w⟩ => p.writes os w
  | .opened ⟨some pays, w⟩ =>
    if os.any (hasLock p.resource) then none else some (.stay { p with phase := .locked pays w })
  | .locked .always w =>
    if limits.allows p.resource.cap (s.count p.resource) w.adding then
      some (.stay { p with phase := .paid w false })
    else some .quit
  | .locked .ifOff w =>
    if os.any (hasRow p.resource p.id) then none
    else match (s.table p.resource).find p.id with
      | none => some .quit
      | some row => some (.stay { p with phase := if row.on then .paid w true else .checking w })
  | .checking w =>
    if limits.allows p.resource.cap (s.count p.resource) 1 then
      some (.stay { p with phase := .paid w true })
    else some .quit
  | .paid w _ => p.writes os w

end SwitchProc

@[reducible] def switches (limits : PlanLimits) : CommandSpec where
  Store := SwitchStore
  Proc := SwitchProc
  Ask := SwitchAsk
  Command := SwitchProc.Command
  start s a := (s, a.proc)
  run s c := c.run s
  act := SwitchProc.act limits

/-! ## What a statement does to what counts -/

def SwitchWrite.row (w : SwitchWrite) (id : Nat) (row : Option Switch) : Option Switch :=
  match w with
  | insert on => row.or (some { id, on })
  | set on reset => row.map (Switch.set on reset)
  | outcome delivered => row.map (Switch.outcome delivered)
  | delete => none

theorem SwitchWrite.find_apply (w : SwitchWrite) (id k : Nat) (t : Switches) :
    (w.apply id t).find k = if k = id then w.row id (t.find k) else t.find k := by
  have hupdate : ∀ f : Switch → Switch, (hf : ∀ r, (f r).id = r.id) →
      (t.update (·.id == id) f hf).find k = if k = id then (t.find k).map f else t.find k := by
    intro f hf
    rw [Table.find_update]
    cases hrow : t.find k with
    | none => simp
    | some row =>
      have hk : row.id = k := Table.key_of_find hrow
      by_cases h : k = id <;> simp [hk, h]
  cases w with
  | insert on =>
    show (t.insert { id, on }).find k = _
    rw [Table.find_insert]
    cases hrow : t.find k <;> by_cases h : k = id <;> simp [SwitchWrite.row, h]
  | set on reset => exact hupdate (Switch.set on reset) fun _ => rfl
  | outcome delivered => exact hupdate (Switch.outcome delivered) fun _ => rfl
  | delete =>
    show (t.delete (·.id == id)).find k = _
    rw [Table.find_delete]
    cases hrow : t.find k with
    | none => simp [SwitchWrite.row]
    | some row =>
      have hk : row.id = k := Table.key_of_find hrow
      by_cases h : k = id <;> simp [SwitchWrite.row, Option.filter, hk, h]

def Resource.exempt : Resource → Switch → Bool
  | apiKeys, row => row.isSystem
  | schedules, _ | webhooks, _ => false

variable {limits : PlanLimits} {s : SwitchStore} {os : List SwitchProc} {p p' : SwitchProc}
  {r : Resource} {id : Nat} {w : SwitchWrite} {row row' : Switch}

theorem Resource.counts_eq (r : Resource) (row : Switch) :
    r.counts row = (row.on && !r.exempt row) := by
  cases r with
  | schedules | webhooks => exact (Bool.and_true row.on).symm
  | apiKeys => rfl

theorem Resource.exempt_congr (h : row'.isSystem = row.isSystem) : r.exempt row' = r.exempt row := by
  cases r with
  | schedules | webhooks => rfl
  | apiKeys => exact h

theorem SwitchWrite.row_cases {o : Option Switch} (h : w.row id o = some row') :
    (o = none ∧ w = .insert row'.on ∧ row'.isSystem = false) ∨
      ∃ row, o = some row ∧ row'.isSystem = row.isSystem ∧
        (row'.on = true → row.on = true ∨ ∃ reset, w = .set (some true) reset) := by
  cases o with
  | none =>
    cases w with
    | insert on =>
      cases h
      exact .inl ⟨rfl, rfl, rfl⟩
    | set | outcome | delete => nomatch h
  | some row =>
    refine .inr ⟨row, rfl, ?_⟩
    cases w with
    | insert on =>
      cases h
      exact ⟨rfl, .inl⟩
    | set on reset =>
      cases h
      refine ⟨rfl, fun hon => ?_⟩
      cases on with
      | none => exact .inl hon
      | some on =>
        have hon : on = true := hon
        exact .inr ⟨reset, by rw [hon]⟩
    | outcome delivered =>
      cases h
      refine ⟨rfl, fun hon => .inl ?_⟩
      simp only [Switch.outcome] at hon
      split at hon
      · nomatch hon
      · exact hon
    | delete => nomatch h

def SwitchStore.held (s : SwitchStore) (r : Resource) : Finset Nat := (s.table r).keysWhere r.counts

theorem SwitchStore.card_held : (s.held r).card = s.count r := Table.card_keysWhere _ _

theorem SwitchStore.mem_held {k : Nat} :
    k ∈ s.held r ↔ ∃ row, (s.table r).find k = some row ∧ r.counts row = true := by
  rw [SwitchStore.held, Table.mem_keysWhere, Option.any_eq_true]

theorem SwitchProc.Command.find_run (c : SwitchProc.Command) (k : Nat) :
    ((c.run s).table r).find k = if r = c.resource ∧ k = c.id then c.write.row c.id ((s.table r).find k)
      else (s.table r).find k := by
  show (if r = c.resource then c.write.apply c.id (s.table r) else s.table r).find k = _
  by_cases hr : r = c.resource
  · rw [if_pos hr, SwitchWrite.find_apply]
    by_cases hk : k = c.id <;> simp [hr, hk]
  · rw [if_neg hr, if_neg fun h => hr h.1]

theorem SwitchProc.Command.held_run (c : SwitchProc.Command) {k : Nat}
    (hk : k ∈ (c.run s).held r) : k ∈ s.held r ∨
      (r = c.resource ∧ k = c.id ∧ c.write.turnsOn = true ∧
        ((∃ on, c.write = .insert on) ∨ ∃ row reset, (s.table r).find k = some row ∧
          c.write = .set (some true) reset ∧ row.on = false ∧ r.exempt row = false)) := by
  obtain ⟨row', hrow', hcounts⟩ := SwitchStore.mem_held.1 hk
  rw [c.find_run] at hrow'
  split at hrow'
  · next h =>
    obtain ⟨hr, rfl⟩ := h
    rw [Resource.counts_eq, Bool.and_eq_true, Bool.not_eq_true'] at hcounts
    obtain ⟨hon, hexempt⟩ := hcounts
    rcases SwitchWrite.row_cases hrow' with ⟨hnone, hw, -⟩ | ⟨row, hrow, hsys, himp⟩
    · exact .inr ⟨hr, rfl, by rw [hw]; exact hon, .inl ⟨_, hw⟩⟩
    · have hex : r.exempt row = false := by rw [← hexempt]; exact (Resource.exempt_congr hsys).symm
      cases hrowon : row.on with
      | true =>
        refine .inl (SwitchStore.mem_held.2 ⟨row, hrow, ?_⟩)
        rw [Resource.counts_eq, hrowon, hex]
        rfl
      | false =>
        obtain ⟨reset, hw⟩ := (himp hon).resolve_left (by rw [hrowon]; exact Bool.false_ne_true)
        exact .inr ⟨hr, rfl, by rw [hw]; rfl, .inr ⟨row, reset, hrow, hw, hrowon, hex⟩⟩
  · exact .inl (SwitchStore.mem_held.2 ⟨row', hrow', hcounts⟩)

/-! ## Steps of a request -/

namespace SwitchProc

inductive Goes (limits : PlanLimits) (s : SwitchStore) (os : List SwitchProc) (r : Resource)
    (id : Nat) : SwitchPhase → SwitchPhase → Prop
  | read {e : Edit} {existing : Switch} (h : (s.table r).find id = some existing) :
      Goes limits s os r id (.reading e) (.opened (e.plan existing))
  | lock {pays : Payment} {w : SwitchWrite} (h : os.any (hasLock r) = false) :
      Goes limits s os r id (.opened ⟨some pays, w⟩) (.locked pays w)
  | pay {w : SwitchWrite} (h : limits.allows r.cap (s.count r) w.adding = true) :
      Goes limits s os r id (.locked .always w) (.paid w false)
  | on {w : SwitchWrite} {row : Switch} (h : (s.table r).find id = some row) (hon : row.on = true) :
      Goes limits s os r id (.locked .ifOff w) (.paid w true)
  | off {w : SwitchWrite} : Goes limits s os r id (.locked .ifOff w) (.checking w)
  | check {w : SwitchWrite} (h : limits.allows r.cap (s.count r) 1 = true) :
      Goes limits s os r id (.checking w) (.paid w true)

/-- **The steps of a request.** The statements that end it are unpaid, or paid for. -/
theorem turns (p : SwitchProc) : Turn.Allowed
    (fun p' => ∃ φ, p' = { p with phase := φ } ∧ Goes limits s os p.resource p.id p.phase φ)
    (fun c q => q = none ∧ ∃ w, c = ⟨p.resource, p.id, w⟩ ∧
      (p.phase = .opened ⟨none, w⟩ ∨ ∃ rowLocked, p.phase = .paid w rowLocked))
    (act limits s os p) := by
  cases hphase : p.phase with
  | reading e =>
    simp only [act, hphase]
    split
    · exact .quit
    · next existing hrow => exact .stay ⟨_, rfl, .read hrow⟩
  | opened plan =>
    obtain ⟨pays, w⟩ := plan
    cases pays with
    | none =>
      simp only [act, hphase, writes]
      split
      · exact .wait
      · exact .run ⟨rfl, w, rfl, .inl rfl⟩
    | some pays =>
      simp only [act, hphase]
      split
      · exact .wait
      · next hfree => exact .stay ⟨_, rfl, .lock (by simpa using hfree)⟩
  | locked pays w =>
    cases pays with
    | always =>
      simp only [act, hphase]
      split
      · next hok => exact .stay ⟨_, rfl, .pay hok⟩
      · exact .quit
    | ifOff =>
      simp only [act, hphase]
      split
      · exact .wait
      · split
        · exact .quit
        · next row hrow =>
          refine .stay ⟨_, rfl, ?_⟩
          cases hon : row.on with
          | true => exact .on hrow hon
          | false => exact .off
  | checking w =>
    simp only [act, hphase]
    split
    · next hok => exact .stay ⟨_, rfl, .check hok⟩
    · exact .quit
  | paid w rowLocked =>
    simp only [act, hphase, writes]
    split
    · exact .wait
    · exact .run ⟨rfl, w, rfl, .inr ⟨rowLocked, rfl⟩⟩

/-! ## The cap -/

/-- What a request knows: an unpaid statement inserts nothing, and the row of a request that pays
when it is off counts when it is on. -/
def Known (s : SwitchStore) (p : SwitchProc) : Prop :=
  match p.phase with
  | .reading e => e.resource = p.resource
  | .opened ⟨none, w⟩ => ∀ on, w ≠ .insert on
  | .opened ⟨some .ifOff, _⟩ | .locked .ifOff _ =>
    ∀ row, (s.table p.resource).find p.id = some row → p.resource.exempt row = false
  | .opened ⟨some .always, _⟩ | .locked .always _ | .checking _ | .paid .. => True

/-- A statement that is not paid for switches on only what is on. -/
def isStillOn (s : SwitchStore) (p : SwitchProc) : Bool :=
  match p.phase with
  | .opened ⟨none, .set (some true) _⟩ =>
    ((s.table p.resource).find p.id).all fun row => row.on || p.resource.exempt row
  | _ => true

theorem known_plan {e : Edit} {existing : Switch} (he : e.resource = r)
    (h : (s.table r).find id = some existing) : Known s ⟨r, id, .opened (e.plan existing)⟩ := by
  subst he
  cases e with
  | scheduleUpdate isActive =>
    by_cases ha : isActive = some true
    · simp only [Known, Edit.plan, if_pos ha]
      exact fun _ _ => rfl
    · simp only [Known, Edit.plan, if_neg ha]
      exact fun _ h => by cases h
  | scheduleResume =>
    cases hon : existing.on <;> simp only [Known, Edit.plan, hon]
    · trivial
    · exact fun _ h => by cases h
  | webhookUpdate enabled repointed =>
    simp only [Known, Edit.plan]
    cases enabled.getD existing.on && !existing.on
    · exact fun _ h => by cases h
    · trivial
  | keyUpdate isActive =>
    simp only [Known, Edit.plan]
    cases hpay : (decide (isActive = some true) && !existing.isSystem) with
    | false => exact fun _ h => by cases h
    | true =>
      intro row hrow
      obtain rfl := Option.some.inj (h.symm.trans hrow)
      have hsys : (!existing.isSystem) = true := (Bool.and_eq_true_iff.1 hpay).2
      simpa [Resource.exempt, Edit.resource] using hsys
  | keyRevoke => exact fun _ h => by cases h

theorem Known.run (h : Known s p) (c : Command) : Known (c.run s) p := by
  have hexempt : (∀ row, (s.table p.resource).find p.id = some row → p.resource.exempt row = false) →
      ∀ row, ((c.run s).table p.resource).find p.id = some row → p.resource.exempt row = false := by
    intro hold row hrow
    rw [c.find_run] at hrow
    split at hrow
    · rcases SwitchWrite.row_cases hrow with ⟨-, -, hsys⟩ | ⟨row₀, hrow₀, hsys, -⟩
      · cases hr : p.resource with
        | schedules | webhooks => rfl
        | apiKeys => exact hsys
      · rw [Resource.exempt_congr hsys]
        exact hold row₀ hrow₀
    · exact hold row hrow
  unfold Known at h ⊢
  split at h
  · exact h
  · exact h
  · exact hexempt h
  · exact hexempt h
  · trivial
  · trivial
  · trivial
  · trivial

end SwitchProc

@[reducible] def unpaidOn (limits : PlanLimits) : PoolSpec.Allow (switches limits).pool :=
  .onRun (switches limits).pool fun s _ p => SwitchProc.isStillOn s p

theorem switches_known (limits : PlanLimits) (A : PoolSpec.Allow (switches limits).pool) :
    PoolSpec.Kept (switches limits).pool A (fun _ => True) SwitchProc.Known fun _ _ _ => True := by
  refine @CommandSpec.Keeps.kept (switches limits) A _ _ _ ?_
  refine ⟨fun _ => trivial, fun {s a} _ _ => ⟨trivial, ?_⟩, fun _ _ hq => ⟨hq, trivial⟩,
    fun _ => trivial, fun {s os p p'} hact _ hb => ⟨?_, fun _ _ => trivial⟩,
    fun {s os p c p'} hact _ hb => ?_⟩
  · cases a with
    | edit => rfl
    | scheduleCreate | webhookCreate | keyCreate => trivial
    | schedulePause | scheduleDelete | webhookDelete | recordDeliveryOutcome => exact nofun
  · obtain ⟨φ, rfl, hgoes⟩ := p.turns.of_stay hact
    have hknown : SwitchProc.Known s p := hb.own
    obtain ⟨r, id, phase⟩ := p
    cases hgoes with
    | read h => exact SwitchProc.known_plan hknown h
    | @lock pays w h =>
      cases pays with
      | always => trivial
      | ifOff => exact hknown
    | pay | on | off | check => trivial
  · obtain ⟨rfl, -⟩ := p.turns.of_run hact
    exact ⟨trivial, fun _ h => absurd h (Option.not_mem_none _),
      fun q hq => SwitchProc.Known.run (hb.others q hq) c, fun _ _ _ _ _ => trivial⟩

def SwitchProc.due (r : Resource) (p : SwitchProc) : Option Nat :=
  match p.phase with
  | .paid w _ => if p.resource = r ∧ w.turnsOn = true then some p.id else none
  | .reading _ | .opened _ | .locked .. | .checking _ => none

theorem SwitchProc.due_eq_some {k : Nat} : p.due r = some k ↔
    ∃ w rowLocked, p.phase = .paid w rowLocked ∧ p.resource = r ∧ w.turnsOn = true ∧ p.id = k := by
  unfold SwitchProc.due
  split
  · next w rowLocked hphase =>
    simp only [hphase, SwitchPhase.paid.injEq]
    constructor
    · intro h
      split at h
      · next hw => exact ⟨w, rowLocked, ⟨rfl, rfl⟩, hw.1, hw.2, Option.some.inj h⟩
      · nomatch h
    · rintro ⟨w', b, ⟨rfl, rfl⟩, hr, hw, rfl⟩
      rw [if_pos ⟨hr, hw⟩]
  all_goals
    next hphase => simp [hphase]

/-- **Who raises the count has the lock.** -/
theorem switches_capped {limits : PlanLimits} {r : Resource} {m : Nat} (hm : m ∈ limits.cap r.cap) :
    CommandSpec.Capped (switches limits) (unpaidOn limits) (fun _ => True) SwitchProc.Known
      (fun _ _ _ => True) (SwitchStore.held · r) (fun p => p.hasLock r = true) (SwitchProc.due r)
      m where
  start {s a} := ⟨Finset.Subset.refl _, by cases a <;> simp [SwitchAsk.proc, SwitchProc.hasLock]⟩
  due_locks {p k} h := by
    obtain ⟨w, rowLocked, hphase, hr, -, -⟩ := SwitchProc.due_eq_some.1 h
    simp [SwitchProc.hasLock, hphase, hr]
  stay_locks {s os p p'} hact hlock := by
    obtain ⟨φ, rfl, hgoes⟩ := p.turns.of_stay hact
    obtain ⟨pr, id, phase⟩ := p
    cases hgoes with
    | read => simp [SwitchProc.hasLock] at hlock
    | lock hfree =>
      have hr : pr = r := by simpa [SwitchProc.hasLock] using hlock
      subst hr
      exact .inr fun q hq => List.any_eq_false.1 hfree q hq
    | pay | on | off | check => exact .inl (by simpa [SwitchProc.hasLock] using hlock)
  stay_due {s os p p' k} hact _ hb hdue := by
    obtain ⟨φ, rfl, hgoes⟩ := p.turns.of_stay hact
    obtain ⟨w, rowLocked, hphase, hr, hw, hk⟩ := SwitchProc.due_eq_some.1 hdue
    have hknown : SwitchProc.Known s p := hb.own
    obtain ⟨pr, id, phase⟩ := p
    have hr : pr = r := hr
    have hk : id = k := hk
    subst hr hk
    have hphase : φ = .paid w rowLocked := hphase
    subst hphase
    refine .inr ?_
    cases hgoes with
    | pay h =>
      have hle := PlanLimits.le_of_allows h hm
      rw [SwitchWrite.adding, if_pos hw] at hle
      exact .inr (by rw [SwitchStore.card_held]; exact hle)
    | @on _ row h hon =>
      refine .inl (SwitchStore.mem_held.2 ⟨row, h, ?_⟩)
      rw [Resource.counts_eq, hon, hknown row h]
      rfl
    | check h =>
      exact .inr (by rw [SwitchStore.card_held]; exact PlanLimits.le_of_allows h hm)
  run_held {s os p c p'} hact hA hb := by
    obtain ⟨rfl, w, rfl, hphase⟩ := p.turns.of_run hact
    have hknown : SwitchProc.Known s p := hb.own
    have hA : SwitchProc.isStillOn s p = true := hA
    rcases hphase with hphase | ⟨rowLocked, hphase⟩
    · refine .inl fun k hk => ?_
      rcases SwitchProc.Command.held_run _ hk with hmem | ⟨rfl, rfl, -, ⟨on, hw⟩ | hrow⟩
      · exact hmem
      · simp only [SwitchProc.Known, hphase] at hknown
        exact absurd hw (hknown on)
      · obtain ⟨row, reset, hrow, hw, hoff, hexempt⟩ := hrow
        have hw : w = .set (some true) reset := hw
        have hrow : (s.table p.resource).find p.id = some row := hrow
        have hexempt : p.resource.exempt row = false := hexempt
        subst hw
        simp only [SwitchProc.isStillOn, hphase, hrow, Option.all_some, hoff, hexempt] at hA
        cases hA
    · by_cases hdue : p.resource = r ∧ w.turnsOn = true
      · refine .inr ⟨p.id, SwitchProc.due_eq_some.2 ⟨w, rowLocked, hphase, hdue.1, hdue.2, rfl⟩,
          fun k hk => ?_⟩
        rcases SwitchProc.Command.held_run _ hk with hmem | ⟨-, rfl, -⟩
        · exact Finset.mem_insert_of_mem hmem
        · exact Finset.mem_insert_self _ _
      · refine .inl fun k hk => ?_
        rcases SwitchProc.Command.held_run _ hk with hmem | ⟨hr, -, hon, -⟩
        · exact hmem
        · exact absurd ⟨hr.symm, hon⟩ hdue
  run_next {s os p c p'} hact := by
    cases (p.turns.of_run hact).1

/-- At or below every limit. -/
def SwitchStore.IsStart (limits : PlanLimits) (s : SwitchStore) : Prop :=
  ∀ r : Resource, limits.Within r.cap (s.count r)

def switchSystem (limits : PlanLimits) : Machine :=
  (switches limits).pool.machine (SwitchStore.IsStart limits)

/-- **The caps on what can be switched are exact**, as long as a request that took the row to be
on, and so pays for nothing, does not switch on a row that is off by then. -/
theorem switch_caps_exact {limits : PlanLimits} {x : Pool SwitchStore SwitchProc}
    {h : List (Pool SwitchStore SwitchProc × PoolLabel SwitchAsk)}
    (hr : (switchSystem limits).Run x h) (hon : (switchSystem limits).Steps (unpaidOn limits).step h)
    (r : Resource) : limits.Within r.cap (x.store.count r) := by
  intro m hm
  have hle := (switches_capped hm).card_le (switches_known limits _)
    (fun s hs => ⟨trivial, by rw [SwitchStore.card_held]; exact hs r m hm⟩) hr hon
  rwa [SwitchStore.card_held] at hle

/-- A free plan that is used up: one schedule, one webhook, two keys, and a system key. -/
def fullPlan : Pool SwitchStore SwitchProc :=
  ⟨{ table := fun
      | .schedules | .webhooks => (Table.empty : Switches).insert { id := 1, on := true }
      | .apiKeys => (((Table.empty : Switches).insert { id := 1, on := true }).insert
          { id := 2, on := true }).insert { id := 9, on := true, isSystem := true } }, []⟩

theorem fullPlan_isStart : SwitchStore.IsStart .free fullPlan.store := by
  intro r
  rw [PlanLimits.within_iff]
  cases r <;> decide +kernel

/-- A schedule is paused, its slot is taken by another one, and resuming it is refused: the plan is
used up again. -/
theorem switch_caps_exact_resume : ∃ x h, (switchSystem .free).Run x h ∧
    (switchSystem .free).Steps (unpaidOn .free).step h ∧ x.store.count .schedules = 1 ∧
    PlanLimits.free.Within .maxSchedules (x.store.count .schedules) := by
  obtain ⟨x, h, hr, hsteps, hcount⟩ := (unpaidOn .free).run_of_exec (SwitchStore.IsStart .free)
    [.ask (.schedulePause 1), .run 0, .ask (.scheduleCreate 2), .run 0, .run 0, .run 0,
      .ask (.edit 1 .scheduleResume), .run 0, .run 0, .run 0]
    fullPlan (fun x => decide (x.1.store.count .schedules = 1)) ⟨fullPlan_isStart, rfl⟩
    (by decide +kernel)
  exact ⟨x, h, hr, hsteps, of_decide_eq_true hcount, switch_caps_exact hr hsteps .schedules⟩

def isOver (x : Pool SwitchStore SwitchProc) : Bool :=
  x.procs.isEmpty && [.schedules, .webhooks, .apiKeys].all fun r : Resource =>
    !PlanLimits.free.checkLimit r.cap (x.store.count r) 0

theorem isOver_iff {x : Pool SwitchStore SwitchProc} : isOver x = true ↔ x.procs = [] ∧
    ∀ r : Resource, ¬ PlanLimits.free.Within r.cap (x.store.count r) := by
  rw [isOver, Bool.and_eq_true, List.isEmpty_iff, List.all_eq_true]
  refine and_congr_right fun _ => ⟨fun h r => ?_, fun h r _ => ?_⟩
  · have hr := h r (by cases r <;> simp)
    rw [PlanLimits.within_iff]
    simpa using hr
  · have hr := h r
    rw [PlanLimits.within_iff] at hr
    simpa using hr

/-- A resume, an update of a webhook and an update of a key have read their rows when these are
switched off and the slots are taken by new ones; each of them switches its row on again. -/
theorem switched_on_unpaid : ∃ x h, (switchSystem .free).Run x h ∧ x.procs = [] ∧
    ∀ r : Resource, ¬ PlanLimits.free.Within r.cap (x.store.count r) := by
  obtain ⟨x, h, hr, hp⟩ := Machine.Run.of_exec (switchSystem .free)
    [.ask (.edit 1 .scheduleResume), .run 0, .ask (.schedulePause 1), .run 0,
      .ask (.scheduleCreate 2), .run 0, .run 0, .run 0, .run 0,
      .ask (.edit 1 (.webhookUpdate none true)), .run 0,
      .ask (.edit 1 (.webhookUpdate (some false) false)), .run 0, .run 0,
      .ask (.webhookCreate 2 true), .run 0, .run 0, .run 0, .run 0,
      .ask (.edit 1 (.keyUpdate none)), .run 0, .ask (.edit 1 .keyRevoke), .run 0, .run 0,
      .ask (.keyCreate 3), .run 0, .run 0, .run 0, .run 0]
    fullPlan (fun x => isOver x.1) ⟨fullPlan_isStart, rfl⟩ (by decide +kernel)
  obtain ⟨hprocs, hover⟩ := isOver_iff.1 hp
  exact ⟨x, h, hr, hprocs, hover⟩

end Spooled.Cap
