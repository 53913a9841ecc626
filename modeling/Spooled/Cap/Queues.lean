import Spooled.Lib.Capped
import Spooled.Plan.Limits

/-!
# The cap on queues

A queue of an organization is a name with a `queue_config` row, with jobs, or
with an active schedule. Whoever may be the first to use a name takes the
`queues` lock, asks again whether the name is in use, and checks the cap if it
is not: the enqueues, the creation of a schedule, a cron fire and the PUT of a
queue's configuration.

The other writes take no lock: an enqueue into a queue that it has seen, the
update, resume and manual trigger of a schedule, and the pause of a queue. A
cron fire has the row of its schedule locked, so the schedule stays active.
-/

namespace Spooled.Cap

/-! ## Rows -/

/-- The columns of `schedules` that are read here. -/
structure QueueSchedule where
  id : Nat
  queueName : String
  isActive : Bool
deriving DecidableEq, Repr

structure QueueJob where
  queueName : String
  idempotencyKey : Option String
deriving DecidableEq, Repr

structure QueueStore where
  /-- The names in `queue_config`. -/
  configs : List String := []
  jobs : List QueueJob := []
  schedules : Table Nat QueueSchedule QueueSchedule.id := .empty

namespace QueueStore

variable (s : QueueStore)

/-- `queue_exists_implicitly`. -/
def queueExistsImplicitly (q : String) : Bool :=
  s.jobs.any (·.queueName == q) || s.schedules.rows.any fun row => row.queueName == q && row.isActive

/-- `queue_name_exists`. -/
def queueNameExists (q : String) : Bool :=
  s.configs.contains q || s.queueExistsImplicitly q

/-- The names that `get_org_queue_count` counts. -/
def names : Finset String :=
  (s.jobs.map (·.queueName) ++ s.configs ++
    (s.schedules.rows.filter (·.isActive)).map (·.queueName)).toFinset

def count : Nat := s.names.card

end QueueStore

/-! ## Statements -/

/-- The writes that may be the first use of a name. -/
inductive Addition
  /-- `INSERT INTO jobs … ON CONFLICT (organization_id, idempotency_key)`, one item or a batch. -/
  | jobs (q : String) (keys : List (Option String))
  | schedule (id : Nat) (q : String)
  | config (q : String)

def Addition.queue : Addition → String
  | jobs q _ | schedule _ q | config q => q

def insertJob (q : String) (rows : List QueueJob) (key : Option String) : List QueueJob :=
  if key.isSome && rows.any (·.idempotencyKey == key) then rows else rows ++ [⟨q, key⟩]

def Addition.run (a : Addition) (s : QueueStore) : QueueStore :=
  match a with
  | jobs q keys => { s with jobs := keys.foldl (insertJob q) s.jobs }
  | schedule id q => { s with schedules := s.schedules.insert ⟨id, q, true⟩ }
  | config q => { s with configs := if s.configs.contains q then s.configs else q :: s.configs }

inductive QueueCommand
  | add (a : Addition)
  /-- `SET is_active = COALESCE($2, is_active)`. -/
  | setActive (id : Nat) (isActive : Option Bool)

def QueueCommand.run (c : QueueCommand) (s : QueueStore) : QueueStore :=
  match c with
  | add a => a.run s
  | setActive id isActive =>
    let set (row : QueueSchedule) := { row with isActive := isActive.getD row.isActive }
    { s with schedules := s.schedules.update (·.id == id) set fun _ => rfl }

/-! ## Requests -/

inductive QueueAsk
  /-- REST and gRPC. -/
  | enqueue (q : String) (key : Option String)
  | bulkEnqueue (q : String) (keys : List (Option String))
  | scheduleCreate (id : Nat) (q : String)
  | scheduleUpdate (id : Nat) (isActive : Option Bool)
  | scheduleResume (id : Nat)
  | schedulePause (id : Nat)
  | trigger (id : Nat)
  /-- A cron fire of a schedule that is due. -/
  | cron (id : Nat)
  | updateConfig (q : String)
  | pauseQueue (q : String)

inductive QueuePhase
  | fresh (a : QueueAsk)
  /-- `queue_job_defaults` is next; `creates`: some item of a batch has no stored key. -/
  | defaults (a : Addition) (creates : Bool)
  /-- `check_new_queue_limit`, before the transaction. -/
  | precheck (a : Addition)
  | opened (a : Addition)
  | locked (a : Addition)
  /-- The name has no configuration; jobs and schedules are looked at next. -/
  | implicit (q : String)
  | checking (a : Addition)
  | paid (a : Addition)
  | unpaid (c : QueueCommand)
  /-- A pause of a queue without configuration. -/
  | pausing (q : String)
  | fired (q : String)

/-- `row`: the schedule that is locked by `FOR UPDATE`. -/
structure QueueProc where
  row : Option Nat := none
  phase : QueuePhase

namespace QueueProc

def hasLock (p : QueueProc) : Bool :=
  match p.phase with
  | .locked _ | .implicit _ | .checking _ | .paid _ => true
  | _ => false

def goto (p : QueueProc) (phase : QueuePhase) : Option (Turn QueueCommand QueueProc) :=
  some (.stay { p with phase })

def act (limits : PlanLimits) (s : QueueStore) (os : List QueueProc) (p : QueueProc) :
    Option (Turn QueueCommand QueueProc) :=
  match p.phase with
  | .fresh (.enqueue q key) => p.goto (.defaults (.jobs q [key]) true)
  | .fresh (.bulkEnqueue q keys) =>
    let creates := keys.any fun key => key.isNone || !s.jobs.any (·.idempotencyKey == key)
    p.goto (.defaults (.jobs q keys) creates)
  | .fresh (.scheduleCreate id q) => p.goto (.defaults (.schedule id q) true)
  | .fresh (.scheduleUpdate id isActive) =>
    if (s.schedules.find id).isSome then p.goto (.unpaid (.setActive id isActive)) else some .quit
  | .fresh (.scheduleResume id) =>
    if (s.schedules.find id).isSome then p.goto (.unpaid (.setActive id (some true)))
    else some .quit
  | .fresh (.schedulePause id) => p.goto (.unpaid (.setActive id (some false)))
  | .fresh (.trigger id) => match s.schedules.find id with
    | none => some .quit
    | some row => p.goto (.unpaid (.add (.jobs row.queueName [none])))
  | .fresh (.cron id) => match s.schedules.find id with
    | none => some .quit
    | some row =>
      -- `FOR UPDATE SKIP LOCKED`
      if row.isActive && !os.any (·.row == some id) then
        some (.stay ⟨some id, .fired row.queueName⟩)
      else some .quit
  | .fresh (.updateConfig q) => p.goto (.opened (.config q))
  | .fresh (.pauseQueue q) =>
    p.goto (if s.configs.contains q then .unpaid (.add (.config q)) else .pausing q)
  | .defaults a creates =>
    p.goto (if creates && !s.queueNameExists a.queue then .precheck a else .unpaid (.add a))
  | .precheck a =>
    if limits.allows .maxQueues s.count 1 then p.goto (.opened a) else some .quit
  | .opened a => if os.any hasLock then none else p.goto (.locked a)
  | .locked (.config q) =>
    p.goto (if s.configs.contains q then .paid (.config q) else .implicit q)
  | .implicit q =>
    p.goto (if s.queueExistsImplicitly q then .paid (.config q) else .checking (.config q))
  | .locked a => p.goto (if s.queueNameExists a.queue then .paid a else .checking a)
  | .checking a =>
    if limits.allows .maxQueues s.count 1 then p.goto (.paid a) else some .quit
  | .paid a => some (.run (.add a) none)
  | .unpaid (.add a) => some (.run (.add a) none)
  | .unpaid (.setActive id isActive) =>
    if os.any (·.row == some id) then none else some (.run (.setActive id isActive) none)
  | .pausing q =>
    if s.queueExistsImplicitly q then p.goto (.unpaid (.add (.config q))) else some .quit
  | .fired q =>
    p.goto (if s.queueNameExists q then .unpaid (.add (.jobs q [none]))
      else .opened (.jobs q [none]))

end QueueProc

@[reducible] def queueDesk (limits : PlanLimits) : CommandSpec where
  Store := QueueStore
  Proc := QueueProc
  Ask := QueueAsk
  Command := QueueCommand
  start s a := (s, ⟨none, .fresh a⟩)
  run s c := c.run s
  act := QueueProc.act limits

/-! ## What a statement does to the names -/

variable {limits : PlanLimits} {s : QueueStore} {os : List QueueProc} {p p' : QueueProc}
  {a : Addition} {q : String} {c : QueueCommand}

theorem QueueStore.mem_names : q ∈ s.names ↔ s.queueNameExists q = true := by
  simp only [QueueStore.names, QueueStore.queueNameExists, QueueStore.queueExistsImplicitly,
    List.mem_toFinset, List.mem_append, List.mem_map, List.mem_filter, Bool.or_eq_true,
    List.any_eq_true, Bool.and_eq_true, beq_iff_eq, List.contains_iff_mem]
  constructor
  · rintro ((⟨j, hj, rfl⟩ | h) | ⟨row, ⟨hrow, hon⟩, rfl⟩)
    · exact .inr (.inl ⟨j, hj, rfl⟩)
    · exact .inl h
    · exact .inr (.inr ⟨row, hrow, rfl, hon⟩)
  · rintro (h | ⟨j, hj, rfl⟩ | ⟨row, hrow, rfl, hon⟩)
    · exact .inl (.inr h)
    · exact .inl (.inl ⟨j, hj, rfl⟩)
    · exact .inr ⟨row, ⟨hrow, hon⟩, rfl⟩

theorem QueueStore.exists_iff : s.queueNameExists q = true ↔ q ∈ s.configs ∨
    (∃ j ∈ s.jobs, j.queueName = q) ∨
    ∃ row ∈ s.schedules.rows, row.queueName = q ∧ row.isActive = true := by
  simp only [QueueStore.queueNameExists, QueueStore.queueExistsImplicitly, Bool.or_eq_true,
    List.any_eq_true, Bool.and_eq_true, beq_iff_eq, List.contains_iff_mem]

theorem mem_insertJob {q : String} {rows : List QueueJob} {key : Option String} {j : QueueJob}
    (h : j ∈ insertJob q rows key) : j ∈ rows ∨ j.queueName = q := by
  unfold insertJob at h
  split at h
  · exact .inl h
  · rcases List.mem_append.1 h with h | h
    · exact .inl h
    · rw [List.mem_singleton.1 h]
      exact .inr rfl

theorem mem_foldl_insertJob {q : String} {keys : List (Option String)} {rows : List QueueJob}
    {j : QueueJob} (h : j ∈ keys.foldl (insertJob q) rows) : j ∈ rows ∨ j.queueName = q := by
  induction keys generalizing rows with
  | nil => exact .inl h
  | cons key keys ih =>
    rcases ih h with h | h
    · exact mem_insertJob h
    · exact .inr h

theorem Addition.names_run (a : Addition) : (a.run s).names ⊆ insert a.queue s.names := by
  intro k hk
  rw [QueueStore.mem_names, QueueStore.exists_iff] at hk
  rw [Finset.mem_insert, QueueStore.mem_names, QueueStore.exists_iff]
  cases a with
  | jobs q keys =>
    rcases hk with h | ⟨j, hj, rfl⟩ | h
    · exact .inr (.inl h)
    · rcases mem_foldl_insertJob hj with hj | hj
      · exact .inr (.inr (.inl ⟨j, hj, rfl⟩))
      · exact .inl hj
    · exact .inr (.inr (.inr h))
  | schedule id q =>
    rcases hk with h | h | ⟨row, hrow, rfl, hon⟩
    · exact .inr (.inl h)
    · exact .inr (.inr (.inl h))
    · rcases Table.mem_insert.1 hrow with hrow | ⟨-, rfl⟩
      · exact .inr (.inr (.inr ⟨row, hrow, rfl, hon⟩))
      · exact .inl rfl
  | config q =>
    rcases hk with h | h
    · have h : k ∈ (if s.configs.contains q then s.configs else q :: s.configs) := h
      split at h
      · exact .inr (.inl h)
      · rcases List.mem_cons.1 h with h | h
        · exact .inl h
        · exact .inr (.inl h)
    · exact .inr (.inr h)

theorem Addition.names_run_of_mem (h : a.queue ∈ s.names) : (a.run s).names ⊆ s.names := by
  have hsub := a.names_run (s := s)
  rwa [Finset.insert_eq_of_mem h] at hsub

theorem names_setActive {id : Nat} {isActive : Option Bool}
    (h : isActive = some true → ∀ row, s.schedules.find id = some row → row.queueName ∈ s.names) :
    ((QueueCommand.setActive id isActive).run s).names ⊆ s.names := by
  intro k hk
  rw [QueueStore.mem_names, QueueStore.exists_iff] at hk
  rcases hk with hk | hk | ⟨row', hrow', rfl, hon⟩
  · exact QueueStore.mem_names.2 (QueueStore.exists_iff.2 (.inl hk))
  · exact QueueStore.mem_names.2 (QueueStore.exists_iff.2 (.inr (.inl hk)))
  · simp only [QueueCommand.run, Table.mem_update] at hrow'
    obtain ⟨row, hrow, rfl⟩ := hrow'
    have hactive : row.isActive = true → row.queueName ∈ s.names := fun hon =>
      QueueStore.mem_names.2 (QueueStore.exists_iff.2 (.inr (.inr ⟨row, hrow, rfl, hon⟩)))
    by_cases hid : (row.id == id) = true
    · rw [if_pos hid] at hon ⊢
      cases isActive with
      | none => exact hactive hon
      | some b =>
        have hb : b = true := hon
        subst hb
        exact h rfl row (by rw [← beq_iff_eq.1 hid]; exact Table.find_key hrow)
    · rw [if_neg hid] at hon ⊢
      exact hactive hon

/-! ## Steps of a request -/

namespace QueueProc

inductive Goes (limits : PlanLimits) (s : QueueStore) (os : List QueueProc) (row : Option Nat) :
    QueuePhase → Option Nat → QueuePhase → Prop
  | ask {a : QueueAsk} {φ : QueuePhase} (h : hasLock ⟨row, φ⟩ = false) :
      Goes limits s os row (.fresh a) row φ
  | fire {id : Nat} {r : QueueSchedule} (h : s.schedules.find id = some r) (hon : r.isActive = true) :
      Goes limits s os row (.fresh (.cron id)) (some id) (.fired r.queueName)
  | defaults {a : Addition} {creates : Bool} {φ : QueuePhase} (h : φ = .precheck a ∨ φ = .unpaid (.add a)) :
      Goes limits s os row (.defaults a creates) row φ
  | precheck {a : Addition} : Goes limits s os row (.precheck a) row (.opened a)
  | lock {a : Addition} (h : os.any hasLock = false) :
      Goes limits s os row (.opened a) row (.locked a)
  | seen {a : Addition} (h : s.queueNameExists a.queue = true) :
      Goes limits s os row (.locked a) row (.paid a)
  | unseen {a : Addition} : Goes limits s os row (.locked a) row (.checking a)
  | unconfigured {q : String} : Goes limits s os row (.locked (.config q)) row (.implicit q)
  | implicit {q : String} (h : s.queueNameExists q = true) :
      Goes limits s os row (.implicit q) row (.paid (.config q))
  | missing {q : String} : Goes limits s os row (.implicit q) row (.checking (.config q))
  | check {a : Addition} (h : limits.allows .maxQueues s.count 1 = true) :
      Goes limits s os row (.checking a) row (.paid a)
  | pausing {q : String} : Goes limits s os row (.pausing q) row (.unpaid (.add (.config q)))
  | fired {q : String} {φ : QueuePhase}
      (h : φ = .unpaid (.add (.jobs q [none])) ∨ φ = .opened (.jobs q [none])) :
      Goes limits s os row (.fired q) row φ

/-- **The steps of a request.** The statements that end it are paid for, or need not be. -/
theorem turns (p : QueueProc) : Turn.Allowed
    (fun p' => Goes limits s os p.row p.phase p'.row p'.phase)
    (fun c r => r = none ∧ ((∃ a, p.phase = .paid a ∧ c = .add a) ∨ (p.phase = .unpaid c ∧
      ∀ id isActive, c = .setActive id isActive → os.any (·.row == some id) = false)))
    (act limits s os p) := by
  cases hphase : p.phase <;> simp only [act, hphase]
  case fresh a =>
    cases a <;> dsimp only
    case enqueue | bulkEnqueue | scheduleCreate | schedulePause | updateConfig =>
      exact .stay (.ask rfl)
    case scheduleUpdate | scheduleResume =>
      split
      · exact .stay (.ask rfl)
      · exact .quit
    case trigger =>
      split
      · exact .quit
      · exact .stay (.ask rfl)
    case cron =>
      split
      · exact .quit
      · next r hr =>
        split
        · next hon => exact .stay (.fire hr (Bool.and_eq_true_iff.1 hon).1)
        · exact .quit
    case pauseQueue q =>
      refine .stay (.ask ?_)
      cases s.configs.contains q <;> rfl
  case defaults a creates =>
    refine .stay (.defaults ?_)
    cases creates && !s.queueNameExists a.queue
    · exact .inr rfl
    · exact .inl rfl
  case precheck a =>
    split
    · exact .stay .precheck
    · exact .quit
  case opened a =>
    split
    · exact .wait
    · next hfree => exact .stay (.lock (by simpa using hfree))
  case locked a =>
    cases a with
    | config q =>
      dsimp only
      refine .stay ?_
      cases hq : s.configs.contains q with
      | true =>
        refine .seen ?_
        show (s.configs.contains q || _) = true
        rw [hq, Bool.true_or]
      | false => exact .unconfigured
    | jobs | schedule =>
      dsimp only
      refine .stay ?_
      generalize hq : s.queueNameExists _ = seen
      cases seen with
      | true => exact .seen hq
      | false => exact .unseen
  case implicit q =>
    refine .stay ?_
    cases hq : s.queueExistsImplicitly q with
    | true => exact .implicit (by simp [QueueStore.queueNameExists, hq])
    | false => exact .missing
  case checking a =>
    split
    · next hok => exact .stay (.check hok)
    · exact .quit
  case paid a => exact .run ⟨rfl, .inl ⟨a, rfl, rfl⟩⟩
  case unpaid c =>
    cases c with
    | add a =>
      dsimp only
      exact .run ⟨rfl, .inr ⟨rfl, fun _ _ h => by cases h⟩⟩
    | setActive id isActive =>
      dsimp only
      split
      · exact .wait
      · next hfree =>
        refine .run ⟨rfl, .inr ⟨rfl, fun id' isActive' he => ?_⟩⟩
        cases he
        simpa using hfree
  case pausing q =>
    split
    · exact .stay .pausing
    · exact .quit
  case fired q =>
    refine .stay (.fired ?_)
    cases s.queueNameExists q
    · exact .inr rfl
    · exact .inl rfl

/-! ## The cap -/

def usedName : QueuePhase → Option String
  | .opened a | .locked a | .checking a | .paid a | .unpaid (.add a) => some a.queue
  | .implicit q | .fired q => some q
  | .fresh _ | .defaults .. | .precheck _ | .unpaid (.setActive ..) | .pausing _ => none

/-- Who has a schedule's row has an active one, and is about to use its queue. -/
def Firing (s : QueueStore) (p : QueueProc) : Prop :=
  ∀ id, p.row = some id → ∃ r, s.schedules.find id = some r ∧ r.isActive = true ∧
    usedName p.phase = some r.queueName

/-- A request that takes no lock writes to a name in use. -/
def isInUse (s : QueueStore) (p : QueueProc) : Bool :=
  match p.row, p.phase with
  | none, .unpaid (.add a) => s.queueNameExists a.queue
  | none, .unpaid (.setActive id (some true)) =>
    (s.schedules.find id).all fun r => s.queueNameExists r.queueName
  | _, _ => true

theorem Goes.firing {row row' : Option Nat} {φ φ' : QueuePhase}
    (h : Goes limits s os row φ row' φ') (hp : Firing s ⟨row, φ⟩) : Firing s ⟨row', φ'⟩ := by
  intro id hid
  have hold : ∀ {q}, row' = row → usedName φ' = q → usedName φ = q →
      ∃ r, s.schedules.find id = some r ∧ r.isActive = true ∧ usedName φ' = some r.queueName := by
    intro q hrow hq' hq
    obtain ⟨r, hr, hon, hname⟩ := hp id (hrow ▸ hid)
    exact ⟨r, hr, hon, hq'.trans (hq.symm.trans hname)⟩
  cases h with
  | ask | defaults | precheck | pausing =>
    obtain ⟨r, -, -, hname⟩ := hp id hid
    nomatch hname
  | fire h hon =>
    cases hid
    exact ⟨_, h, hon, rfl⟩
  | lock | seen | unseen | unconfigured | implicit | missing | check => exact hold rfl rfl rfl
  | fired h =>
    rcases h with rfl | rfl
    · exact hold rfl rfl rfl
    · exact hold rfl rfl rfl

theorem Firing.run {q : QueueProc} (hq : Firing s q)
    (hfree : ∀ id isActive, c = .setActive id isActive → q.row ≠ some id) : Firing (c.run s) q := by
  intro id hid
  obtain ⟨r, hr, hon, hname⟩ := hq id hid
  refine ⟨r, ?_, hon, hname⟩
  cases c with
  | add a =>
    cases a with
    | jobs | config => exact hr
    | schedule id' q' =>
      show (s.schedules.insert _).find id = some r
      rw [Table.find_insert, if_neg, hr]
      rw [hr]
      exact fun h => nomatch h.2
  | setActive id' isActive =>
    have hne : id ≠ id' := fun he => hfree id' isActive rfl (he ▸ hid)
    have hkey : r.id = id := Table.key_of_find hr
    simp only [QueueCommand.run, Table.find_update, hr, Option.map_some]
    rw [if_neg]
    rw [hkey]
    simpa using hne

end QueueProc

@[reducible] def namesInUse (limits : PlanLimits) : PoolSpec.Allow (queueDesk limits).pool :=
  .onRun (queueDesk limits).pool fun s _ p => QueueProc.isInUse s p

theorem queueDesk_firing (limits : PlanLimits) (A : PoolSpec.Allow (queueDesk limits).pool) :
    PoolSpec.Kept (queueDesk limits).pool A (fun _ => True) QueueProc.Firing fun _ _ _ => True := by
  refine @CommandSpec.Keeps.kept (queueDesk limits) A _ _ _ ?_
  refine ⟨fun _ => trivial, fun {s a} _ _ => ⟨trivial, nofun⟩, fun _ _ hq => ⟨hq, trivial⟩,
    fun _ => trivial, fun {s os p p'} hact _ hb => ⟨?_, fun _ _ => trivial⟩,
    fun {s os p c p'} hact _ hb => ?_⟩
  · exact (p.turns.of_stay hact).firing hb.own
  · obtain ⟨rfl, hphase⟩ := p.turns.of_run hact
    refine ⟨trivial, fun _ h => absurd h (Option.not_mem_none _), fun q hq => ?_,
      fun _ _ _ _ _ => trivial⟩
    refine QueueProc.Firing.run (hb.others q hq) fun id isActive hc hrow => ?_
    rcases hphase with ⟨a, -, rfl⟩ | ⟨-, hfree⟩
    · nomatch hc
    · have hno := List.any_eq_false.1 (hfree id isActive hc) q hq
      simp [hrow] at hno

def QueueProc.dueName (p : QueueProc) : Option String :=
  match p.phase with
  | .paid a => some a.queue
  | _ => none

theorem QueueProc.hasLock_of_due (h : p.dueName = some q) : p.hasLock = true := by
  unfold QueueProc.dueName at h
  split at h
  · next a hphase => simp only [QueueProc.hasLock, hphase]
  · nomatch h

/-- **Who adds a name has the lock.** -/
theorem queues_capped {m : Nat} (hm : m ∈ limits.cap .maxQueues) :
    CommandSpec.Capped (queueDesk limits) (namesInUse limits) (fun _ => True) QueueProc.Firing
      (fun _ _ _ => True) QueueStore.names (fun p => p.hasLock = true) QueueProc.dueName m where
  start {s a} := ⟨Finset.Subset.refl _, Bool.false_ne_true⟩
  due_locks h := QueueProc.hasLock_of_due h
  stay_locks {s os p p'} hact hlock := by
    have hgoes := p.turns.of_stay hact
    obtain ⟨row, φ⟩ := p
    obtain ⟨row', φ'⟩ := p'
    cases hgoes with
    | ask h =>
      rw [h] at hlock
      cases hlock
    | fire | precheck | pausing => cases hlock
    | defaults h | fired h => rcases h with rfl | rfl <;> cases hlock
    | lock hfree => exact .inr fun q hq => List.any_eq_false.1 hfree q hq
    | seen | unseen | unconfigured | implicit | missing | check => exact .inl rfl
  stay_due {s os p p' k} hact _ _ hdue := by
    have hgoes := p.turns.of_stay hact
    obtain ⟨row, φ⟩ := p
    obtain ⟨row', φ'⟩ := p'
    refine .inr ?_
    cases hgoes with
    | ask h => exact absurd (QueueProc.hasLock_of_due hdue) (by rw [h]; exact Bool.false_ne_true)
    | fire | precheck | pausing | lock | unseen | unconfigured | missing => cases hdue
    | defaults h | fired h => rcases h with rfl | rfl <;> cases hdue
    | seen h | implicit h =>
      cases hdue
      exact .inl (QueueStore.mem_names.2 h)
    | check h => exact .inr (PlanLimits.le_of_allows h hm)
  run_held {s os p c p'} hact hA hb := by
    have hA : QueueProc.isInUse s p = true := hA
    have hfiring : QueueProc.Firing s p := hb.own
    obtain ⟨-, ⟨a, hphase, rfl⟩ | ⟨hphase, -⟩⟩ := p.turns.of_run hact
    · exact .inr ⟨a.queue, by simp only [QueueProc.dueName, hphase], a.names_run⟩
    · refine .inl ?_
      obtain ⟨row, φ⟩ := p
      have hphase : φ = .unpaid c := hphase
      subst hphase
      cases row with
      | none =>
        cases c with
        | add a => exact Addition.names_run_of_mem (QueueStore.mem_names.2 hA)
        | setActive id isActive =>
          refine names_setActive fun hon row hrow => ?_
          subst hon
          simp only [QueueProc.isInUse, hrow, Option.all_some] at hA
          exact QueueStore.mem_names.2 hA
      | some id =>
        obtain ⟨r, hr, hon, hname⟩ := hfiring id rfl
        cases c with
        | add a =>
          have hname : a.queue = r.queueName := Option.some.inj hname
          refine Addition.names_run_of_mem (QueueStore.mem_names.2 (QueueStore.exists_iff.2 ?_))
          exact .inr (.inr ⟨r, Table.mem_of_find hr, hname.symm, hon⟩)
        | setActive => cases hname
  run_next {s os p c p'} hact := by
    cases (p.turns.of_run hact).1

/-- At or below the limit. -/
def QueueStore.IsStart (limits : PlanLimits) (s : QueueStore) : Prop :=
  limits.Within .maxQueues s.count

def queueSystem (limits : PlanLimits) : Machine :=
  (queueDesk limits).pool.machine (QueueStore.IsStart limits)

/-- **The cap on queues is exact**, as long as a request that takes no lock (an enqueue or pause
that has seen the queue, an update, resume or trigger of a schedule) writes to a queue that is in
use by then. -/
theorem queue_cap_exact {limits : PlanLimits} {x : Pool QueueStore QueueProc}
    {h : List (Pool QueueStore QueueProc × PoolLabel QueueAsk)} (hr : (queueSystem limits).Run x h)
    (huse : (queueSystem limits).Steps (namesInUse limits).step h) :
    limits.Within .maxQueues x.store.count := by
  intro m hm
  exact (queues_capped hm).card_le (queueDesk_firing limits _) (fun s hs => ⟨trivial, hs m hm⟩) hr huse

def noQueues : Pool QueueStore QueueProc := ⟨{}, []⟩

theorem noQueues_isStart : QueueStore.IsStart .free noQueues.store := by
  show PlanLimits.free.Within .maxQueues noQueues.store.count
  rw [PlanLimits.within_iff]
  decide +kernel

/-- A schedule and a first job use up the free plan; the first job of a third queue is refused. -/
theorem queue_cap_exact_refusal : ∃ x h, (queueSystem .free).Run x h ∧
    (queueSystem .free).Steps (namesInUse .free).step h ∧ x.store.count = 2 ∧
    PlanLimits.free.Within .maxQueues x.store.count := by
  obtain ⟨x, h, hr, hsteps, hcount⟩ := (namesInUse .free).run_of_exec (QueueStore.IsStart .free)
    [.ask (.scheduleCreate 1 "a"), .run 0, .run 0, .run 0, .run 0, .run 0, .run 0, .run 0,
      .ask (.enqueue "b" none), .run 0, .run 0, .run 0, .run 0, .run 0, .run 0, .run 0,
      .ask (.cron 1), .run 0, .run 0, .run 0, .ask (.enqueue "c" none), .run 0, .run 0, .run 0]
    noQueues (fun x => decide (x.1.store.count = 2)) ⟨noQueues_isStart, rfl⟩ (by decide +kernel)
  exact ⟨x, h, hr, hsteps, of_decide_eq_true hcount, queue_cap_exact hr hsteps⟩

/-- A schedule is paused, two other queues are used, and the schedule is resumed. -/
theorem resume_over_queue_cap : ∃ x h, (queueSystem .free).Run x h ∧ x.procs = [] ∧
    ¬ PlanLimits.free.Within .maxQueues x.store.count := by
  obtain ⟨x, h, hr, hp⟩ := Machine.Run.of_exec (queueSystem .free)
    [.ask (.scheduleCreate 1 "a"), .run 0, .run 0, .run 0, .run 0, .run 0, .run 0, .run 0,
      .ask (.schedulePause 1), .run 0, .run 0,
      .ask (.enqueue "b" none), .run 0, .run 0, .run 0, .run 0, .run 0, .run 0, .run 0,
      .ask (.updateConfig "c"), .run 0, .run 0, .run 0, .run 0, .run 0, .run 0,
      .ask (.scheduleResume 1), .run 0, .run 0]
    noQueues (fun x => !PlanLimits.free.checkLimit .maxQueues x.1.store.count 0 && x.1.procs.isEmpty)
    ⟨noQueues_isStart, rfl⟩ (by decide +kernel)
  obtain ⟨hover, hprocs⟩ := Bool.and_eq_true _ _ ▸ hp
  refine ⟨x, h, hr, List.isEmpty_iff.1 hprocs, fun hwithin => ?_⟩
  rw [PlanLimits.within_iff] at hwithin
  rw [hwithin] at hover
  nomatch hover

end Spooled.Cap
