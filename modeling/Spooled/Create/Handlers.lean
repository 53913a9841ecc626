import Spooled.Create.Usage
import Spooled.Store.Move

/-!
# The handlers that create jobs

`POST /jobs`, bulk enqueue, gRPC `Enqueue`, webhook ingestion, workflow creation
and the cron fires (with the manual trigger) run side by side on one job store.
Each of them looks up its idempotency keys, reserves the daily quota, inserts
and gives back what it did not use, and these are separate steps. What a
handler did to the counter (`charged`) and the rows it inserted (`made`) are
recorded beside it.
-/

namespace Spooled

/-! ## Idempotency keys -/

/-- `char::is_whitespace`. -/
def isWhitespace (c : Char) : Bool :=
  let n := c.toNat
  (9 ≤ n && n ≤ 13) || n == 0x20 || n == 0x85 || n == 0xA0 || n == 0x1680 ||
    (0x2000 ≤ n && n ≤ 0x200A) || n == 0x2028 || n == 0x2029 || n == 0x202F || n == 0x205F ||
    n == 0x3000

/-- A blank key means no key. -/
def normalizeIdempotencyKey (key : Option String) : Option String :=
  key.filter fun k => !k.toList.all isWhitespace

/-- The job tables with the column `jobs.idempotency_key`. -/
structure JobStore where
  db : Db := {}
  keys : List (JobId × String) := []

namespace JobStore

def keyOf (st : JobStore) (i : JobId) : Option String := st.keys.lookup i

def existingIdempotentJob (st : JobStore) (org : OrgId) (key : String) : Option Job :=
  st.db.jobs.rows.find? fun j => j.organizationId == org && st.keyOf j.id == some key

def insertRow (st : JobStore) (row : Job) (key : Option String) : JobStore where
  db := st.db.insertJob row
  keys := (key.map fun k => (row.id, k)).toList ++ st.keys

/-- `INSERT INTO jobs … ON CONFLICT (organization_id, idempotency_key) DO UPDATE
SET updated_at = now WHERE queue_in_key_scope(…) RETURNING id`. The outer
`none` is a foreign key violation; the inner one is a conflict with a row that
the `WHERE` skips. -/
def upsert (st : JobStore) (now : Time) (row : Job) (key : Option String)
    (inScope : String → Bool) : Option (JobStore × Option JobId) :=
  match key.bind (st.existingIdempotentJob row.organizationId) with
  | some j =>
    if inScope j.queueName then
      some ({ st with db := st.db.setJobs now (·.id == j.id) id }, some j.id)
    else some (st, none)
  | none =>
    if row.parentJobId.all fun p => (st.db.job p).isSome then
      some (st.insertRow row key, some row.id)
    else none

end JobStore

/-! ## Requests and replies -/

/-- A request for one job: REST, gRPC, webhook ingestion, or a schedule that
fires. `scope` is the caller's key scope (`can_access_queue` and
`queue_in_key_scope` agree on it); a token or the scheduler has none. -/
structure SingleRequest where
  job : CreateRequest
  key : Option String := none
  scope : Option (String → Bool) := none

def SingleRequest.allows (r : SingleRequest) (queue : String) : Bool := r.scope.all (· queue)

/-- One element of a bulk request; `invalid` is what its validators found. -/
structure BulkItem where
  invalid : Option String := none
  priority : Option Int := none
  scheduledAt : Option Time := none
  key : Option String := none

structure BulkRequest where
  organizationId : OrgId
  queueName : String
  scope : String → Bool
  defaultPriority : Option Int := none
  defaultMaxRetries : Option Int := none
  items : List BulkItem

inductive Request
  | single (r : SingleRequest)
  | bulk (r : BulkRequest)
  | workflow (org : OrgId) (defs : List StepDef)

structure BulkJobError where
  index : Nat
  error : String
deriving DecidableEq, Repr

structure BulkJobResult where
  index : Nat
  jobId : JobId
  created : Bool
deriving DecidableEq, Repr

structure BulkEnqueueResponse where
  succeeded : List BulkJobResult
  failed : List BulkJobError
  total : Nat
  successCount : Nat
  failureCount : Nat
deriving DecidableEq, Repr

/-- Why a request was refused; `conflict` is "Idempotency key is already in use". -/
inductive Refusal
  | authorization | validation | conflict | limitExceeded | database
deriving DecidableEq, Repr

inductive Reply
  | refused (why : Refusal)
  | job (id : JobId) (created : Bool)
  /-- Webhook ingestion and a schedule do not say whether the job is new. -/
  | accepted (id : JobId)
  | bulk (r : BulkEnqueueResponse)
  | workflow (id : WorkflowId)
deriving DecidableEq, Repr

def Request.organizationId : Request → OrgId
  | .single r => r.job.organizationId
  | .bulk r => r.organizationId
  | .workflow org _ => org

/-! ## The bulk statement -/

namespace BulkRequest

variable (r : BulkRequest)

/-- `failed`: the items that do not validate. -/
def failed : List BulkJobError :=
  r.items.zipIdx.filterMap fun (item, index) => item.invalid.map fun error => ⟨index, error⟩

/-- `valid`: index, item and key of the others. -/
def valid : List (Nat × BulkItem × Option String) :=
  r.items.zipIdx.filterMap fun (item, index) =>
    if item.invalid.isNone then some (index, item, normalizeIdempotencyKey item.key) else none

/-- `creates`: every item without a key, and the first one carrying a key that
is not stored yet; `batch` are the keys met so far. -/
def creates (existing : List String) : List String → List (Option String) → List Bool
  | _, [] => []
  | batch, none :: ks => true :: creates existing batch ks
  | batch, some k :: ks =>
    if k ∈ existing then false :: creates existing batch ks
    else if k ∈ batch then false :: creates existing batch ks
    else true :: creates existing (k :: batch) ks

def existing (st : JobStore) : List (String × Job) :=
  r.valid.filterMap fun (_, _, key) => key.bind fun k =>
    (st.existingIdempotentJob r.organizationId k).map fun j => (k, j)

/-- `job_count`. -/
def jobCount (existingKeys : List String) : Nat :=
  (creates existingKeys [] (r.valid.map (·.2.2))).count true

end BulkRequest

/-- A row of `input_jobs`. -/
structure InputRow where
  idx : Nat
  jid : JobId
  item : BulkItem
  idem : Option String

/-- The values of `COALESCE(idem, jid)`; a generated id is nobody's key. -/
inductive DedupKey
  | idem (key : String)
  | jid (id : JobId)
deriving DecidableEq

def InputRow.dedupKey (ij : InputRow) : DedupKey :=
  match ij.idem with
  | some k => .idem k
  | none => .jid ij.jid

namespace BulkRequest

variable (r : BulkRequest)

/-- `input_jobs`: the valid items in order, with generated ids from `base` on. -/
def inputJobs (base : JobId) : List InputRow :=
  r.valid.zipIdx.map fun ((index, item, key), k) => ⟨index, base + k, item, key⟩

/-- `dedup_input`: `SELECT DISTINCT ON (COALESCE(idem, jid)) … ORDER BY …, idx` keeps
the first row of each key; `seen` are the keys met so far. -/
def dedupInput : List DedupKey → List InputRow → List InputRow
  | _, [] => []
  | seen, ij :: rows =>
    if ij.dedupKey ∈ seen then dedupInput seen rows
    else ij :: dedupInput (ij.dedupKey :: seen) rows

def newRow (db : Db) (started : Time) (server : Int) (ij : InputRow) : Job :=
  db.newJob started server
    { path := .bulk
      organizationId := r.organizationId
      queueName := r.queueName
      priority := ij.item.priority.getD (r.defaultPriority.getD 0)
      maxRetries := r.defaultMaxRetries
      scheduledAt := ij.item.scheduledAt } ij.jid true

/-- `inserted`: the multi-row `INSERT`, with what it returns. -/
def inserted (r : BulkRequest) (now started : Time) (server : Int) (st : JobStore) :
    List InputRow → Option (JobStore × List (JobId × Option String))
  | [] => some (st, [])
  | ij :: rows => do
    let (st, id) ← st.upsert now (r.newRow st.db started server ij) ij.idem r.scope
    let (st, rest) ← r.inserted now started server st rows
    return (st, (id.map fun i => (i, ij.idem)).toList ++ rest)

/-- The condition of the `LEFT JOIN`. -/
def joins (ij : InputRow) (ins : JobId × Option String) : Bool :=
  (ins.2.isSome && ins.2 == ij.idem) || (ij.idem.isNone && ins.1 == ij.jid)

/-- The rows of the final `SELECT`: every input row with the job it came to. -/
def joined (rows : List InputRow) (ins : List (JobId × Option String)) :
    List (InputRow × Option JobId) :=
  rows.flatMap fun ij => match ins.filter (joins ij) with
    | [] => [(ij, none)]
    | found => found.map fun x => (ij, some x.1)

def response (rows : List (InputRow × Option JobId)) : BulkEnqueueResponse :=
  let succeeded := rows.filterMap fun (ij, id) => id.map fun i => ⟨ij.idx, i, i == ij.jid⟩
  { succeeded := succeeded
    failed := r.failed
    total := r.items.length
    successCount := succeeded.length
    failureCount := r.failed.length }

/-- The insert transaction of `bulk_enqueue`. -/
def insertBulk (now started : Time) (server : Int) (st : JobStore)
    (base : JobId) : Except Refusal (JobStore × Reply) :=
  let input := r.inputJobs base
  match r.inserted now started server st (dedupInput [] input) with
  | none => .error .database
  | some (st', ins) =>
    let rows := joined input ins
    if rows.any (·.2.isNone) then
      if rows.any fun x => x.2.isNone && x.1.idem.isSome then .error .conflict
      else .error .database
    else .ok (st', .bulk (r.response rows))

end BulkRequest

namespace SingleRequest

variable (r : SingleRequest)

/-- The success response with job `i`, where `base` is the generated id; gRPC reads
`created` off as `xmax = 0`. -/
def response (base i : JobId) : Reply :=
  match r.job.path with
  | .rest | .grpc => .job i (i == base)
  | _ => .accepted i

def insertOne (now started : Time) (server : Int) (st : JobStore) (base : JobId) (met : Bool) :
    Except Refusal (JobStore × Reply) :=
  -- gRPC sets `updated_at = EXCLUDED.updated_at`, the others `NOW()`
  let updated := if r.job.path = .grpc then started else now
  match st.upsert updated (st.db.newJob started server r.job base met)
    (normalizeIdempotencyKey r.key) r.allows with
  | none => .error .database
  | some (_, none) => .error .conflict
  | some (st', some i) => .ok (st', r.response base i)

end SingleRequest

namespace Request

def idCount : Request → Nat
  | .single _ => 1
  | .bulk r => r.valid.length
  | .workflow _ defs => defs.length + 1

def insertRows (now started : Time) (server : Int) (st : JobStore) (base : JobId) (met : Bool) :
    Request → Except Refusal (JobStore × Reply)
  | .single r => r.insertOne now started server st base met
  | .bulk r => r.insertBulk now started server st base
  | .workflow org defs =>
    .ok ({ st with db := st.db.createWorkflow started server org base (base + 1) defs }, .workflow base)

end Request

/-- What is left of a reservation after a commit; `base` is the generated id. A single
path that could not count its job leaves it uncounted; bulk settles the difference
either way. -/
def Reply.unused (base : JobId) (reserved : Int) : Reply → Int
  | .refused _ => reserved
  | .job _ created => if created then 0 else reserved
  | .accepted i => if i = base then 0 else reserved
  | .bulk r => reserved - (r.succeeded.countP (·.created) : Nat)
  | .workflow _ => 0

/-! ## The machine -/

inductive Stage
  /-- The keys are looked up. -/
  | opened
  /-- All checks before the reservation have passed. -/
  | checked (met : Bool)
  /-- `quota`: `quota_reserved`. -/
  | reserved (met quota : Bool)
  /-- The insert is over; `unused` is to be given back (or, if negative, charged). -/
  | settling (unused : Int) (reply : Reply)
  /-- Webhook ingestion, before it writes the row of `webhook_deliveries`. -/
  | recording (reply : Reply)

structure Handler where
  request : Request
  /-- Its `Utc::now()`. -/
  started : Time
  /-- The rows it expects to create. -/
  count : Nat
  existingKeys : List String := []
  stage : Stage := .opened
  charged : Int := 0
  made : List JobId := []

/-- A reply, with what its request did. -/
structure CreateAnswer where
  request : Request
  reply : Reply
  charged : Int := 0
  made : List JobId := []

structure CreateSys where
  now : Time := 0
  uuid : Nat := 0
  store : JobStore := {}
  usage : OrgId → Option Usage := fun _ => none
  live : List Handler := []
  /-- Handlers that ended on their way, with what they had reserved. -/
  dropped : List Handler := []
  answers : List CreateAnswer := []

structure CreateConfig where
  server : Config := {}
  /-- `daily_jobs_limit`, negative for unlimited. -/
  dailyLimit : OrgId → Int

/-- How an insert transaction ends. -/
inductive TxEnd
  | committed
  /-- Without effect: a check inside it refuses, or the database does. -/
  | failed (why : Refusal)
  /-- The commit takes effect, but its answer is an error. -/
  | lost
deriving DecidableEq

inductive CreateLabel
  | tick (d : Nat)
  /-- A statement of anybody else. -/
  | other (c : Stmt)
  | begin (r : Request)
  /-- A check before the reservation refuses. -/
  | refuse (n : Nat) (why : Refusal)
  | check (n : Nat)
  /-- `planFails`: the read of the plan fails; `fails`: the counter statement does. -/
  | reserve (n : Nat) (planFails fails : Bool)
  | insert (n : Nat) (tx : TxEnd)
  | settle (n : Nat) (fails : Bool)
  | record (n : Nat) (fails : Bool)
  /-- The handler is cancelled, or an error of the scheduler's `rollback().await?` ends it
  before its refund. -/
  | drop (n : Nat)

def Stmt.creates : Stmt → Bool
  | .createJob .. | .createWorkflow .. => true
  | _ => false

/-- `daily_jobs_limit(..).await.unwrap_or(-1)`. -/
def CreateConfig.readLimit (cfg : CreateConfig) (org : OrgId) (planFails : Bool) : Int :=
  if planFails then -1 else cfg.dailyLimit org

/-- Webhook ingestion. -/
def Request.recordsDelivery : Request → Bool
  | .single r => r.job.path == .webhook
  | .bulk _ | .workflow .. => false

def Reply.isRefused : Reply → Bool
  | .refused _ => true
  | _ => false

namespace CreateSys

variable (cfg : CreateConfig) (s : CreateSys) (n : Nat) (x : Handler)

def count (org : OrgId) : Int := getDailyJobs (s.usage org) (dayOf s.now)

def setUsage (org : OrgId) (row : Option Usage) : CreateSys :=
  { s with usage := fun o => if o = org then row else s.usage o }

/-- Handler `n` goes on as `x`. -/
def put : CreateSys :=
  { s with live := x :: s.live.eraseIdx n }

/-- Handler `n`, which is `x`, answers. -/
def answer (reply : Reply) : CreateSys :=
  { s with
    live := s.live.eraseIdx n
    answers := ⟨x.request, reply, x.charged, x.made⟩ :: s.answers }

/-- After the counter: webhook ingestion still records the delivery it accepted. -/
def finish (reply : Reply) : CreateSys :=
  if x.request.recordsDelivery && !reply.isRefused then s.put n { x with stage := .recording reply }
  else s.answer n x reply

def conclude (unused : Int) (reply : Reply) : CreateSys :=
  if unused = 0 then s.finish n x reply
  else s.put n { x with stage := .settling unused reply }

def reply (s : CreateSys) (r : Request) (reply : Reply) : CreateSys :=
  { s with answers := { request := r, reply := reply } :: s.answers }

def enter : CreateSys := { s with live := x :: s.live }

def begin : Request → CreateSys
  | .single r =>
    if !r.allows r.job.queueName then s.reply (.single r) (.refused .authorization)
    else
      -- webhook ingestion has no look-up, a schedule no key
      let looked := match r.job.path with
        | .rest | .grpc => (normalizeIdempotencyKey r.key).bind
            (s.store.existingIdempotentJob r.job.organizationId)
        | _ => none
      match looked with
      | some j =>
        if r.allows j.queueName then s.reply (.single r) (.job j.id false)
        else s.reply (.single r) (.refused .conflict)
      | none => s.enter { request := .single r, started := s.now, count := 1 }
  | .bulk r =>
    if !r.scope r.queueName then s.reply (.bulk r) (.refused .authorization)
    else if r.valid.isEmpty then s.reply (.bulk r) (.refused .validation)
    else
      let existing := r.existing s.store
      if existing.any fun x => !r.scope x.2.queueName then s.reply (.bulk r) (.refused .conflict)
      else
        let keys := existing.map (·.1)
        s.enter { request := .bulk r, started := s.now, count := r.jobCount keys, existingKeys := keys }
  | .workflow org defs =>
    if validSteps defs && !defs.isEmpty then
      s.enter { request := .workflow org defs, started := s.now, count := defs.length }
    else s.reply (.workflow org defs) (.refused .validation)

/-- The look at the parent, which only `POST /jobs` can name. -/
def parentCheck : Request → Option Bool
  | .single r => s.store.db.parentCompleted r.job
  | .bulk _ | .workflow .. => some true

/-- The reservation of handler `n`, which is `x`. -/
def reserve (met planFails fails : Bool) : CreateSys :=
  let org := x.request.organizationId
  -- a counter error is logged and the job accepted uncounted
  if x.count = 0 || fails then s.put n { x with stage := .reserved met false }
  else
    let r := tryIncrementDailyJobs (s.usage org) (dayOf s.now) x.count
      (cfg.readLimit org planFails)
    let s' := s.setUsage org r.1
    if 0 ≤ r.2 then
      s'.put n { x with stage := .reserved met true, charged := x.charged + (s'.count org - s.count org) }
    else s'.answer n x (.refused .limitExceeded)

/-- The insert of handler `n`, which is `x`. -/
def insert (met quota : Bool) (tx : TxEnd) : CreateSys :=
  let reserved : Int := if quota then x.count else 0
  let ids := x.request.idCount
  let s₁ := { s with uuid := s.uuid + ids }
  match tx, x.request.insertRows s.now x.started cfg.server.defaultMaxRetries s.store s.uuid met with
  | .failed why, _ | _, .error why => s₁.conclude n x reserved (.refused why)
  | tx, .ok (st, reply) =>
    let made := (List.range' s.uuid ids).filter fun i =>
      (s.store.db.job i).isNone && (st.db.job i).isSome
    let s₂ := { s₁ with store := st }
    if tx = .lost then s₂.conclude n { x with made := made } reserved (.refused .database)
    else s₂.conclude n { x with made := made } (reply.unused s.uuid reserved) reply

/-- The refund, or the charge, of handler `n`, which is `x`. -/
def settle (unused : Int) (reply : Reply) (fails : Bool) : CreateSys :=
  let org := x.request.organizationId
  if fails then s.finish n x reply
  else
    let row := if 0 < unused then (refundDailyJobs (s.usage org) (dayOf s.now) unused).1
      else (incrementDailyJobs (s.usage org) (dayOf s.now) (-unused)).1
    let s' := s.setUsage org row
    s'.finish n { x with charged := x.charged + (s'.count org - s.count org) } reply

def next : CreateLabel → Option CreateSys
  | .tick d => some { s with now := s.now + d }
  | .other c =>
    if c.creates then none
    else some { s with store := { s.store with db := c.exec cfg.server s.now s.store.db } }
  | .begin r => some (s.begin r)
  | .refuse n why => s.live[n]?.bind fun x => match x.stage with
    | .opened => some (s.answer n x (.refused why))
    | _ => none
  | .check n => s.live[n]?.bind fun x => match x.stage with
    | .opened => match s.parentCheck x.request with
      | some met => some (s.put n { x with stage := .checked met })
      | none => some (s.answer n x (.refused .validation))
    | _ => none
  | .reserve n planFails fails => s.live[n]?.bind fun x => match x.stage with
    | .checked met => some (s.reserve cfg n x met planFails fails)
    | _ => none
  | .insert n tx => s.live[n]?.bind fun x => match x.stage with
    | .reserved met quota => some (s.insert cfg n x met quota tx)
    | _ => none
  | .settle n fails => s.live[n]?.bind fun x => match x.stage with
    | .settling unused reply => some (s.settle n x unused reply fails)
    | _ => none
  | .record n fails => s.live[n]?.bind fun x => match x.stage with
    | .recording reply => some (s.answer n x (if fails then .refused .database else reply))
    | _ => none
  | .drop n => s.live[n]?.map fun x =>
    { s with live := s.live.eraseIdx n, dropped := x :: s.dropped }

def rowsToday (org : OrgId) : Nat :=
  s.store.db.jobs.rows.countP fun j => j.organizationId == org && dayOf j.createdAt == dayOf s.now

end CreateSys

/-- Ids come from the generator, and the partial unique index holds. -/
structure JobStore.Ok (st : JobStore) (uuid : Nat) : Prop where
  ids : ∀ i j, st.db.job i = some j → i < uuid
  keyIds : ∀ i k, st.keyOf i = some k → i < uuid
  unique : ∀ i i' j j' k, st.db.job i = some j → st.db.job i' = some j' →
    st.keyOf i = some k → st.keyOf i' = some k → j.organizationId = j'.organizationId → i = i'

/-- Any job store with any counters, and nothing on its way. -/
def createSystem (cfg : CreateConfig) : Machine where
  State := CreateSys
  Label := CreateLabel
  Init s := s.live = [] ∧ s.dropped = [] ∧ s.answers = [] ∧ s.store.Ok s.uuid ∧
    ∀ org, Usage.upTo (dayOf s.now) (s.usage org) ∧ 0 ≤ s.count org
  next := CreateSys.next cfg

end Spooled
