import Spooled.Store.Scheduler

/-!
# Statements of the API handlers

Creation of jobs and workflows, added dependencies, cancels, the three retries
(job, dead-letter queue, workflow) and the deletes of the dead-letter purge and
the queue delete. A handler's transaction is one definition; `POST /jobs` is
not one transaction, so its job insert, its edge insert and its recompute are
three.
-/

namespace Spooled

/-! ## Retry budgets -/

inductive CreatePath
  | rest | bulk | grpc | webhook | schedule | workflow
deriving DecidableEq, Repr

/-- `i32::clamp(lo, hi)`. -/
def clampInt (lo hi n : Int) : Int := max lo (min n hi)

/-- `max_retries` of a new job: the request's value, else the queue's
(`queue_config`), else the server's `QUEUE_DEFAULT_MAX_RETRIES`. REST and bulk
store the default as it stands, the other paths clamp it. -/
def resolveMaxRetries (path : CreatePath) (requested queue : Option Int) (server : Int) : Int :=
  match path with
  | .rest | .bulk => requested.getD (queue.getD server)
  | .webhook => clampInt 0 100 (queue.getD server)
  | .schedule | .workflow => clampInt 0 100 (requested.getD (queue.getD server))
  | .grpc =>
    -- an omitted proto3 field reads as 0
    if requested.getD 0 = 0 then clampInt 0 100 (queue.getD server)
    else clampInt 1 100 (requested.getD 0)

def validMaxRetries (requested : Option Int) : Bool := requested.all fun n => 0 ≤ n && n ≤ 100

/-! ## Creation -/

structure CreateRequest where
  path : CreatePath := .rest
  organizationId : OrgId
  queueName : String
  priority : Int := 0
  maxRetries : Option Int := none
  scheduledAt : Option Time := none
  expiresAt : Option Time := none
  parentJobId : Option JobId := none

/-- One step of a `POST /workflows` body; `dependsOn` are positions in the list. -/
structure StepDef where
  queueName : String
  priority : Int := 0
  maxRetries : Option Int := none
  expiresAt : Option Time := none
  dependencyMode : DependencyMode := .all
  dependsOn : List Nat := []
deriving DecidableEq

namespace Db

variable (db : Db) (now : Time) (w : WorkflowId) (i : JobId) (org : OrgId)

/-- `queue_config.max_retries` of a queue, if it has a row. -/
def queueMaxRetries (queue : String) : Option Int :=
  (db.queueConfig.find? fun c => c.organizationId == org && c.queueName == queue).map (·.maxRetries)

/-- The check of `parent_job_id`: `none` refuses, else whether the parent has completed. -/
def parentCompleted (q : CreateRequest) : Option Bool :=
  match q.parentJobId with
  | none => some true
  | some p => match db.job p with
    | some j =>
      if j.organizationId == q.organizationId && j.queueName == q.queueName
      then some (j.status == .completed) else none
    | none => none

def newJob (server : Int) (q : CreateRequest) (i : JobId) (met : Bool) :
    Job where
  id := i
  organizationId := q.organizationId
  queueName := q.queueName
  status := if q.scheduledAt.any (now < ·) then .scheduled else .pending
  maxRetries := resolveMaxRetries q.path q.maxRetries
    (db.queueMaxRetries q.organizationId q.queueName) server
  createdAt := now
  scheduledAt := q.scheduledAt
  expiresAt := q.expiresAt
  priority := q.priority
  parentJobId := q.parentJobId
  updatedAt := now
  dependenciesMet := some met

def createJob (server : Int) (q : CreateRequest) (i : JobId) (met : Bool) :
    Db :=
  if q.parentJobId.all fun p => (db.job p).isSome then
    db.insertJob (db.newJob now server q i met)
  else db

/-- `UPDATE jobs SET dependencies_met = check_job_dependencies_met(id)` for the new child. -/
def recomputeGate : Db :=
  db.setJobs now (fun j => j.id == i && j.organizationId == org) fun j =>
    { j with dependenciesMet := some (db.checkJobDependenciesMet i) }

def stepJob (server : Int) (org : OrgId) (w : WorkflowId) (i : JobId)
    (d : StepDef) : Job where
  id := i
  organizationId := org
  queueName := d.queueName
  maxRetries := resolveMaxRetries .workflow d.maxRetries (db.queueMaxRetries org d.queueName) server
  createdAt := now
  expiresAt := d.expiresAt
  priority := d.priority
  updatedAt := now
  workflowId := some w
  dependencyMode := d.dependencyMode
  dependenciesMet := some d.dependsOn.isEmpty

def stepEdges (base : JobId) (defs : List StepDef) : List Edge :=
  defs.zipIdx.flatMap fun (d, k) => d.dependsOn.map fun n => ⟨base + k, base + n⟩

/-- `POST /workflows`: the workflow row, its steps and their edges, in one
transaction. The generated ids are consecutive from `base`. -/
def createWorkflow (server : Int) (org : OrgId) (w : WorkflowId)
    (base : JobId) (defs : List StepDef) : Db :=
  let row : Workflow := { id := w, organizationId := org, totalJobs := defs.length, createdAt := now }
  let jobs := defs.zipIdx.map fun (d, k) => db.stepJob now server org w (base + k) d
  { db with
    workflows := db.workflows.insert row
    jobs := jobs.foldl (fun t j => t.insert j) db.jobs
    edges := db.edges ++ stepEdges base defs }

/-! ## Added dependencies -/

/-- The jobs reached from `seen` by following edges, `n` rounds of the
recursive query of `would_create_cycle`. -/
def depChain (db : Db) : Nat → List JobId → List JobId
  | 0, seen => seen
  | n + 1, seen => db.depChain n (seen ∪ (db.edges.filter (·.job ∈ seen)).map (·.dependsOn))

/-- `would_create_cycle`: does `d` transitively depend on `i`? A chain visits
each edge at most once, so as many rounds as there are edges reach the fixpoint. -/
def wouldCreateCycle (d : JobId) : Bool :=
  let direct := (db.edges.filter (·.job == d)).map (·.dependsOn)
  i ∈ db.depChain db.edges.length direct

def mayAddDependencies (i : JobId) (ds : List JobId) : Bool :=
  (db.job i).any (·.organizationId == org) &&
    ds.all fun d => (db.job d).any (·.organizationId == org) && d != i && !db.wouldCreateCycle i d

/-- `add_dependencies`, one transaction; an omitted mode keeps the job's own. -/
def addDependencies (i : JobId) (ds : List JobId)
    (mode : Option DependencyMode) : Db :=
  if db.mayAddDependencies org i ds then
    let linked := ds.foldl (fun db d => db.insertEdge i d) db
    if linked.edges.length = db.edges.length then db
    else
      let mine := fun j : Job => j.id == i && j.organizationId == org
      let db := linked.setJobs now mine fun j =>
        { j with dependencyMode := mode.getD j.dependencyMode }
      let met := db.checkJobDependenciesMet i
      db.setJobs now mine fun j => { j with dependenciesMet := some met }
  else db

/-! ## Cancels and priorities -/

/-- `DELETE /jobs/{id}`; `last_error` is left as it is. -/
def cancelJob : Db :=
  db.setStatus now (fun j => j.id == i && j.organizationId == org && j.status.waiting) fun j =>
    cancelRow now j.lastError j

/-- `PUT /jobs/{id}/priority`. -/
def boostPriority (n : Int) : Db :=
  db.setJobs now (fun j => j.id == i && j.organizationId == org) fun j => { j with priority := n }

/-- `cancel_workflow_once`: only a live workflow is cancelled. -/
def cancelWorkflow : Db :=
  if (db.workflow w).any fun x => x.organizationId == org && x.status.live then
    let db := db.setLiveWorkflow w fun x =>
      { x with status := .cancelled, completedAt := some now }
    db.setStatus now
      (fun j => j.workflowId == some w && j.organizationId == org && j.status.waiting)
      fun j => cancelRow now j.lastError j
  else db

/-! ## Retries -/

def workflowIs (s : WorkflowStatus) (j : Job) : Bool :=
  (j.workflowId.bind db.workflow).any (·.status == s)

def ownWorkflowIs (s : WorkflowStatus) (j : Job) : Bool :=
  (j.workflowId.bind db.workflow).any fun w =>
    w.organizationId == j.organizationId && w.status == s

/-- `last_error = ANY(DEPENDENCY_CANCEL_REASONS)` on a cancelled row. -/
def sweptAway (j : Job) : Bool :=
  j.status == .cancelled && j.lastError.any (· ∈ dependencyCancelReasons)

/-- Which cancelled dependents of `frontier` one level of
`reopen_cancelled_dependents` re-opens. -/
def reopens (frontier : List JobId) (j : Job) : Bool :=
  j.organizationId == org && sweptAway j &&
    (j.parentJobId.any (· ∈ frontier) ||
      db.edges.any fun e => e.job == j.id && decide (e.dependsOn ∈ frontier)) &&
    !db.workflowIs .cancelled j &&
    !(j.parentJobId.bind db.job).any (·.status.broken) &&
    if j.dependencyMode == .any then (db.deps j.id).any fun d => !d.status.broken
    else !(db.deps j.id).any (·.status.broken)

def reopenRow (j : Job) : Job :=
  { j with
    status := if j.scheduledAt.any (now < ·) then .scheduled else .pending
    lastError := none
    completedAt := none
    dependenciesMet := some (db.checkJobDependenciesMet j.id &&
      !(j.parentJobId.bind db.job).any (·.status != .completed)) }

def maxReopenDepth : Nat := 100

/-- `reopen_cancelled_dependents`: at most `n` levels; returns the re-opened ids. -/
def reopenLevels (now : Time) (org : OrgId) : Nat → Db → List JobId → Db × List JobId
  | 0, db, _ => (db, [])
  | n + 1, db, frontier =>
    if frontier.isEmpty then (db, [])
    else
      let level := (db.jobs.rows.filter (db.reopens org frontier)).map (·.id)
      let next := db.setStatus now (db.reopens org frontier) (db.reopenRow now)
      let (db, rest) := reopenLevels now org n next level
      (db, level ++ rest)

def reopenCancelledDependents (retried : List JobId) :
    Db × List JobId :=
  reopenLevels now org maxReopenDepth db retried

/-- `reopen_workflows`: a failed workflow of a revived job runs again. -/
def reopenWorkflows (revived : List JobId) : Db :=
  let touched := fun w : Workflow =>
    w.organizationId == org && (w.status.live || w.status == .failed) &&
      db.jobs.rows.any fun j =>
        j.organizationId == org && decide (j.id ∈ revived) && j.workflowId == some w.id
  { db with workflows := db.workflows.update touched (fun w =>
      { w with
        status := if w.status == .failed then .running else w.status
        completedAt := if w.status == .failed then none else w.completedAt
        completedJobs := db.countSteps w.id (· == .completed)
        failedJobs := db.countSteps w.id Status.lost }) fun _ => rfl }

/-- `retry_count = 0`, pending, no error: what all three retries write first. -/
def reviveRow (j : Job) : Job :=
  { j with status := .pending, retryCount := 0, lastError := none }

def dropDeadLetters (ids : List JobId) : Db :=
  { db with deadLetters :=
      db.deadLetters.filter fun d => !(decide (d.job ∈ ids) && d.organizationId == org) }

def reopenAround (retried : List JobId) : Db :=
  let (db, reopened) := db.reopenCancelledDependents now org retried
  db.reopenWorkflows org (retried ++ reopened)

def retryable (j : Job) : Bool :=
  j.id == i && j.organizationId == org && j.status.lost && !db.ownWorkflowIs .cancelled j

/-- `POST /jobs/{id}/retry`, one transaction. -/
def retryJob : Db :=
  if db.jobs.rows.any (db.retryable i org) then
    let db := db.setStatus now (db.retryable i org) reviveRow
    (db.dropDeadLetters org [i]).reopenAround now org [i]
  else db

/-- The dead-lettered rows a bulk retry resets; `pick` is its scope, limit and
workflow room. -/
def dlqRetryable (pick : JobId → Bool) (j : Job) : Bool :=
  j.organizationId == org && j.status == .deadletter && !db.ownWorkflowIs .cancelled j &&
    pick j.id

def resetChildren (retried : List JobId) : Db :=
  db.setJobs now
    (fun j => j.parentJobId.any (· ∈ retried) && j.organizationId == org && j.status.waiting)
    fun j => { j with
      dependenciesMet := some (j.dependencyMode == .any && db.checkJobDependenciesMet j.id) }

/-- `POST /jobs/dlq/retry`, one transaction. -/
def retryDlq (pick : JobId → Bool) : Db :=
  let ids := (db.jobs.rows.filter (db.dlqRetryable org pick)).map (·.id)
  if ids.isEmpty then db
  else
    let db := db.setStatus now (db.dlqRetryable org pick) reviveRow
    let db := (db.dropDeadLetters org ids).resetChildren now org ids
    db.reopenAround now org ids

def workflowRetryable (j : Job) : Bool :=
  j.workflowId == some w && j.organizationId == org && (j.status.lost || sweptAway j)

def resetRow (j : Job) : Job :=
  { reviveRow j with
    startedAt := none
    completedAt := none
    dependenciesMet := some (db.checkJobDependenciesMet j.id) }

/-- `POST /workflows/{id}/retry`, one transaction: only a failed workflow. -/
def retryWorkflow : Db :=
  if (db.workflow w).any fun x => x.organizationId == org && x.status == .failed then
    let reset := db.setStatus now (workflowRetryable w org) db.resetRow
    { reset with workflows := reset.workflows.update (·.id == w) (fun x =>
        { x with
          status := .running
          completedAt := none
          completedJobs := reset.countSteps w (· == .completed)
          failedJobs := reset.countSteps w Status.lost }) fun _ => rfl }
  else db

/-! ## Deletes -/

def dropOrphanedDeadLetters : Db :=
  { db with deadLetters :=
      db.deadLetters.filter fun d => !(d.organizationId == org && (db.job d.job).isNone) }

def purgeable (pick : Job → Bool) (j : Job) : Bool :=
  j.organizationId == org && j.status == .deadletter && pick j

/-- `POST /jobs/dlq/purge`. -/
def purgeDlq (pick : Job → Bool) : Db :=
  (db.deleteJobs now (purgeable org pick)).dropOrphanedDeadLetters org

def inQueue (queue : String) (j : Job) : Bool :=
  j.queueName == queue && j.organizationId == org

/-- `DELETE /queues/{name}?delete_jobs=true`. -/
def deleteQueue (queue : String) : Db :=
  let db := db.deleteJobs now (inQueue org queue)
  { db with
    deadLetters := db.deadLetters.filter fun d => !(d.queueName == queue && d.organizationId == org)
    queueConfig := db.queueConfig.filter fun c => !(c.queueName == queue && c.organizationId == org) }

end Db

end Spooled
