import Spooled.Lib.Run
import Spooled.Store.Effect
import Spooled.Workflow.Cycle

/-!
# The system

`Stmt` lists the statements and transactions of a running server that write the
tables, and `Stmt.exec` runs one at a time of the clock. What a server does as it
shuts down is left out: `release_local_jobs` gives the jobs of its workers back
without counting a retry. `Sys` adds what lives outside the
tables: the clock, the uuid generator and the handlers that are between two of
their statements (`Pending`). One label of `system` is one step of one party:
a statement, a read of a handler, a delivery, or the clock moving on.
-/

namespace Spooled

structure Config where
  /-- `QUEUE_DEFAULT_MAX_RETRIES`, any `i32` the environment names. -/
  defaultMaxRetries : Int := 3

/-- The checks of a `POST /workflows` body: known keys, no dependency listed
twice, no cycle, retry budgets in range. -/
def validSteps (defs : List StepDef) : Bool :=
  (defs.all fun d => d.dependsOn.all (· < defs.length) && decide d.dependsOn.Nodup &&
    validMaxRetries d.maxRetries) &&
  !hasCircularDependency (fun k => (defs[k]?.map (·.dependsOn)).getD []) (List.range defs.length)

inductive Stmt
  | claimBatch (stem : Uuid) (n : Nat) (q : ClaimRequest)
  | dequeue (lease : Uuid) (q : ClaimRequest)
  | claimJob (lease : Uuid) (q : ClaimRequest)
  | complete (q : Presented)
  | recomputeChildren (parent : JobId) (org : OrgId)
  | failWrite (q : Presented) (read : Int × Int) (error : String) (jitter : Nat)
  | failGrpc (q : Presented) (retry : Bool) (error : String)
  | renewLeaseFor (q : Presented) (requested : Option Nat) (default : Nat)
  | renewLease (q : Presented) (len : Nat)
  | releaseUnsentClaim (i : JobId) (org : OrgId) (lease : LeaseId)
  | deadLetterOversized (i : JobId) (org : OrgId) (lease : LeaseId) (reason : String)
  | releaseDeregistered (worker : WorkerId) (org : OrgId)
  | activateScheduledJobs
  | recoverExpiredLeases
  | deadletterExpiredLeases
  | markStaleWorkers
  | releaseOfflineWorkers
  | deadletterOfflineWorkers
  | recomputeCompletedParents
  | cancelParentFailed
  | cancelDependencyFailed
  | unblockOrphans
  | startWorkflows
  | terminateWorkflows
  | cleanupWorkflows (retention : OrgId → Nat) (pick : WorkflowId → Bool)
  | cleanupFinished (retention : OrgId → Nat) (pick : JobId → Bool)
  | cleanupFailed (retention : OrgId → Nat) (pick : JobId → Bool)
  | cleanupDeadLetters (retention : OrgId → Nat) (pick : DeadLetter → Bool)
  | cleanupExpired (pick : JobId → Bool)
  | createJob (q : CreateRequest) (i : JobId) (met : Bool)
  | insertEdge (i d : JobId)
  | recomputeGate (i : JobId) (org : OrgId)
  | createWorkflow (org : OrgId) (w : WorkflowId) (base : JobId) (defs : List StepDef)
  | addDependencies (org : OrgId) (i : JobId) (ds : List JobId) (mode : Option DependencyMode)
  | cancelJob (i : JobId) (org : OrgId)
  | boostPriority (i : JobId) (org : OrgId) (n : Int)
  | cancelWorkflow (w : WorkflowId) (org : OrgId)
  | retryJob (i : JobId) (org : OrgId)
  | retryDlq (org : OrgId) (pick : JobId → Bool)
  | retryWorkflow (w : WorkflowId) (org : OrgId)
  | purgeDlq (org : OrgId) (pick : Job → Bool)
  | deleteQueue (org : OrgId) (queue : String)
  | upsertWorker (w : Worker)
  | putQueueConfig (c : QueueConfig)

namespace Stmt

def exec (cfg : Config) (now : Time) (db : Db) : Stmt → Db
  | claimBatch stem n q => db.claimBatch now stem n q
  | dequeue lease q => db.dequeue now lease q
  | claimJob lease q => db.claimJob now lease q
  | complete q => db.complete now q
  | recomputeChildren parent org => db.recomputeChildren now parent org
  | failWrite q read error jitter => db.failWrite now q read error jitter
  | failGrpc q retry error => db.failGrpc now q retry error
  | renewLeaseFor q requested default => db.renewLeaseFor now q requested default
  | renewLease q len => db.renewLease now q len
  | releaseUnsentClaim i org lease => db.releaseUnsentClaim now i org lease
  | deadLetterOversized i org lease reason => db.deadLetterOversized now i org lease reason
  | releaseDeregistered worker org => db.releaseJobsForDeregisteredWorker now worker org
  | activateScheduledJobs => db.activateScheduledJobs now
  | recoverExpiredLeases => db.recoverExpiredLeases now
  | deadletterExpiredLeases => db.deadletterExpiredLeases now
  | markStaleWorkers => db.markStaleWorkers now
  | releaseOfflineWorkers => db.releaseOfflineWorkers now
  | deadletterOfflineWorkers => db.deadletterOfflineWorkers now
  | recomputeCompletedParents => db.recomputeCompletedParents now
  | cancelParentFailed => db.cancelParentFailed now
  | cancelDependencyFailed => db.cancelDependencyFailed now
  | unblockOrphans => db.unblockOrphans now
  | startWorkflows => db.startWorkflows now
  | terminateWorkflows => db.terminateWorkflows now
  | cleanupWorkflows retention pick => db.cleanupWorkflows now retention pick
  | cleanupFinished retention pick => db.cleanupFinished now retention pick
  | cleanupFailed retention pick => db.cleanupFailed now retention pick
  | cleanupDeadLetters retention pick => db.cleanupDeadLetters now retention pick
  | cleanupExpired pick => db.cleanupExpired now pick
  | createJob q i met => db.createJob now cfg.defaultMaxRetries q i met
  | insertEdge i d => db.insertEdge i d
  | recomputeGate i org => db.recomputeGate now i org
  | createWorkflow org w base defs => db.createWorkflow now cfg.defaultMaxRetries org w base defs
  | addDependencies org i ds mode => db.addDependencies now org i ds mode
  | cancelJob i org => db.cancelJob now i org
  | boostPriority i org n => db.boostPriority now i org n
  | cancelWorkflow w org => db.cancelWorkflow now w org
  | retryJob i org => db.retryJob now i org
  | retryDlq org pick => db.retryDlq now org pick
  | retryWorkflow w org => db.retryWorkflow now w org
  | purgeDlq org pick => db.purgeDlq now org pick
  | deleteQueue org queue => db.deleteQueue now org queue
  | upsertWorker w => { db with workers := w :: db.workers.filter (·.id != w.id) }
  | putQueueConfig c => { db with queueConfig := c :: db.queueConfig.filter fun c' =>
      !(c'.organizationId == c.organizationId && c'.queueName == c.queueName) }

/-- The statements a step may issue on its own, with ids fresh from the
generator. The others follow an earlier statement of the same handler and run
from `Pending`. -/
def direct (uuid : Uuid) : Stmt → Bool
  | claimBatch stem _ _ => stem == uuid
  | dequeue lease _ => lease == uuid
  | claimJob .. | failWrite .. | releaseUnsentClaim .. | deadLetterOversized .. => false
  | createJob .. | insertEdge .. | recomputeGate .. => false
  | createWorkflow _ w base defs => w == uuid && base == uuid + 1 && validSteps defs
  -- `queue_config_max_retries_check`
  | putQueueConfig c => 0 ≤ c.maxRetries && c.maxRetries ≤ 100
  | _ => true

def idCount : Stmt → Nat
  | claimBatch .. | dequeue .. | claimJob .. | createJob .. => 1
  | createWorkflow _ _ _ defs => defs.length + 1
  | _ => 0

end Stmt

/-- A handler between two of its statements. -/
inductive Pending
  /-- `fail_by_worker` after its read. -/
  | fail (q : Presented) (read : Int × Int)
  /-- A job creation after its parent check. -/
  | create (q : CreateRequest) (met : Bool)
  /-- `POST /jobs` with a gated child, before its edge insert. -/
  | link (child parent : JobId) (org : OrgId)
  /-- `POST /jobs` after its edge insert. -/
  | recompute (child : JobId) (org : OrgId)
  /-- A gRPC claim whose job is not handed over yet. -/
  | buffered (job : JobId) (org : OrgId) (lease : LeaseId)

structure Sys where
  db : Db := {}
  now : Time := 0
  /-- What `Uuid::new_v4()` returns next: an id is never generated twice. -/
  uuid : Nat := 0
  pending : List Pending := []

inductive Label
  | tick (d : Nat)
  | stmt (c : Stmt)
  | failRead (q : Presented)
  | failWrite (k : Nat) (error : String) (jitter : Nat)
  | createCheck (q : CreateRequest)
  | createInsert (k : Nat)
  | createLink (k : Nat)
  | createRecompute (k : Nat)
  | claimJob (q : ClaimRequest)
  | deliver (k : Nat)
  | releaseUnsent (k : Nat)
  | oversized (k : Nat) (reason : String)
  /-- A handler gives up: a database error, a cancelled request, a crash. -/
  | drop (k : Nat)

namespace Sys

def run (cfg : Config) (s : Sys) (c : Stmt) : Sys :=
  { s with db := c.exec cfg s.now s.db, uuid := s.uuid + c.idCount }

def resume (s : Sys) (k : Nat) (ps : List Pending) : Sys :=
  { s with pending := ps ++ s.pending.eraseIdx k }

def afterInsert (s : Sys) (q : CreateRequest) (met : Bool) (child : JobId) : List Pending :=
  match q.parentJobId with
  | some p => if (s.db.job child).isSome && !met then [.link child p q.organizationId] else []
  | none => []

def buffers (s : Sys) (q : ClaimRequest) : List Pending :=
  let free := !s.db.paused q.organizationId q.queueName
  let ids := s.db.selectForClaim (fun j => q.eligible s.now j && free) 1
  ids.map fun i => .buffered i q.organizationId (.single s.uuid)

/-- The statement a label runs, and what its handler has left to do afterwards
(a function of the state after the statement). -/
def action (s : Sys) : Label → Option (Stmt × (Sys → Sys))
  | .stmt c => if c.direct s.uuid then some (c, id) else none
  | .failWrite k error jitter => match s.pending[k]? with
    | some (.fail q read) => some (.failWrite q read error jitter, (·.resume k []))
    | _ => none
  | .createInsert k => match s.pending[k]? with
    | some (.create q met) =>
      some (.createJob q s.uuid met, fun s' => s'.resume k (s'.afterInsert q met s.uuid))
    | _ => none
  | .createLink k => match s.pending[k]? with
    | some (.link child parent org) =>
      -- a missing row violates a foreign key: the error is logged and the child stays gated
      let ok := (s.db.job child).isSome && (s.db.job parent).isSome
      some (.insertEdge child parent, (·.resume k (if ok then [.recompute child org] else [])))
    | _ => none
  | .createRecompute k => match s.pending[k]? with
    | some (.recompute child org) => some (.recomputeGate child org, (·.resume k []))
    | _ => none
  | .claimJob q =>
    some (.claimJob s.uuid q, fun s' => { s' with pending := s.buffers q ++ s'.pending })
  | .releaseUnsent k => match s.pending[k]? with
    | some (.buffered i org lease) => some (.releaseUnsentClaim i org lease, (·.resume k []))
    | _ => none
  | .oversized k reason => match s.pending[k]? with
    | some (.buffered i org lease) =>
      some (.deadLetterOversized i org lease reason, (·.resume k []))
    | _ => none
  | _ => none

def idle (s : Sys) : Label → Option Sys
  | .tick d => some { s with now := s.now + d }
  | .failRead q => some { s with pending := match s.db.failRead s.now q with
      | some read => .fail q read :: s.pending
      | none => s.pending }
  | .createCheck q => (s.db.parentCompleted q).bind fun met =>
      if validMaxRetries q.maxRetries && (q.parentJobId.isNone || q.path == .rest)
      then some { s with pending := .create q met :: s.pending } else none
  | .deliver k => match s.pending[k]? with
    | some (.buffered ..) => some (s.resume k [])
    | _ => none
  | .drop k => if k < s.pending.length then some (s.resume k []) else none
  | _ => none

def next (cfg : Config) (s : Sys) (a : Label) : Option Sys :=
  match s.action a with
  | some (c, k) => some (k (s.run cfg c))
  | none => s.idle a

end Sys

/-- The job store with every party that writes it, from an empty database on. -/
def system (cfg : Config) : Machine where
  State := Sys
  Label := Label
  Init s := s.db = {} ∧ s.pending = []
  next := Sys.next cfg

/-! ## One client -/

/-- Requests of worker 1 of organization 1 on queue `q`, for concrete runs. -/
def clientCreate : CreateRequest := { organizationId := 1, queueName := "q" }

def clientClaim : ClaimRequest :=
  { organizationId := 1, queueName := "q", worker := 1, leaseSecs := 30 }

def clientHolds (i : JobId) (lease : LeaseId) : Presented :=
  { job := i, worker := 1, organizationId := 1, leaseId := some lease, scope := fun _ => true }

end Spooled
