import Spooled.Store.Worker

/-!
# Statements of the scheduler

Activation of scheduled jobs, lease recovery, the stale-worker sweep, the
dependency sweep (`update_job_dependencies`, one definition per statement) and
the retention and expiry sweeps (`cleanup_old_data_by_org`). A bounded batch
(`LIMIT … SKIP LOCKED`) deletes some of the rows that qualify: `pick` says
which.
-/

namespace Spooled

namespace Db

variable (db : Db) (now : Time) (retention : OrgId → Nat) (pick : JobId → Bool) (j : Job)

/-- `activate_scheduled_jobs`. -/
def activateScheduledJobs : Db :=
  db.setStatus now (fun j => j.status == .scheduled && j.scheduledAt.any (· ≤ now)) fun j =>
    { j with status := .pending }

/-! ## Abandoned claims -/

def leaseExpired : Bool :=
  j.status == .processing && j.leaseExpiresAt.any (· ≤ now)

/-- `recover_expired_leases`, the jobs with attempts left. -/
def recoverExpiredLeases : Db :=
  db.setStatus now (fun j => leaseExpired now j && decide (j.retryCount < j.maxRetries))
    (releaseRow "Lease expired (worker timeout)")

/-- `recover_expired_leases`, the exhausted jobs. -/
def deadletterExpiredLeases : Db :=
  db.deadletterWhere now "Max retries exceeded after lease expiration"
    fun j => leaseExpired now j && decide (j.maxRetries ≤ j.retryCount)

/-- `cleanup_stale_workers`: two minutes without a heartbeat. -/
def markStaleWorkers : Db :=
  { db with workers := db.workers.map fun w =>
      if w.status != .offline && decide (w.lastHeartbeat + secs 120 < now)
      then { w with status := .offline } else w }

/-- A claim without a live lease whose worker is offline. -/
def abandoned : Bool :=
  j.status == .processing && j.leaseOver now && db.workers.any fun w =>
    j.assignedWorkerId == some w.id && w.status == .offline &&
      w.organizationId == j.organizationId

/-- `cleanup_stale_workers`, the jobs with attempts left. -/
def releaseOfflineWorkers : Db :=
  db.setStatus now (fun j => db.abandoned now j && decide (j.retryCount < j.maxRetries))
    (releaseRow "Worker went offline")

/-- `cleanup_stale_workers`, the exhausted jobs. -/
def deadletterOfflineWorkers : Db :=
  db.deadletterWhere now "Max retries exceeded after worker went offline"
    fun j => db.abandoned now j && decide (j.maxRetries ≤ j.retryCount)

/-! ## The dependency sweep -/

def parentFailedCancelReason : String := "Parent job failed or was deadlettered"
def dependencyFailedCancelReason : String := "Dependency job failed or was deadlettered"

/-- `DEPENDENCY_CANCEL_REASONS`: the cancellations a retry may undo. -/
def dependencyCancelReasons : List String :=
  [parentFailedCancelReason, dependencyFailedCancelReason]

def parentIs (p : Status → Bool) (j : Job) : Bool :=
  (j.parentJobId.bind db.job).any fun q => q.organizationId == j.organizationId && p q.status

def hasEdges (i : JobId) : Bool := db.edges.any (·.job == i)

def staleGate : Bool :=
  j.status.waiting && (j.gateNotTrue || db.hasEdges j.id) && db.parentIs (· == .completed) j &&
    j.dependenciesMet != some (db.checkJobDependenciesMet j.id)

/-- The safety net: children of a completed parent recompute their gate. -/
def recomputeCompletedParents : Db :=
  db.setJobs now db.staleGate fun j =>
    { j with dependenciesMet := some (db.checkJobDependenciesMet j.id) }

/-- `parent_job_id` names a failed job and, in mode `any`, no edge leads to another chance. -/
def parentFails : Bool :=
  db.parentIs Status.broken j &&
    (j.dependencyMode != .any || !db.liveAlternative (fun d => j.parentJobId == some d) j)

def parentDooms : Bool :=
  j.status.waiting && j.gateNotTrue && db.parentFails j

/-- The rows of `job_dependencies` can no longer satisfy the mode. -/
def edgesFail : Bool :=
  db.hasEdges j.id &&
    if j.dependencyMode == .any then !db.liveAlternative (fun _ => false) j
    else (db.deps j.id).any fun d => d.organizationId == j.organizationId && d.status.broken

def edgesDoom : Bool :=
  j.status.waiting && j.gateNotTrue && db.edgesFail j

def cancelWhere (reason : String) (p : Job → Bool) : Db :=
  db.setStatus now p (cancelRow now (some reason))

def cancelParentFailed : Db :=
  db.cancelWhere now parentFailedCancelReason db.parentDooms

def cancelDependencyFailed : Db :=
  db.cancelWhere now dependencyFailedCancelReason db.edgesDoom

/-- A gated job with neither parent nor edge, untouched for an hour, runs. -/
def unblockOrphans : Db :=
  db.setJobs now
    (fun j => j.status.waiting && j.dependenciesMet == some false && j.parentJobId == none &&
      decide (j.updatedAt + secs 3600 < now) && !db.hasEdges j.id)
    fun j => { j with dependenciesMet := some true }

def firstStart (w : WorkflowId) : Option Time :=
  ((db.steps w).filterMap (·.startedAt)).min?

/-- A workflow starts when its first step is claimed. -/
def startWorkflows : Db :=
  let started := fun w : Workflow =>
    (w.status == .pending || w.startedAt == none &&
      (w.status == .running || w.completedAt.any (now < · + secs 3600))) &&
    (db.steps w.id).any (·.startedAt.isSome)
  { db with workflows := db.workflows.update started (fun w =>
      { w with
        status := if w.status == .pending then .running else w.status
        startedAt := w.startedAt <|> db.firstStart w.id }) fun _ => rfl }

/-- Close live workflows with steps, none of them active, not all of them completed. -/
def terminateWorkflows : Db :=
  let stuck := fun w : Workflow =>
    w.status.live && !(db.steps w.id).any (·.status.active) && (db.steps w.id).any (·.status.broken)
  { db with workflows := db.workflows.update stuck (fun w =>
      { w with
        status := if (db.steps w.id).any (·.status.lost) then .failed else .cancelled
        completedJobs := db.countSteps w.id (· == .completed)
        failedJobs := db.countSteps w.id Status.lost
        completedAt := w.completedAt <|> some now }) fun _ => rfl }

/-- The cancel loop on edges: at most `n` passes, ended by an empty one. -/
def cancelDependencyLoop (now : Time) : Nat → Db → Db
  | 0, db => db
  | n + 1, db =>
    if db.jobs.rows.any db.edgesDoom then cancelDependencyLoop now n (db.cancelDependencyFailed now)
    else db

/-- `update_job_dependencies`, one statement after the other. -/
def updateJobDependencies : Db :=
  let db := db.recomputeCompletedParents now
  let db := db.cancelParentFailed now
  let db := cancelDependencyLoop now 10 db
  let db := db.unblockOrphans now
  let db := db.startWorkflows now
  db.terminateWorkflows now

/-! ## Retention and expiry -/

def days (n : Nat) : Time := secs (n * 86400)

def older (org : OrgId) (at_ : Option Time) : Bool :=
  at_.any fun t => decide (t + days (retention org) < now)

def cleanupWorkflows (pick : WorkflowId → Bool) :
    Db :=
  { db with workflows := db.workflows.delete fun w =>
      !w.status.live && older now retention w.organizationId w.completedAt && pick w.id }

def workflowExists : Bool := (j.workflowId.bind db.workflow).isSome

def finishedLongAgo : Bool :=
  (j.status == .completed || j.status == .cancelled && !db.workflowExists j) &&
    older now retention j.organizationId j.completedAt

def cleanupFinished : Db :=
  db.deleteJobs now fun j => db.finishedLongAgo now retention j && pick j.id

/-- Old failed jobs nothing active waits for. -/
def failedLongAgo : Bool :=
  j.status.lost && older now retention j.organizationId (some j.updatedAt) &&
    !(db.jobs.rows.any fun c =>
      (db.hasEdge c.id j.id || c.parentJobId == some j.id) && c.status.active) &&
    !db.workflowExists j

def cleanupFailed : Db :=
  db.deleteJobs now fun j => db.failedLongAgo now retention j && pick j.id

def cleanupDeadLetters (pick : DeadLetter → Bool) : Db :=
  { db with deadLetters := db.deadLetters.filter fun d =>
      !(older now retention d.organizationId (some d.createdAt) && pick d) }

/-- Expired before it ran, or after it failed. -/
def expired : Bool :=
  j.expiresAt.any (· < now) && (j.status.waiting || j.status.lost)

def expires (i : JobId) : Bool :=
  (db.job i).any fun j => expired now j && pick i

def parentExpiredReason : String := "Parent job expired before it completed"

def dependencyExpiredReason (i : JobId) : String :=
  "Dependency job " ++ toString i ++ " expired before it completed"

def blockedBy (gone : JobId → Bool) (j : Job) : Bool :=
  j.status.waiting && j.gateNotTrue && (j.dependencyMode != .any || !db.liveAlternative gone j)

def cancelExpiredChildren (gone : JobId → Bool) : Db :=
  db.cancelWhere now parentExpiredReason fun j =>
    j.parentJobId.any gone && db.blockedBy gone j

def cancelExpiredDependents (gone : JobId → Bool) : Db :=
  db.setStatus now
    (fun j => db.blockedBy gone j && db.edges.any fun e => e.job == j.id && gone e.dependsOn)
    -- the least expired dependency still in the table
    fun j => cancelRow now
      ((((db.deps j.id).map (·.id)).filter gone).min?.map dependencyExpiredReason) j

/-- The outcome rule of the expiry sweep; a deleted step never completed. -/
def expiryStatus (total failed cancelled totalJobs : Nat) : WorkflowStatus :=
  if total = 0 then .cancelled
  else if 0 < failed then .failed
  else if 0 < cancelled ∨ total < totalJobs then .cancelled
  else .completed

/-- Finish the touched workflows that have nothing left to run. -/
def finishExpired (touched : WorkflowId → Bool) : Db :=
  let idle := fun w : Workflow =>
    touched w.id && w.status.live && decide (db.countSteps w.id Status.active = 0)
  { db with workflows := db.workflows.update idle (fun w =>
      { w with
        completedJobs := db.countSteps w.id (· == .completed)
        failedJobs := db.countSteps w.id Status.lost
        status := expiryStatus (db.steps w.id).length (db.countSteps w.id Status.lost)
          (db.countSteps w.id (· == .cancelled)) w.totalJobs
        completedAt := w.completedAt <|> some now }) fun _ => rfl }

/-- The expiry transaction of `cleanup_old_data_by_org`. -/
def cleanupExpired : Db :=
  let gone := db.expires now pick
  let touched := fun w => (db.steps w).any fun j => gone j.id
  let db := db.cancelExpiredChildren now gone
  let db := db.cancelExpiredDependents now gone
  let db := db.deleteJobs now fun j => gone j.id
  db.finishExpired now touched

end Db

end Spooled
