import Spooled.Lib.Table

/-!
# Rows of the job store

One record per table the job lifecycle reads or writes, under the columns of
the migrations, and the fragments of `WHERE` clauses that several statements
share. Timestamps are milliseconds; a nullable column is an `Option`; ids are
opaque and compared only for equality, so they are numbers here.

Columns that no modelled statement reads (payload, result, tags, webhooks) are
left out.
-/

namespace Spooled

abbrev JobId := Nat
abbrev WorkflowId := Nat
abbrev OrgId := Nat
abbrev WorkerId := Nat
abbrev Uuid := Nat
/-- Milliseconds. -/
abbrev Time := Nat

def secs (n : Nat) : Time := n * 1000

/-- `jobs.lease_id`: the batch claim writes `stem || '-' || jobs.id`, every
other claim a uuid of its own. -/
inductive LeaseId
  | batch (stem : Uuid) (job : JobId)
  | single (uuid : Uuid)
deriving DecidableEq, Repr

def LeaseId.uuid : LeaseId → Nat
  | .batch u _ => u
  | .single u => u

inductive Status
  | pending | scheduled | processing | completed | failed | deadletter | cancelled
deriving DecidableEq, Repr

namespace Status

/-- `status IN ('pending', 'scheduled')`. -/
def waiting : Status → Bool
  | .pending | .scheduled => true
  | _ => false

/-- `status IN ('pending', 'scheduled', 'processing')`. -/
def active : Status → Bool
  | .pending | .scheduled | .processing => true
  | _ => false

/-- `status IN ('failed', 'deadletter')`. -/
def lost : Status → Bool
  | .failed | .deadletter => true
  | _ => false

/-- `status IN ('failed', 'deadletter', 'cancelled')`. -/
def broken : Status → Bool
  | .failed | .deadletter | .cancelled => true
  | _ => false

end Status

/-- `jobs.dependency_mode` (the column default is `all`). -/
inductive DependencyMode
  | all | any
deriving DecidableEq, Repr

inductive WorkflowStatus
  | pending | running | completed | failed | cancelled
deriving DecidableEq, Repr

/-- `status IN ('pending', 'running')`. -/
def WorkflowStatus.live : WorkflowStatus → Bool
  | .pending | .running => true
  | _ => false

structure Job where
  id : JobId
  organizationId : OrgId
  queueName : String
  status : Status := .pending
  retryCount : Int := 0
  maxRetries : Int := 3
  lastError : Option String := none
  createdAt : Time := 0
  scheduledAt : Option Time := none
  startedAt : Option Time := none
  completedAt : Option Time := none
  expiresAt : Option Time := none
  priority : Int := 0
  parentJobId : Option JobId := none
  assignedWorkerId : Option WorkerId := none
  leaseId : Option LeaseId := none
  leaseExpiresAt : Option Time := none
  leaseDurationSecs : Option Nat := none
  updatedAt : Time := 0
  workflowId : Option WorkflowId := none
  dependencyMode : DependencyMode := .all
  dependenciesMet : Option Bool := some true
deriving DecidableEq, Repr

/-- A row of `job_dependencies`: `job` waits for `dependsOn`. -/
structure Edge where
  job : JobId
  dependsOn : JobId
deriving DecidableEq, Repr

structure Workflow where
  id : WorkflowId
  organizationId : OrgId
  status : WorkflowStatus := .pending
  totalJobs : Nat
  completedJobs : Nat := 0
  failedJobs : Nat := 0
  createdAt : Time := 0
  startedAt : Option Time := none
  completedAt : Option Time := none
deriving DecidableEq, Repr

structure DeadLetter where
  job : JobId
  organizationId : OrgId
  queueName : String
  reason : String
  createdAt : Time
deriving DecidableEq, Repr

/-- `workers.status`, as far as the stale-worker sweep and the caps read it. -/
inductive WorkerStatus
  | healthy | degraded | draining | offline
deriving DecidableEq, Repr

structure Worker where
  id : WorkerId
  organizationId : OrgId
  status : WorkerStatus := .healthy
  lastHeartbeat : Time
deriving DecidableEq, Repr

structure QueueConfig where
  organizationId : OrgId
  queueName : String
  enabled : Bool := true
  maxRetries : Int := 3
deriving DecidableEq, Repr

/-! ## Shared conditions -/

namespace Job

variable (now : Time) (j : Job)

/-- `scheduled_at IS NULL OR scheduled_at <= now`. -/
def due : Bool := j.scheduledAt.all (· ≤ now)

/-- `expires_at IS NULL OR expires_at > now`. -/
def unexpired : Bool := j.expiresAt.all (now < ·)

/-- `dependencies_met IS NULL OR dependencies_met = TRUE`. -/
def gateOpen : Bool := j.dependenciesMet != some false

/-- `dependencies_met IS NOT TRUE`, also written `= FALSE OR IS NULL`. -/
def gateNotTrue : Bool := j.dependenciesMet != some true

/-- The part of the claim predicate that every claim statement repeats. -/
def claimable : Bool :=
  j.status.waiting && j.due now && j.unexpired now && j.gateOpen

/-- `lease_expires_at IS NOT NULL AND lease_expires_at > now`. -/
def leaseLive : Bool := j.leaseExpiresAt.any (now < ·)

/-- `lease_expires_at IS NULL OR lease_expires_at <= now`. -/
def leaseOver : Bool := j.leaseExpiresAt.all (· ≤ now)

end Job

/-- What a worker presents when it settles or renews a claim. `scope` is the
key's queue filter (`queue_in_key_scope`); an omitted lease id is `none`. -/
structure Presented where
  job : JobId
  worker : WorkerId
  organizationId : OrgId
  leaseId : Option LeaseId
  scope : String → Bool

/-- The predicate every complete, fail and renewal repeats. -/
def Job.heldBy (now : Time) (q : Presented) (j : Job) : Bool :=
  j.id == q.job && j.assignedWorkerId == some q.worker && j.organizationId == q.organizationId &&
    j.status == .processing && j.leaseLive now &&
    -- `lease_id = NULL` is never true
    (q.leaseId.isSome && j.leaseId == q.leaseId) && q.scope j.queueName

end Spooled
