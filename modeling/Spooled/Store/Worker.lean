import Mathlib
import Spooled.Store.Db

/-!
# Statements a worker triggers

Claims, completes, fails and renewals over REST (`queue/mod.rs`) and gRPC
(`grpc/services/queue_service.rs`), the release of an undelivered claim and the
dead-lettering of an oversized one, and the release made when a worker
deregisters. Each definition is one statement, or one transaction whose
statements all touch the row the first one locked.
-/

namespace Spooled

/-! ## Claims -/

/-- `ORDER BY priority DESC, created_at ASC`. -/
def Job.claimedBefore (a b : Job) : Prop :=
  b.priority < a.priority ∨ a.priority = b.priority ∧ a.createdAt ≤ b.createdAt

instance (a b : Job) : Decidable (a.claimedBefore b) :=
  inferInstanceAs (Decidable (_ ∨ _))

/-- What a claim asks for. `skip` are the rows other transactions hold locked
(`FOR UPDATE SKIP LOCKED`); `admits` is any further condition of the statement
on the selected row (the streaming claim requires an active key in scope). -/
structure ClaimRequest where
  organizationId : OrgId
  queueName : String
  worker : WorkerId
  leaseSecs : Nat
  skip : JobId → Bool := fun _ => false
  admits : Job → Bool := fun _ => true

def ClaimRequest.eligible (q : ClaimRequest) (now : Time) (j : Job) : Bool :=
  j.organizationId == q.organizationId && j.queueName == q.queueName && j.claimable now &&
    q.admits j && !q.skip j.id

namespace Db

variable (db : Db) (now : Time) (error : String) (q : Presented)

def selectForClaim (p : Job → Bool) (n : Nat) : List JobId :=
  (((db.jobs.rows.filter p).insertionSort Job.claimedBefore).take n).map (·.id)

def claimRow (worker : WorkerId) (lease : LeaseId) (len : Nat) (started : Time)
    (j : Job) : Job :=
  { j with
    status := .processing
    assignedWorkerId := some worker
    leaseId := some lease
    leaseExpiresAt := some (now + secs len)
    leaseDurationSecs := some len
    startedAt := some started }

/-- `MIN_LEASE_DURATION_SECS ..= MAX_LEASE_DURATION_SECS`. -/
def safeLease (n : Nat) : Nat := max 5 (min n 3600)

/-- `CLAIM_BATCH_SQL`. -/
def claimBatch (stem : Uuid) (n : Nat) (q : ClaimRequest) : Db :=
  let ids := db.selectForClaim (q.eligible now) n
  db.setStatus now (fun j => j.id ∈ ids) fun j =>
    claimRow now q.worker (.batch stem j.id) (safeLease q.leaseSecs) now j

/-- `QueueManager::dequeue`. -/
def dequeue (lease : Uuid) (q : ClaimRequest) : Db :=
  let ids := db.selectForClaim (q.eligible now) 1
  db.setStatus now (fun j => j.id ∈ ids) fun j =>
    claimRow now q.worker (.single lease) (safeLease q.leaseSecs) now j

def paused (org : OrgId) (queue : String) : Bool :=
  db.queueConfig.any fun c => c.organizationId == org && c.queueName == queue && !c.enabled

/-- The gRPC claims: `claim_job`, the streaming claim and `handle_process_dequeue`. -/
def claimJob (lease : Uuid) (q : ClaimRequest) : Db :=
  let free := !db.paused q.organizationId q.queueName
  let ids := db.selectForClaim (fun j => q.eligible now j && free) 1
  db.setStatus now (fun j => j.id ∈ ids) fun j =>
    claimRow now q.worker (.single lease) q.leaseSecs (j.startedAt.getD now) j

/-! ## Settlements -/

def clearLease (j : Job) : Job :=
  { j with assignedWorkerId := none, leaseId := none, leaseExpiresAt := none }

/-- The one `UPDATE` of `complete_by_worker`, the unary `complete` and
`handle_process_complete`. -/
def complete : Db :=
  db.setStatus now (·.heldBy now q) fun j =>
    { j with status := .completed, completedAt := some now }

/-- The statement after it in `complete_by_worker`: children linked by
`parent_job_id` recompute their gate. -/
def recomputeChildren (parent : JobId) (org : OrgId) : Db :=
  db.setJobs now
    (fun j => j.parentJobId == some parent && j.organizationId == org && j.status.waiting &&
      j.dependenciesMet != some (db.checkJobDependenciesMet j.id) &&
      -- NOT EXISTS an open parent row of the same organization
      !(db.job parent).any (fun p => p.organizationId == org && p.status != .completed))
    fun j => { j with dependenciesMet := some (db.checkJobDependenciesMet j.id) }

def backoffSecs (retryCount : Int) : Nat := min (2 ^ (min retryCount.toNat 6)) 60

def maxBackoff : Nat := secs 60 + 500

theorem backoff_le (now : Time) (retryCount : Int) (jitter : Nat) :
    now + secs (backoffSecs retryCount) + jitter % 500 ≤ now + maxBackoff := by
  have hle : backoffSecs retryCount ≤ 60 := Nat.min_le_right _ _
  have hlt : jitter % 500 < 500 := Nat.mod_lt jitter (by decide)
  rw [Nat.add_assoc]
  exact Nat.add_le_add_left (Nat.add_le_add (Nat.mul_le_mul_right 1000 hle) (Nat.le_of_lt hlt)) now

def rescheduleRow (retryCount : Int) (at_ : Time) (j : Job) : Job :=
  clearLease { j with
    status := .scheduled
    retryCount := retryCount
    scheduledAt := some at_
    lastError := some error }

def deadletterRow (j : Job) : Job :=
  clearLease { j with status := .deadletter, lastError := some error }

/-- `UPDATE jobs … 'deadletter'` and the `INSERT INTO dead_letter_queue` over
its rows, in one statement. -/
def deadletterWhere (p : Job → Bool) : Db :=
  (db.setStatus now p (deadletterRow error)).insertDeadLetters now error (db.jobs.rows.filter p)

/-- The read of `fail_by_worker`: the retry counters, if the lease is still held. -/
def failRead : Option (Int × Int) :=
  (db.jobs.rows.find? (·.heldBy now q)).map fun j => (j.retryCount, j.maxRetries)

def failWrite (read : Int × Int) (error : String)
    (jitter : Nat) : Db :=
  if read.1 < read.2 then
    db.setStatus now (·.heldBy now q)
      (rescheduleRow error (read.1 + 1) (now + secs (backoffSecs read.1) + jitter % 500))
  else db.deadletterWhere now error (·.heldBy now q)

def grpcDeadletters (retry : Bool) (j : Job) : Bool := !retry || j.maxRetries ≤ j.retryCount

/-- `fail` (one CTE) and `handle_process_fail` (one transaction). -/
def failGrpc (retry : Bool) (error : String) : Db :=
  let held := fun j : Job => j.heldBy now q
  (db.setStatus now held fun j =>
    if grpcDeadletters retry j then deadletterRow error j
    else rescheduleRow error (j.retryCount + 1) (now + secs (backoffSecs j.retryCount)) j)
    |>.insertDeadLetters now error
      (db.jobs.rows.filter fun j => held j && grpcDeadletters retry j)

/-- `renew_lease_for`: an omitted length keeps the granted one. -/
def renewLeaseFor (requested : Option Nat)
    (default : Nat) : Db :=
  db.setJobs now (·.heldBy now q) fun j =>
    let len := (requested.orElse fun _ => j.leaseDurationSecs).getD default
    { j with
      leaseExpiresAt := some (now + secs len)
      leaseDurationSecs := requested.orElse fun _ => j.leaseDurationSecs }

/-- gRPC `renew_lease` and `handle_process_renew`. -/
def renewLease (len : Nat) : Db :=
  db.setJobs now (·.heldBy now q) fun j =>
    { j with leaseExpiresAt := some (now + secs len), leaseDurationSecs := some len }

/-! ## Claims that are taken back -/

def claimedUnder (i : JobId) (org : OrgId) (lease : LeaseId) (j : Job) : Bool :=
  j.id == i && j.organizationId == org && j.leaseId == some lease && j.status == .processing

/-- `release_unsent_claim`. -/
def releaseUnsentClaim (i : JobId) (org : OrgId) (lease : LeaseId) : Db :=
  db.setStatus now (claimedUnder i org lease) fun j => clearLease { j with status := .pending }

/-- `dead_letter_oversized`: one transaction that first ends the lease, so that
no worker counter sees a live one. -/
def deadLetterOversized (i : JobId) (org : OrgId) (lease : LeaseId)
    (reason : String) : Db :=
  (db.setJobs now (claimedUnder i org lease) fun j => { j with leaseExpiresAt := some now })
    |>.deadletterWhere now reason (claimedUnder i org lease)

def releaseRow (j : Job) : Job :=
  clearLease { j with
    status := .pending
    retryCount := j.retryCount + 1
    lastError := some error }

/-- `release_jobs_for_deregistered_worker`. -/
def releaseJobsForDeregisteredWorker (worker : WorkerId) (org : OrgId) :
    Db :=
  db.setStatus now
    (fun j => j.assignedWorkerId == some worker && j.organizationId == org &&
      j.status == .processing && decide (j.retryCount < j.maxRetries) && j.leaseOver now)
    (releaseRow "Worker deregistered")

end Db

end Spooled
