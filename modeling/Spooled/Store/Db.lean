import Spooled.Store.Row

/-!
# The tables and their triggers

`Db` is the committed content of the tables. `setJobs` is an `UPDATE jobs` that
leaves `status` alone, `setStatus` one that assigns it (so the `AFTER UPDATE OF
status` triggers fire, once per matched row), and `deleteJobs` a `DELETE FROM
jobs` with its delete trigger and its foreign-key actions. Every statement of
the program is built from these three and plain inserts.
-/

namespace Spooled

/-- A row after `SET f`: the key is not assignable and the `BEFORE UPDATE`
trigger `jobs_updated_at` stamps it. -/
def Job.written (now : Time) (f : Job → Job) (j : Job) : Job :=
  { f j with id := j.id, updatedAt := now }

structure Db where
  jobs : Table JobId Job Job.id := .empty
  edges : List Edge := []
  workflows : Table WorkflowId Workflow Workflow.id := .empty
  deadLetters : List DeadLetter := []
  workers : List Worker := []
  queueConfig : List QueueConfig := []

namespace Db

variable (db : Db) (now : Time) (p : Job → Bool) (i : JobId) (w : WorkflowId)

def job : Option Job := db.jobs.find i

def workflow : Option Workflow := db.workflows.find w

/-- `job_dependencies JOIN jobs`: the rows a job waits for. -/
def deps : List Job :=
  (db.edges.filter (·.job == i)).filterMap fun e => db.job e.dependsOn

def hasEdge (d : JobId) : Bool := db.edges.any fun e => e.job == i && e.dependsOn == d

/-- `check_job_dependencies_met(p_job_id)`. -/
def checkJobDependenciesMet : Bool :=
  let total := (db.deps i).length
  if total = 0 then true
  else if (db.job i).any (·.dependencyMode == .any) then (db.deps i).any (·.status == .completed)
  else (db.deps i).countP (·.status == .completed) = total

/-! ## Updates and the status triggers -/

/-- `UPDATE jobs SET f WHERE p`, without `status` in `f`. -/
def setJobs (f : Job → Job) : Db :=
  { db with jobs := db.jobs.update p (Job.written now f) fun _ => rfl }

/-- `update_dependent_jobs()`: the jobs waiting for `i` recompute their gate. -/
def updateDependentJobs : Db :=
  db.setJobs now (fun j => db.hasEdge j.id i) fun j =>
    { j with dependenciesMet := some (db.checkJobDependenciesMet j.id) }

def steps : List Job :=
  db.jobs.rows.filter fun j => j.workflowId == some w

def countSteps (p : Status → Bool) : Nat :=
  (db.steps w).countP fun j => p j.status

/-- `UPDATE workflows SET f WHERE id = w AND status IN ('pending', 'running')`. -/
def setLiveWorkflow (f : Workflow → Workflow) : Db :=
  let live := fun x : Workflow => x.id == w && x.status.live
  { db with workflows := db.workflows.update live (fun x => { f x with id := x.id }) fun _ => rfl }

/-- The outcome rule of `update_workflow_progress`. -/
def progressStatus (active failed cancelled : Nat) : WorkflowStatus :=
  if 0 < active then .running
  else if 0 < failed then .failed
  else if 0 < cancelled then .cancelled
  else .completed

/-- `update_workflow_progress()` for one step of `w` that reached a final status. -/
def updateWorkflowProgress : Db :=
  let active := db.countSteps w Status.active
  let failed := db.countSteps w Status.lost
  let cancelled := db.countSteps w (· == .cancelled)
  db.setLiveWorkflow w fun x =>
    { x with
      completedJobs := db.countSteps w (· == .completed)
      failedJobs := failed
      status := progressStatus active failed cancelled
      completedAt := if active = 0 then some now else none }

/-- The `AFTER UPDATE OF status` triggers for one updated row, in name order. -/
def fireStatus (old new : Job) : Db :=
  let db := if new.status == .completed && old.status != .completed
    then db.updateDependentJobs now new.id else db
  match new.workflowId with
  | some w => if new.status.active then db else db.updateWorkflowProgress now w
  | none => db

/-- `UPDATE jobs SET f WHERE p` with `status` in `f`: all rows first, then the triggers. -/
def setStatus (f : Job → Job) : Db :=
  (db.jobs.rows.filter p).foldl (fun db' j => db'.fireStatus now j (j.written now f))
    (db.setJobs now p f)

def cancelRow (error : Option String) (j : Job) : Job :=
  { j with status := .cancelled, lastError := error, completedAt := some now }

/-! ## Deletes -/

/-- An any-mode row still has a dependency, outside `gone`, that can complete. -/
def liveAlternative (gone : JobId → Bool) (j : Job) : Bool :=
  (db.deps j.id).any fun d =>
    !gone d.id && d.organizationId == j.organizationId && !d.status.broken

def deletedReason : String :=
  "Dependency job " ++ toString i ++ " was deleted before it completed"

/-- One of the two `UPDATE`s of the delete trigger: cancel the waiting rows among `p`. -/
def cancelBlocked (old : Job) (p : Job → Bool) : Db :=
  db.setStatus now
    (fun j => p j && j.organizationId == old.organizationId && j.status.waiting &&
      j.gateNotTrue &&
      (j.dependencyMode != .any || !db.liveAlternative (· == old.id) j))
    (cancelRow now (some (deletedReason old.id)))

/-- `cancel_blocked_dependents_of_deleted_job()` for one deleted row. -/
def cancelBlockedDependentsOfDeletedJob (old : Job) : Db :=
  if old.status == .completed then db
  else
    let db := db.cancelBlocked now old fun j => j.parentJobId == some old.id
    db.cancelBlocked now old fun j => db.hasEdge j.id old.id

/-- `ON DELETE CASCADE` of `job_dependencies` and `ON DELETE SET NULL` of `parent_job_id`. -/
def dropReferences : Db :=
  let db := db.setJobs now (·.parentJobId == some i) fun j => { j with parentJobId := none }
  { db with edges := db.edges.filter fun e => e.job != i && e.dependsOn != i }

/-- What follows the deletion of a row: the trigger (its name sorts before the
constraint triggers), then the key actions. -/
def afterDelete (db : Db) (old : Job) : Db :=
  (db.cancelBlockedDependentsOfDeletedJob now old).dropReferences now old.id

/-- `DELETE FROM jobs WHERE p`: all rows first, then what follows, row by row. -/
def deleteJobs : Db :=
  (db.jobs.rows.filter p).foldl (afterDelete now) { db with jobs := db.jobs.delete p }

/-! ## Inserts -/

def insertJob (j : Job) : Db := { db with jobs := db.jobs.insert j }

/-- `INSERT INTO job_dependencies … ON CONFLICT DO NOTHING`; a missing row
violates a foreign key and a self-edge the check constraint, so nothing is
inserted. -/
def insertEdge (d : JobId) : Db :=
  if (db.job i).isSome && (db.job d).isSome && i != d && !db.hasEdge i d then
    { db with edges := db.edges ++ [⟨i, d⟩] }
  else db

/-- The `INSERT INTO dead_letter_queue` over the rows a statement dead-lettered. -/
def insertDeadLetters (reason : String) (rows : List Job) : Db :=
  { db with deadLetters := db.deadLetters ++
      rows.map fun j => ⟨j.id, j.organizationId, j.queueName, reason, now⟩ }

end Db

end Spooled
