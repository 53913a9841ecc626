import Spooled.Store.System

/-!
# What one step can do to a row

`Job.Move` lists the changes a statement can make to a row without touching a
claim, `Job.Ending` the ways a claim ends, each with the part of its guard that
the invariants need. `Stmt.exec_rowStep` is the inversion lemma of the system:
whatever the statement, each row is created, deleted, moved, claimed, revived
by a retry, or its claim ends.
-/

namespace Spooled

open List

open Relation

/-- One change of a row that neither starts nor ends a claim nor resets the row. -/
inductive Job.Move (now : Time) : Job → Job → Prop
  | regate (j : Job) (m : Option Bool) (t : Time) : Move now j (j.regate m t)
  | setMode (j : Job) (m : DependencyMode) : Move now j { j with dependencyMode := m }
  | setPriority (j : Job) (n : Int) : Move now j { j with priority := n }
  | reparent (j : Job) (par : Option JobId) (t : Time) : Move now j (Db.reparent par t j)
  | renew (j : Job) (e : Time) (d : Option Nat) : j.status = .processing →
      j.leaseLive now = true → Move now j { j with leaseExpiresAt := some e, leaseDurationSecs := d }
  | cancel (j : Job) (e : Option String) : j.status.waiting = true →
      Move now j (Db.cancelRow now e j)
  | activate (j : Job) : j.status = .scheduled → Move now j { j with status := .pending }
  | reopen (j : Job) (st : Status) : Db.sweptAway j = true → st.waiting = true →
      Move now j { j with status := st, lastError := none, completedAt := none }

abbrev Job.Moves (now : Time) : Job → Job → Prop := ReflTransGen (Job.Move now)

variable {c : Stmt} {cfg : Config} {db : Db} {j j' : Job} {now : Time}

theorem Job.Moves.id (h : j.Moves now j') : j'.id = j.id := by
  induction h with
  | refl => rfl
  | tail _ h ih => rw [← ih]; cases h <;> rfl

/-- How a claim ends, dead-lettering and the release of an undelivered one apart. -/
inductive Job.Ending (now : Time) : Job → Job → Prop
  | complete (j : Job) (m : Option Bool) (t : Time) : j.status = .processing →
      Ending now j (({ j with status := .completed, completedAt := some now } : Job).regate m t)
  | reschedule (j : Job) (error : String) (t : Time) : j.status = .processing →
      j.retryCount < j.maxRetries → t ≤ now + Db.maxBackoff →
      Ending now j (j.written now (Db.rescheduleRow error (j.retryCount + 1) t))
  | release (j : Job) (error : String) : j.status = .processing → j.retryCount < j.maxRetries →
      Ending now j (j.written now (Db.releaseRow error))

/-- The lease id a statement issues for job `i`. -/
def Stmt.issues (now : Time) (db : Db) (i : JobId) : Stmt → Option LeaseId
  | .claimBatch stem n q =>
    if i ∈ db.selectForClaim (q.eligible now) n then some (.batch stem i) else none
  | .dequeue lease q =>
    if i ∈ db.selectForClaim (q.eligible now) 1 then some (.single lease) else none
  | .claimJob lease q =>
    let free := !db.paused q.organizationId q.queueName
    if i ∈ db.selectForClaim (fun j => q.eligible now j && free) 1 then some (.single lease)
    else none
  | _ => none

def Stmt.deadletters (now : Time) (db : Db) (j : Job) : Stmt → Bool
  | .failWrite q read _ _ => decide (read.2 ≤ read.1) && j.heldBy now q
  | .failGrpc q retry _ => j.heldBy now q && Db.grpcDeadletters retry j
  | .deadLetterOversized i org lease _ => Db.claimedUnder i org lease j
  | .deadletterExpiredLeases => Db.leaseExpired now j && decide (j.maxRetries ≤ j.retryCount)
  | .deadletterOfflineWorkers => db.abandoned now j && decide (j.maxRetries ≤ j.retryCount)
  | _ => false

def Stmt.revives (db : Db) (j : Job) : Stmt → Bool
  | .retryJob i org => db.retryable i org j
  | .retryDlq org pick => db.dlqRetryable org pick j
  | .retryWorkflow w org =>
    (db.workflow w).any (fun x => x.organizationId == org && x.status == .failed) &&
      Db.workflowRetryable w org j
  | _ => false

def Stmt.deletes (now : Time) (db : Db) : Stmt → Option (Job → Bool)
  | .cleanupFinished retention pick =>
    some fun j => db.finishedLongAgo now retention j && pick j.id
  | .cleanupFailed retention pick => some fun j => db.failedLongAgo now retention j && pick j.id
  | .cleanupExpired pick => some fun j => db.expires now pick j.id
  | .purgeDlq org pick => some (Db.purgeable org pick)
  | .deleteQueue org queue => some (Db.inQueue org queue)
  | _ => none

/-- The statements that end claims by a report of the worker or by a sweep. -/
def Stmt.endsClaims : Stmt → Bool
  | .complete _ | .failWrite .. | .failGrpc .. => true
  | .releaseDeregistered .. | .recoverExpiredLeases | .releaseOfflineWorkers => true
  | _ => false

inductive Stmt.Inserts (cfg : Config) (now : Time) (db : Db) : Stmt → Job → Prop
  | job (q : CreateRequest) (i : JobId) (met : Bool) :
      Inserts cfg now db (.createJob q i met) (db.newJob now cfg.defaultMaxRetries q i met)
  | step (org : OrgId) (w : WorkflowId) (base : JobId) (defs : List StepDef) (d : StepDef) (k : Nat) :
      (d, k) ∈ defs.zipIdx → Inserts cfg now db (.createWorkflow org w base defs)
        (db.stepJob now cfg.defaultMaxRetries org w (base + k) d)

/-- The statement neither claims, dead-letters nor resets the row. -/
structure Stmt.Spares (now : Time) (db : Db) (c : Stmt) (j : Job) : Prop where
  issues : c.issues now db j.id = none
  deadletters : c.deadletters now db j = false
  revives : c.revives db j = false

/-- What the statement `c` can do to the row of one id. -/
inductive RowStep (cfg : Config) (now : Time) (db : Db) (c : Stmt) : Option Job → Option Job → Prop
  | absent : RowStep cfg now db c none none
  | created {j : Job} : c.Inserts cfg now db j → RowStep cfg now db c none (some j)
  | deleted {j : Job} (p : Job → Bool) : c.Spares now db j → c.deletes now db = some p → p j = true →
      RowStep cfg now db c (some j) none
  | moved {j j' : Job} : c.Spares now db j → j.Moves now j' → RowStep cfg now db c (some j) (some j')
  | claimed {j : Job} (worker : WorkerId) (lease : LeaseId) (len : Nat) (started : Time) :
      j.claimable now = true → c.issues now db j.id = some lease → RowStep cfg now db c (some j)
        (some (j.written now (Db.claimRow now worker lease len started)))
  | ended {j j' : Job} : c.Spares now db j → j.Ending now j' → c.endsClaims = true →
      RowStep cfg now db c (some j) (some j')
  | deadlettered {j : Job} (error : String) : c.deadletters now db j = true →
      j.status = .processing →
      RowStep cfg now db c (some j) (some (j.written now (Db.deadletterRow error)))
  /-- The write of a REST fail, from counters it read earlier. -/
  | failed {j : Job} (q : Presented) (read : Int × Int) (error : String) (jitter : Nat) (t : Time) :
      c = .failWrite q read error jitter → j.heldBy now q = true → read.1 < read.2 →
      t ≤ now + Db.maxBackoff →
      RowStep cfg now db c (some j) (some (j.written now (Db.rescheduleRow error (read.1 + 1) t)))
  | unsent {j : Job} (k : JobId) (org : OrgId) (lease : LeaseId) :
      c = .releaseUnsentClaim k org lease → Db.claimedUnder k org lease j = true →
      RowStep cfg now db c (some j)
        (some (j.written now fun j => Db.clearLease { j with status := .pending }))
  | revived {j j' : Job} (st ct : Option Time) (m : Option Bool) : c.revives db j = true →
      Job.Moves now { Db.reviveRow j with
        startedAt := st, completedAt := ct, dependenciesMet := m, updatedAt := now } j' →
      RowStep cfg now db c (some j) (some j')

/-- Rows are inserted waiting, unclaimed and with no attempt made. -/
structure Job.Fresh (j : Job) : Prop where
  waiting : j.status.waiting = true
  retryCount : j.retryCount = 0
  lastError : j.lastError = none
  worker : j.assignedWorkerId = none
  lease : j.leaseId = none
  leaseExpiresAt : j.leaseExpiresAt = none

theorem Stmt.Inserts.fresh (h : c.Inserts cfg now db j) : j.Fresh := by
  cases h with
  | job q i met => exact ⟨by simp only [Db.newJob]; split <;> rfl, rfl, rfl, rfl, rfl, rfl⟩
  | step => exact ⟨rfl, rfl, rfl, rfl, rfl, rfl⟩

namespace Db

variable {cfg : Config} {c : Stmt} {db db' : Db} {now : Time} {p : Job → Bool} {f : Job → Job}

/-- Every row of `db` is moved, none is created or deleted. -/
def Rewrites (now : Time) (db db' : Db) : Prop :=
  ∀ i, Option.Rel (Job.Moves now) (db.job i) (db'.job i)

theorem Rewrites.refl (now : Time) (db : Db) : Rewrites now db db := by
  intro i
  cases db.job i with
  | none => exact .none
  | some j => exact .some .refl

theorem Rewrites.trans {db'' : Db} (h : Rewrites now db db') (h' : Rewrites now db' db'') :
    Rewrites now db db'' := by
  intro i
  have h₁ := h i
  have h₂ := h' i
  generalize db.job i = a, db'.job i = b, db''.job i = c at h₁ h₂
  cases h₁ with
  | none => cases h₂; exact .none
  | some h₁ => cases h₂ with | some h₂ => exact .some (h₁.trans h₂)

theorem Rewrites.of_jobs_eq (h : db'.jobs = db.jobs) : Rewrites now db db' := by
  have : db'.job = db.job := by funext i; simp only [job, h]
  intro i
  rw [this]
  exact Rewrites.refl now db i

theorem Rewrites.rowStep (h : Rewrites now db db') (hc : ∀ j, c.Spares now db j) (i : JobId) :
    RowStep cfg now db c (db.job i) (db'.job i) := by
  have hi := h i
  generalize db.job i = a, db'.job i = b at hi
  cases hi with
  | none => exact .absent
  | some h => exact .moved (hc _) h

variable {i : JobId} {j : Job} {n : Nat} {st : Status}

theorem Rewrites.then_delete (h : Rewrites now db db') (hc : ∀ j, c.Spares now db j)
    (hp : c.deletes now db = some p) (hid : ∀ j j', j.Moves now j' → p j' = p j) {db'' : Db}
    (h' : (∀ j, db'.job i = some j → p j = true) ∧ db''.job i = none ∨
      Option.Rel (Job.Moves now) (db'.job i) (db''.job i)) :
    RowStep cfg now db c (db.job i) (db''.job i) := by
  have h₁ := h i
  generalize db.job i = a, db'.job i = b, db''.job i = d at h₁ h'
  cases h₁ with
  | none =>
    rcases h' with ⟨-, rfl⟩ | h'
    · exact .absent
    · cases h'; exact .absent
  | some h₁ =>
    rcases h' with ⟨hgone, rfl⟩ | h'
    · exact .deleted p (hc _) hp ((hid _ _ h₁).symm.trans (hgone _ rfl))
    · cases h' with | some h₂ => exact .moved (hc _) (h₁.trans h₂)

theorem moves_written (hid : (f j).id = j.id) (h : j.Moves now (f j)) :
    j.Moves now (j.written now f) := by
  have : j.written now f = (f j).regate (f j).dependenciesMet now := by
    simp only [Job.written, Job.regate, ← hid]
  rw [this]
  exact h.tail (.regate _ _ _)

theorem rewrites_setJobs (hid : ∀ j, (f j).id = j.id)
    (h : ∀ j, p j = true → j.Moves now (f j)) : Rewrites now db (db.setJobs now p f) := by
  intro i
  rw [job_setJobs]
  cases db.job i with
  | none => exact .none
  | some j =>
    refine .some ?_
    dsimp only
    split
    · next hp => exact moves_written (hid j) (h j hp)
    · exact .refl

theorem rowStep_setStatus (hs : ∀ j, p j = true → (f j).status ≠ .completed)
    (hc : ∀ j, p j = false → c.Spares now db j)
    (h : ∀ j, p j = true → RowStep cfg now db c (some j) (some (j.written now f))) (i : JobId) :
    RowStep cfg now db c (db.job i) ((db.setStatus now p f).job i) := by
  rw [job_setStatus fun j _ hj => hs j hj]
  cases db.job i with
  | none => exact .absent
  | some j =>
    rw [Option.map_some]
    split
    · next hp => exact h j hp
    · next hp => exact .moved (hc j (by simpa using hp)) .refl

/-- A status update moves rows as `f` does; the triggers add gate changes. -/
theorem rewrites_setStatus (hid : ∀ j, (f j).id = j.id)
    (h : ∀ j, p j = true → j.Moves now (f j)) : Rewrites now db (db.setStatus now p f) := by
  refine (rewrites_setJobs hid h).trans ?_
  have ht := triggered_setStatus db now p f
  intro i
  cases hj : (db.setJobs now p f).job i with
  | none => rw [ht.absent i hj]; exact .none
  | some j =>
    obtain ⟨m, t, hj', -⟩ := ht.row i j hj
    rw [hj']
    exact .some (.single (.regate j m t))

theorem rel_deleteJobs (now : Time) (db : Db) (p : Job → Bool) (i : JobId) :
    (∀ j, db.job i = some j → p j = true) ∧ (db.deleteJobs now p).job i = none ∨
      Option.Rel (Job.Moves now) (db.job i) ((db.deleteJobs now p).job i) := by
  cases hj : db.job i with
  | none => exact .inl ⟨(fun j h => by cases h), job_deleteJobs_absent hj⟩
  | some j =>
    cases hp : p j with
    | true => exact .inl ⟨(fun j' h => by cases h; exact hp), job_deleteJobs_deleted hj hp⟩
    | false =>
      right
      obtain ⟨t, ⟨h, -⟩ | ⟨old, -, hb, h⟩⟩ :=
        (deleting_deleteJobs db now p).row i j (job_withoutRows_kept hj hp)
      · rw [h]
        exact .some (.single (.reparent j _ t))
      · rw [h]
        have hw : j.status.waiting = true := by
          simp only [blockedOn, Bool.and_eq_true] at hb
          exact hb.1.1.2
        exact .some (.tail (.single (.cancel j _ hw)) (.reparent _ _ t))

theorem rowStep_deleteJobs (hc : ∀ j, c.Spares now db j) (hp : c.deletes now db = some p)
    (i : JobId) : RowStep cfg now db c (db.job i) ((db.deleteJobs now p).job i) := by
  rcases rel_deleteJobs now db p i with ⟨hgone, hn⟩ | h
  · rw [hn]
    cases hj : db.job i with
    | none => exact .absent
    | some j => exact .deleted p (hc j) hp (hgone j hj)
  · generalize db.job i = a, (db.deleteJobs now p).job i = b at h
    cases h with
    | none => exact .absent
    | some h => exact .moved (hc _) h

/-! ## Guards -/

theorem heldBy_processing {q : Presented} (h : j.heldBy now q = true) :
    j.status = .processing := by
  simp only [Job.heldBy, Bool.and_eq_true, beq_iff_eq] at h
  exact h.1.1.1.2

theorem heldBy_leaseLive {q : Presented} (h : j.heldBy now q = true) :
    j.leaseLive now = true := by
  simp only [Job.heldBy, Bool.and_eq_true] at h
  exact h.1.1.2

theorem claimedUnder_processing {org : OrgId} {lease : LeaseId}
    (h : claimedUnder i org lease j = true) : j.status = .processing := by
  simp only [claimedUnder, Bool.and_eq_true, beq_iff_eq] at h
  exact h.2

theorem leaseExpired_processing (h : leaseExpired now j = true) :
    j.status = .processing := by
  simp only [leaseExpired, Bool.and_eq_true, beq_iff_eq] at h
  exact h.1

theorem abandoned_processing (h : db.abandoned now j = true) :
    j.status = .processing := by
  simp only [abandoned, Bool.and_eq_true, beq_iff_eq] at h
  exact h.1.1

theorem waiting_ne_completed (h : st.waiting = true) : st ≠ .completed := by
  rintro rfl; cases h

theorem lost_ne_completed (h : st.lost = true) : st ≠ .completed := by
  rintro rfl; cases h

theorem processing_ne_completed (h : st = .processing) : st ≠ .completed := by
  rintro rfl; cases h

theorem sweptAway_ne_completed (h : sweptAway j = true) : j.status ≠ .completed := by
  intro hs; simp [sweptAway, hs] at h

/-! ## Transactions of several statements -/

theorem rowStep_deadletterWhere {error : String} (h : ∀ j, p j = true → j.status = .processing)
    (hc : ∀ j, c.deadletters now db j = p j) (hc' : ∀ j, p j = false → c.Spares now db j)
    (i : JobId) : RowStep cfg now db c (db.job i) ((db.deadletterWhere now error p).job i) :=
  rowStep_setStatus (f := deadletterRow error) (by simp) hc'
    (fun j hj => .deadlettered error ((hc j).trans hj) (h j hj)) i

theorem rewrites_cancelWhere {reason : String} (h : ∀ j, p j = true → j.status.waiting = true) :
    Rewrites now db (db.cancelWhere now reason p) :=
  rewrites_setStatus (fun _ => rfl) fun j hj => .single (.cancel j _ (h j hj))

theorem blockedBy_waiting {gone : JobId → Bool} (h : db.blockedBy gone j = true) :
    j.status.waiting = true := by
  simp only [blockedBy, Bool.and_eq_true] at h
  exact h.1.1

theorem moves_reopenRow {org : OrgId} {frontier : List JobId}
    (h : db.reopens org frontier j = true) : j.Moves now (db.reopenRow now j) := by
  have hs : sweptAway j = true := by
    simp only [reopens, Bool.and_eq_true] at h
    exact h.1.1.1.1.2
  have hst : (if j.scheduledAt.any (now < ·) then Status.scheduled else .pending).waiting = true := by
    split <;> rfl
  exact .tail (.single (.reopen j _ hs hst)) (.regate _ _ j.updatedAt)

variable (q : Presented) (k : JobId) (w : WorkflowId) (org : OrgId)

theorem rewrites_reopenAround (db : Db) (retried : List JobId) :
    Rewrites now db (db.reopenAround now org retried) := by
  have h₁ := reopenLevels_rel org (Rewrites.refl now) (fun _ _ _ => Rewrites.trans)
    (fun d frontier => rewrites_setStatus (fun _ => rfl) fun j hj => moves_reopenRow hj)
    maxReopenDepth db retried
  exact h₁.trans (.of_jobs_eq rfl)

theorem rewrites_dropDeadLetters (db : Db) (ids : List JobId) :
    Rewrites now db (db.dropDeadLetters org ids) := .of_jobs_eq rfl

theorem rowStep_unchanged (hc : ∀ j, db.job i = some j → c.Spares now db j) :
    RowStep cfg now db c (db.job i) (db.job i) := by
  cases hj : db.job i with
  | none => exact .absent
  | some j => exact .moved (hc j hj) .refl

/-- A retry resets the rows among `p` and then moves rows. -/
theorem rowStep_revive (hs : ∀ j, (f j).status ≠ .completed)
    (hc : ∀ j, p j = false → c.Spares now db j)
    (hf : ∀ j, p j = true → c.revives db j = true ∧ ∃ st ct m, j.written now f =
      { reviveRow j with startedAt := st, completedAt := ct, dependenciesMet := m, updatedAt := now })
    (h : Rewrites now (db.setStatus now p f) db') (i : JobId) :
    RowStep cfg now db c (db.job i) (db'.job i) := by
  have hi := h i
  rw [job_setStatus fun j _ _ => hs j] at hi
  generalize db'.job i = b at hi
  cases hj : db.job i with
  | none =>
    rw [hj] at hi
    cases hi
    exact .absent
  | some j =>
    rw [hj, Option.map_some] at hi
    cases hi with
    | some hm =>
      split at hm
      · next hp =>
        obtain ⟨hrev, st, ct, m, heq⟩ := hf j hp
        exact .revived st ct m hrev (heq ▸ hm)
      · next hp => exact .moved (hc j (by simpa using hp)) hm

theorem rowStep_retryJob (i : JobId) :
    RowStep cfg now db (.retryJob k org) (db.job i) ((db.retryJob now k org).job i) := by
  unfold retryJob
  split
  · exact rowStep_revive (c := .retryJob k org) (p := db.retryable k org) (f := reviveRow)
      (by simp) (fun j hj => ⟨rfl, rfl, hj⟩) (fun j hj => ⟨hj, _, _, _, rfl⟩)
      ((rewrites_dropDeadLetters org _ _).trans (rewrites_reopenAround org _ _)) i
  · next hno =>
    refine rowStep_unchanged fun j hj => ⟨rfl, rfl, ?_⟩
    exact Bool.eq_false_iff.2 fun h => hno (any_eq_true.2 ⟨j, job_mem hj, h⟩)

theorem rewrites_resetChildren (db : Db) (ids : List JobId) :
    Rewrites now db (db.resetChildren now org ids) :=
  rewrites_setJobs (fun _ => rfl) fun j _ => .single (.regate j _ j.updatedAt)

theorem rowStep_retryDlq (pick : JobId → Bool) (i : JobId) :
    RowStep cfg now db (.retryDlq org pick) (db.job i) ((db.retryDlq now org pick).job i) := by
  unfold retryDlq
  dsimp only
  split
  · next hno =>
    refine rowStep_unchanged fun j hj => ⟨rfl, rfl, ?_⟩
    simp only [List.isEmpty_iff, map_eq_nil_iff, filter_eq_nil_iff] at hno
    exact Bool.eq_false_iff.2 (hno j (job_mem hj))
  · exact rowStep_revive (c := .retryDlq org pick) (p := db.dlqRetryable org pick) (f := reviveRow)
      (by simp) (fun j hj => ⟨rfl, rfl, hj⟩) (fun j hj => ⟨hj, _, _, _, rfl⟩)
      ((rewrites_dropDeadLetters org _ _).trans
        ((rewrites_resetChildren org _ _).trans (rewrites_reopenAround org _ _))) i

theorem rowStep_retryWorkflow (i : JobId) :
    RowStep cfg now db (.retryWorkflow w org) (db.job i) ((db.retryWorkflow now w org).job i) := by
  unfold retryWorkflow
  split
  · next hw =>
    refine rowStep_revive (p := workflowRetryable w org) (f := db.resetRow) (by simp)
      (fun j hj => ⟨rfl, rfl, ?_⟩) (fun j hj => ⟨?_, _, _, _, rfl⟩) (.of_jobs_eq rfl) i
    · rw [Stmt.revives, hj, Bool.and_false]
    · rw [Stmt.revives, hw, hj]; rfl
  · next hw =>
    refine rowStep_unchanged fun j _ => ⟨rfl, rfl, ?_⟩
    rw [Stmt.revives, Bool.eq_false_iff.2 hw, Bool.false_and]

theorem rewrites_cancelWorkflow :
    Rewrites now db (db.cancelWorkflow now w org) := by
  unfold cancelWorkflow
  split
  · have h₁ : Rewrites now db (db.setLiveWorkflow w fun x =>
        { x with status := .cancelled, completedAt := some now }) := .of_jobs_eq rfl
    refine h₁.trans (rewrites_setStatus (fun _ => rfl) fun j hj => .single (.cancel j _ ?_))
    simp only [Bool.and_eq_true] at hj
    exact hj.2
  · exact .refl now db

theorem job_insertEdge (i d k : JobId) : (db.insertEdge i d).job k = db.job k := by
  unfold insertEdge
  split <;> rfl

theorem foldl_insertEdge_jobs (i : JobId) (ds : List JobId) (db : Db) :
    (ds.foldl (fun db d => db.insertEdge i d) db).jobs = db.jobs := by
  induction ds generalizing db with
  | nil => rfl
  | cons d ds ih =>
    rw [foldl_cons, ih]
    unfold insertEdge
    split <;> rfl

theorem rewrites_addDependencies (i : JobId) (ds : List JobId)
    (mode : Option DependencyMode) : Rewrites now db (db.addDependencies now org i ds mode) := by
  unfold addDependencies
  split
  · dsimp only
    split
    · exact .refl now db
    · refine Rewrites.trans ?_
        (rewrites_setJobs (fun _ => rfl) fun j _ => .single (.regate j _ j.updatedAt))
      refine Rewrites.trans ?_ (rewrites_setJobs (fun _ => rfl) fun j _ => .single (.setMode j _))
      exact .of_jobs_eq (foldl_insertEdge_jobs i ds db)
  · exact .refl now db

theorem rowStep_deadLetterOversized (lease : LeaseId) (reason : String)
    (i : JobId) : RowStep cfg now db (.deadLetterOversized k org lease reason) (db.job i)
      ((db.deadLetterOversized now k org lease reason).job i) := by
  have h₁ : ((db.deadLetterOversized now k org lease reason).job i) =
      (db.job i).map fun j => if claimedUnder k org lease j then
        j.written now (deadletterRow reason) else j := by
    change ((Db.setStatus _ now _ _).job i) = _
    rw [job_setStatus (by simp), job_setJobs, Option.map_map]
    congr 1
    funext j
    by_cases hc : claimedUnder k org lease j = true
    · have hc' : claimedUnder k org lease (j.written now fun j =>
          { j with leaseExpiresAt := some now }) = true := hc
      simp only [Function.comp_apply, hc, hc', if_true]
      rfl
    · simp [hc]
  rw [h₁]
  cases db.job i with
  | none => exact .absent
  | some j =>
    rw [Option.map_some]
    split
    · next hc => exact .deadlettered reason hc (claimedUnder_processing hc)
    · next hc => exact .moved ⟨rfl, Bool.eq_false_iff.2 hc, rfl⟩ .refl

theorem rowStep_cleanupExpired (pick : JobId → Bool) (hc : ∀ j, c.Spares now db j)
    (hp : c.deletes now db = some fun j => db.expires now pick j.id) (i : JobId) :
    RowStep cfg now db c (db.job i) ((db.cleanupExpired now pick).job i) := by
  set gone := db.expires now pick with hgone
  have h₁ : Rewrites now db (db.cancelExpiredChildren now gone) :=
    rewrites_cancelWhere fun j hj => by
      simp only [Bool.and_eq_true] at hj
      exact blockedBy_waiting hj.2
  have h₂ : Rewrites now (db.cancelExpiredChildren now gone)
      ((db.cancelExpiredChildren now gone).cancelExpiredDependents now gone) :=
    rewrites_setStatus (fun _ => rfl) fun j hj => by
      simp only [Bool.and_eq_true] at hj
      exact .single (.cancel j _ (blockedBy_waiting hj.1))
  exact (h₁.trans h₂).then_delete hc hp (fun j j' h => by rw [h.id]) (rel_deleteJobs now _ _ i)

/-! ## Claims -/

theorem mem_selectForClaim (h : i ∈ db.selectForClaim p n) :
    ∃ j ∈ db.jobs.rows, p j = true ∧ j.id = i := by
  obtain ⟨j, hj, rfl⟩ := mem_map.1 h
  have hj' := (mem_insertionSort _).1 (mem_of_mem_take hj)
  obtain ⟨hm, hp⟩ := mem_filter.1 hj'
  exact ⟨j, hm, hp, rfl⟩

theorem of_mem_selectForClaim (hj : db.job i = some j)
    (h : j.id ∈ db.selectForClaim p n) : p j = true := by
  obtain ⟨j', hm, hp, hid⟩ := mem_selectForClaim h
  have := job_of_mem hm
  rw [hid, job_id hj, hj] at this
  cases this
  exact hp

theorem eligible_claimable {q : ClaimRequest} (h : q.eligible now j = true) :
    j.claimable now = true := by
  simp only [ClaimRequest.eligible, Bool.and_eq_true] at h
  exact h.1.1.2

theorem issues_claimable {lease : LeaseId} (hj : db.job i = some j)
    (h : c.issues now db i = some lease) : j.claimable now = true := by
  have hid := job_id hj
  cases c with
  | claimBatch | dequeue =>
    simp only [Stmt.issues] at h
    split at h <;> cases h
    next hi => exact eligible_claimable (of_mem_selectForClaim hj (hid ▸ hi))
  | claimJob =>
    simp only [Stmt.issues] at h
    split at h <;> cases h
    next hi =>
    have he := of_mem_selectForClaim hj (hid ▸ hi)
    rw [Bool.and_eq_true] at he
    exact eligible_claimable he.1
  | _ => cases h

theorem rowStep_claim (worker : WorkerId) (lease : Job → LeaseId) (len : Nat)
    (started : Job → Time)
    (hl : ∀ j, j.id ∈ db.selectForClaim p n → c.issues now db j.id = some (lease j))
    (hc : ∀ j, j.id ∉ db.selectForClaim p n → c.Spares now db j)
    (hp : ∀ j, p j = true → j.claimable now = true) (i : JobId) :
    RowStep cfg now db c (db.job i) ((db.setStatus now (fun j => j.id ∈ db.selectForClaim p n)
      fun j => claimRow now worker (lease j) len (started j) j).job i) := by
  rw [job_setStatus (fun _ _ _ => by simp)]
  cases hj : db.job i with
  | none => exact .absent
  | some j =>
    rw [Option.map_some]
    by_cases hsel : j.id ∈ db.selectForClaim p n
    · rw [if_pos (by simpa using hsel)]
      exact .claimed worker (lease j) len (started j) (hp j (of_mem_selectForClaim hj hsel))
        (hl j hsel)
    · rw [if_neg (by simpa using hsel)]
      exact .moved (hc j hsel) .refl

/-! ## Fails -/

theorem rowStep_failWrite (read : Int × Int) (error : String) (jitter : Nat)
    (i : JobId) : RowStep cfg now db (.failWrite q read error jitter) (db.job i)
      ((db.failWrite now q read error jitter).job i) := by
  unfold failWrite
  split
  · next hr =>
    have hno : ∀ j, (Stmt.failWrite q read error jitter).Spares now db j :=
      fun j => ⟨rfl, by simp [Stmt.deadletters, hr], rfl⟩
    exact rowStep_setStatus (by simp) (fun j _ => hno j)
      (fun j hj => .failed q read error jitter _ rfl hj hr (backoff_le now read.1 jitter)) i
  · next hr =>
    have hd : ∀ j, (Stmt.failWrite q read error jitter).deadletters now db j = j.heldBy now q := by
      intro j
      simp [Stmt.deadletters, not_lt.1 hr]
    exact rowStep_deadletterWhere (fun _ => heldBy_processing) hd
      (fun j hj => ⟨rfl, (hd j).trans hj, rfl⟩) i

theorem rowStep_failGrpc (retry : Bool) (error : String) (i : JobId) :
    RowStep cfg now db (.failGrpc q retry error) (db.job i)
      ((db.failGrpc now q retry error).job i) := by
  refine rowStep_setStatus (p := (·.heldBy now q)) (f := fun j =>
    if grpcDeadletters retry j then deadletterRow error j
    else rescheduleRow error (j.retryCount + 1) (now + secs (backoffSecs j.retryCount)) j)
    (fun j _ => by split <;> simp) (fun j hj => ⟨rfl, by simp [Stmt.deadletters, hj], rfl⟩)
    (fun j hj => ?_) i
  have hs := heldBy_processing hj
  by_cases hd : grpcDeadletters retry j = true
  · simp only [Job.written, hd, if_true]
    exact .deadlettered error (by simp [Stmt.deadletters, hj, hd]) hs
  · simp only [Job.written, hd]
    simp only [grpcDeadletters, Bool.or_eq_true, decide_eq_true_eq, not_or, not_le] at hd
    refine .ended ⟨rfl, by simp [Stmt.deadletters, grpcDeadletters, hd], rfl⟩
      (.reschedule j error _ hs hd.2 ?_) rfl
    exact Nat.le_trans (Nat.le_add_right _ _) (backoff_le now j.retryCount 0)

/-! ## Inserts -/

theorem job_insertJob (j : Job) (i : JobId) : (db.insertJob j).job i =
    if i = j.id ∧ db.job i = none then some j else db.job i :=
  Table.find_insert db.jobs j i

theorem rowStep_createJob (q : CreateRequest) (k : JobId) (met : Bool) (i : JobId) :
    RowStep cfg now db (.createJob q k met) (db.job i)
      ((db.createJob now cfg.defaultMaxRetries q k met).job i) := by
  unfold createJob
  split
  · rw [job_insertJob]
    split
    · next h => rw [h.2]; exact .created (.job q k met)
    · exact rowStep_unchanged fun _ _ => ⟨rfl, rfl, rfl⟩
  · exact rowStep_unchanged fun _ _ => ⟨rfl, rfl, rfl⟩

theorem find_foldl_insert (js : List Job) (t : Table JobId Job Job.id) (i : JobId) :
    (js.foldl (fun t j => t.insert j) t).find i = t.find i ∨
      t.find i = none ∧ ∃ j ∈ js, j.id = i ∧ (js.foldl (fun t j => t.insert j) t).find i = some j := by
  induction js generalizing t with
  | nil => exact .inl rfl
  | cons j js ih =>
    rw [foldl_cons]
    have hins := Table.find_insert t j i
    by_cases hc : i = j.id ∧ t.find i = none
    · rw [if_pos hc] at hins
      refine .inr ⟨hc.2, j, mem_cons_self, hc.1.symm, ?_⟩
      rcases ih (t.insert j) with h | ⟨hn, -⟩
      · rw [h, hins]
      · rw [hins] at hn; cases hn
    · rw [if_neg hc] at hins
      rcases ih (t.insert j) with h | ⟨hn, j', hj', hid, h⟩
      · exact .inl (h.trans hins)
      · exact .inr ⟨hins ▸ hn, j', mem_cons_of_mem _ hj', hid, h⟩

theorem rowStep_createWorkflow (w : WorkflowId) (base : JobId)
    (defs : List StepDef) (i : JobId) :
    RowStep cfg now db (.createWorkflow org w base defs) (db.job i)
      ((db.createWorkflow now cfg.defaultMaxRetries org w base defs).job i) := by
  set js := defs.zipIdx.map fun x =>
    db.stepJob now cfg.defaultMaxRetries org w (base + x.2) x.1 with hjs
  have hjob : (db.createWorkflow now cfg.defaultMaxRetries org w base defs).job i =
      (js.foldl (fun t j => t.insert j) db.jobs).find i := rfl
  rw [hjob]
  rcases find_foldl_insert js db.jobs i with h | ⟨hn, j, hj, -, h⟩
  · rw [h]
    exact rowStep_unchanged fun _ _ => ⟨rfl, rfl, rfl⟩
  · obtain ⟨⟨d, k⟩, hdk, rfl⟩ := mem_map.1 hj
    rw [h, job, hn]
    exact .created (.step org w base defs d k hdk)

/-! ## Completion -/

theorem rowStep_complete (i : JobId) :
    RowStep cfg now db (.complete q) (db.job i) ((db.complete now q).job i) := by
  have ht := triggered_setStatus db now (·.heldBy now q) fun j =>
    { j with status := .completed, completedAt := some now }
  cases hj : db.job i with
  | none =>
    rw [complete, ht.absent i (by rw [job_setJobs, hj]; rfl)]
    exact .absent
  | some j =>
    obtain ⟨m, t, h', -⟩ := ht.row i _ (job_setJobs_some hj)
    rw [complete, h']
    split
    · next hh => exact .ended ⟨rfl, rfl, rfl⟩ (.complete j m t (heldBy_processing hh)) rfl
    · exact .moved ⟨rfl, rfl, rfl⟩ (.single (.regate j m t))

end Db

/-! ## The inversion lemma -/

/-- **What a statement can do to a row.** -/
theorem Stmt.exec_rowStep (cfg : Config) (now : Time) (db : Db) (c : Stmt) (i : JobId) :
    RowStep cfg now db c (db.job i) ((c.exec cfg now db).job i) := by
  -- most statements claim, dead-letter and reset nothing
  have same : (∀ j, c.Spares now db j) → ∀ {d : Db}, d.jobs = db.jobs →
      RowStep cfg now db c (db.job i) (d.job i) :=
    fun hc _ h => (Db.Rewrites.of_jobs_eq h).rowStep hc i
  have moves : (∀ j, c.Spares now db j) → ∀ {d : Db}, Db.Rewrites now db d →
      RowStep cfg now db c (db.job i) (d.job i) :=
    fun hc _ h => h.rowStep hc i
  cases c with
  | claimBatch stem n q =>
    refine Db.rowStep_claim q.worker (fun j => .batch stem j.id) _ _ (fun j h => ?_)
      (fun j h => ⟨?_, rfl, rfl⟩) (fun _ => Db.eligible_claimable) i
    · exact if_pos h
    · exact if_neg h
  | dequeue lease q =>
    refine Db.rowStep_claim q.worker (fun _ => .single lease) _ _ (fun j h => ?_)
      (fun j h => ⟨?_, rfl, rfl⟩) (fun _ => Db.eligible_claimable) i
    · exact if_pos h
    · exact if_neg h
  | claimJob lease q =>
    refine Db.rowStep_claim q.worker (fun _ => .single lease) _ (fun j => j.startedAt.getD now)
      (fun j h => ?_) (fun j h => ⟨?_, rfl, rfl⟩) (fun j hj => ?_) i
    · exact if_pos h
    · exact if_neg h
    · exact Db.eligible_claimable (Bool.and_eq_true _ _ ▸ hj).1
  | complete q => exact Db.rowStep_complete q i
  | recomputeChildren | recomputeCompletedParents | unblockOrphans | recomputeGate =>
    refine moves (fun _ => ⟨rfl, rfl, rfl⟩) ?_
    exact Db.rewrites_setJobs (fun _ => rfl) fun j _ => .single (.regate j _ j.updatedAt)
  | failWrite q read error jitter => exact Db.rowStep_failWrite q read error jitter i
  | failGrpc q retry error => exact Db.rowStep_failGrpc q retry error i
  | renewLeaseFor | renewLease =>
    refine moves (fun _ => ⟨rfl, rfl, rfl⟩) ?_
    exact Db.rewrites_setJobs (fun _ => rfl) fun j hj =>
      .single (.renew j _ _ (Db.heldBy_processing hj) (Db.heldBy_leaseLive hj))
  | releaseUnsentClaim k org lease =>
    exact Db.rowStep_setStatus (by simp) (fun _ _ => ⟨rfl, rfl, rfl⟩)
      (fun j hj => .unsent k org lease rfl hj) i
  | deadLetterOversized k org lease reason =>
    exact Db.rowStep_deadLetterOversized k org lease reason i
  | releaseDeregistered worker org =>
    refine Db.rowStep_setStatus (by simp) (fun _ _ => ⟨rfl, rfl, rfl⟩)
      (fun j hj => .ended ⟨rfl, rfl, rfl⟩ (.release j _ ?_ ?_) rfl) i
    · simp only [Bool.and_eq_true, beq_iff_eq] at hj; exact hj.1.1.2
    · simp only [Bool.and_eq_true, decide_eq_true_eq] at hj; exact hj.1.2
  | activateScheduledJobs =>
    refine moves (fun _ => ⟨rfl, rfl, rfl⟩) ?_
    refine Db.rewrites_setStatus (fun _ => rfl) fun j hj => .single (.activate j ?_)
    simp only [Bool.and_eq_true, beq_iff_eq] at hj; exact hj.1
  | recoverExpiredLeases =>
    refine Db.rowStep_setStatus (by simp) (fun _ _ => ⟨rfl, rfl, rfl⟩) (fun j hj => ?_) i
    simp only [Bool.and_eq_true, decide_eq_true_eq] at hj
    exact .ended ⟨rfl, rfl, rfl⟩ (.release j _ (Db.leaseExpired_processing hj.1) hj.2) rfl
  | deadletterExpiredLeases =>
    refine Db.rowStep_deadletterWhere (fun j hj => ?_) (fun _ => rfl)
      (fun j hj => ⟨rfl, hj, rfl⟩) i
    simp only [Stmt.deadletters, Bool.and_eq_true] at hj
    exact Db.leaseExpired_processing hj.1
  | releaseOfflineWorkers =>
    refine Db.rowStep_setStatus (by simp) (fun _ _ => ⟨rfl, rfl, rfl⟩) (fun j hj => ?_) i
    simp only [Bool.and_eq_true, decide_eq_true_eq] at hj
    exact .ended ⟨rfl, rfl, rfl⟩ (.release j _ (Db.abandoned_processing hj.1) hj.2) rfl
  | deadletterOfflineWorkers =>
    refine Db.rowStep_deadletterWhere (fun j hj => ?_) (fun _ => rfl)
      (fun j hj => ⟨rfl, hj, rfl⟩) i
    simp only [Stmt.deadletters, Bool.and_eq_true] at hj
    exact Db.abandoned_processing hj.1
  | cancelParentFailed =>
    refine moves (fun _ => ⟨rfl, rfl, rfl⟩) ?_
    refine Db.rewrites_cancelWhere fun j hj => ?_
    simp only [Db.parentDooms, Bool.and_eq_true] at hj; exact hj.1.1
  | cancelDependencyFailed =>
    refine moves (fun _ => ⟨rfl, rfl, rfl⟩) ?_
    refine Db.rewrites_cancelWhere fun j hj => ?_
    simp only [Db.edgesDoom, Bool.and_eq_true] at hj; exact hj.1.1
  | cleanupFinished | cleanupFailed | purgeDlq | deleteQueue =>
    exact Db.rowStep_deleteJobs (fun _ => ⟨rfl, rfl, rfl⟩) rfl i
  | cleanupExpired pick => exact Db.rowStep_cleanupExpired pick (fun _ => ⟨rfl, rfl, rfl⟩) rfl i
  | createJob q k met => exact Db.rowStep_createJob q k met i
  | insertEdge k d =>
    refine moves (fun _ => ⟨rfl, rfl, rfl⟩) fun k' => ?_
    rw [exec, Db.job_insertEdge]
    exact Db.Rewrites.refl now db k'
  | createWorkflow org w base defs => exact Db.rowStep_createWorkflow org w base defs i
  | addDependencies org k ds mode =>
    refine moves (fun _ => ⟨rfl, rfl, rfl⟩) ?_
    exact Db.rewrites_addDependencies org k ds mode
  | cancelJob k org =>
    refine moves (fun _ => ⟨rfl, rfl, rfl⟩) ?_
    refine Db.rewrites_setStatus (fun _ => rfl) fun j hj => .single (.cancel j _ ?_)
    simp only [Bool.and_eq_true] at hj; exact hj.2
  | boostPriority k org n =>
    refine moves (fun _ => ⟨rfl, rfl, rfl⟩) ?_
    exact Db.rewrites_setJobs (fun _ => rfl) fun j _ => .single (.setPriority j n)
  | cancelWorkflow w org =>
    refine moves (fun _ => ⟨rfl, rfl, rfl⟩) ?_
    exact Db.rewrites_cancelWorkflow w org
  | retryJob k org => exact Db.rowStep_retryJob k org i
  | retryDlq org pick => exact Db.rowStep_retryDlq org pick i
  | retryWorkflow w org => exact Db.rowStep_retryWorkflow w org i
  | markStaleWorkers | startWorkflows | terminateWorkflows | cleanupWorkflows
  | cleanupDeadLetters | upsertWorker | putQueueConfig => exact same (fun _ => ⟨rfl, rfl, rfl⟩) rfl

/-! ## What no statement changes -/

/-- `j` and `j'` are one job: the columns no statement assigns. -/
structure Job.SameJob (j j' : Job) : Prop where
  id : j'.id = j.id
  organizationId : j'.organizationId = j.organizationId
  queueName : j'.queueName = j.queueName
  workflowId : j'.workflowId = j.workflowId

theorem Job.Moves.sameJob (h : j.Moves now j') : j.SameJob j' := by
  induction h with
  | refl => exact ⟨rfl, rfl, rfl, rfl⟩
  | tail _ hm ih => cases hm <;> exact ⟨ih.id, ih.organizationId, ih.queueName, ih.workflowId⟩

theorem RowStep.sameJob (h : RowStep cfg now db c (some j) (some j')) : j.SameJob j' := by
  cases h with
  | moved _ hm => exact hm.sameJob
  | ended _ he => cases he <;> exact ⟨rfl, rfl, rfl, rfl⟩
  | revived _ _ _ _ hm =>
    have h := hm.sameJob
    exact ⟨h.id, h.organizationId, h.queueName, h.workflowId⟩
  | claimed | deadlettered | failed | unsent => exact ⟨rfl, rfl, rfl, rfl⟩

/-- The row runs no more: completed, or cancelled with a `last_error` by which no retry re-opens it. -/
def Job.closed (j : Job) : Bool :=
  j.status == .completed || j.status == .cancelled && !Db.sweptAway j

theorem Job.closed_iff : j.closed = true ↔
    j.status = .completed ∨ j.status = .cancelled ∧ Db.sweptAway j = false := by
  simp [Job.closed]

theorem Job.not_closed (h : j.status ≠ .completed) (h' : j.status ≠ .cancelled) :
    j.closed = false := by
  simp [Job.closed, h, h']

theorem Job.not_closed_of_waiting (h : j.status.waiting = true) : j.closed = false := by
  refine not_closed ?_ ?_ <;> intro hs <;> rw [hs] at h <;> cases h

theorem Job.not_closed_of_processing (h : j.status = .processing) : j.closed = false := by
  refine not_closed ?_ ?_ <;> simp [h]

theorem Job.not_closed_of_lost (h : j.status.lost = true) : j.closed = false := by
  refine not_closed ?_ ?_ <;> intro hs <;> rw [hs] at h <;> cases h

theorem Job.not_closed_of_sweptAway (h : Db.sweptAway j = true) : j.closed = false := by
  rw [Bool.eq_false_iff, ne_eq, closed_iff]
  rintro (hs | ⟨-, hs⟩)
  · exact Db.sweptAway_ne_completed h hs
  · rw [h] at hs; cases hs

theorem Job.Moves.closed (h : j.Moves now j') (hc : j.closed = true) :
    j'.closed = true ∧ j'.status = j.status := by
  induction h with
  | refl => exact ⟨hc, rfl⟩
  | tail _ hm ih =>
    obtain ⟨hc', hst⟩ := ih
    have hno : ∀ {x : Job}, x.closed = true → x.closed = false → False := fun h h' => by simp [h] at h'
    cases hm with
    | regate | setMode | setPriority | reparent => exact ⟨hc', hst⟩
    | renew _ _ hs => exact (hno hc' (not_closed_of_processing hs)).elim
    | cancel _ hs => exact (hno hc' (not_closed_of_waiting hs)).elim
    | activate hs => exact (hno hc' (not_closed_of_waiting (by rw [hs]; rfl))).elim
    | reopen _ hs _ => exact (hno hc' (not_closed_of_sweptAway hs)).elim

theorem revives_status (h : c.revives db j = true) : j.status.lost = true ∨ Db.sweptAway j = true := by
  cases c with
  | retryJob i org =>
    simp only [Stmt.revives, Db.retryable, Bool.and_eq_true] at h
    exact .inl h.1.2
  | retryDlq org pick =>
    simp only [Stmt.revives, Db.dlqRetryable, Bool.and_eq_true, beq_iff_eq] at h
    rw [h.1.1.2]
    exact .inl rfl
  | retryWorkflow w org =>
    simp only [Stmt.revives, Db.workflowRetryable, Bool.and_eq_true, Bool.or_eq_true] at h
    exact h.2.2
  | _ => cases h

theorem RowStep.closed (h : RowStep cfg now db c (some j) (some j')) (hc : j.closed = true) :
    j'.closed = true ∧ j'.status = j.status := by
  have hno : j.closed ≠ false := by simp [hc]
  have hproc : j.status ≠ .processing := fun hs => hno (Job.not_closed_of_processing hs)
  cases h with
  | moved _ hm => exact hm.closed hc
  | claimed _ _ _ _ hcl =>
    simp only [Job.claimable, Bool.and_eq_true] at hcl
    exact absurd (Job.not_closed_of_waiting hcl.1.1.1) hno
  | ended _ he =>
    cases he with
    | complete _ _ hs | reschedule _ _ hs | release _ hs => exact absurd hs hproc
  | deadlettered _ _ hs => exact absurd hs hproc
  | failed _ _ _ _ _ _ hh => exact absurd (Db.heldBy_processing hh) hproc
  | unsent _ _ _ _ hu => exact absurd (Db.claimedUnder_processing hu) hproc
  | revived _ _ _ hr =>
    exact absurd ((revives_status hr).elim Job.not_closed_of_lost Job.not_closed_of_sweptAway) hno

theorem RowStep.completed (h : RowStep cfg now db c (some j) (some j'))
    (hc : j.status = .completed) : j'.status = .completed :=
  (h.closed (Job.closed_iff.2 (.inl hc))).2.trans hc

/-! ## The other tables -/

/-- The statements that write dead letters, workers or queue settings. -/
def Stmt.writesRest : Stmt → Bool
  | .failWrite .. | .failGrpc .. | .deadLetterOversized .. | .deadletterExpiredLeases
  | .deadletterOfflineWorkers | .markStaleWorkers | .cleanupDeadLetters .. | .retryJob ..
  | .retryDlq .. | .purgeDlq .. | .deleteQueue .. | .upsertWorker .. | .putQueueConfig .. => true
  | _ => false

theorem Stmt.exec_frame (cfg : Config) (now : Time) (db : Db) (c : Stmt)
    (hc : c.writesRest = false) : Db.Frame db (c.exec cfg now db) := by
  cases c with
  | claimBatch | dequeue | claimJob | complete | releaseUnsentClaim | releaseDeregistered
  | activateScheduledJobs | recoverExpiredLeases | releaseOfflineWorkers | cancelParentFailed
  | cancelDependencyFailed | cancelJob => exact Db.frame_setStatus _ _ _ _
  | recomputeChildren | renewLeaseFor | renewLease | recomputeCompletedParents | unblockOrphans
  | recomputeGate | boostPriority => exact Db.frame_setJobs _ _ _ _
  | startWorkflows | terminateWorkflows | cleanupWorkflows | createWorkflow => exact ⟨rfl, rfl, rfl⟩
  | cleanupFinished | cleanupFailed => exact Db.frame_deleteJobs _ _ _
  | cleanupExpired => exact Db.frame_cleanupExpired _ _ _
  | createJob => exact Db.frame_createJob _ _ _ _ _ _
  | insertEdge => exact Db.frame_insertEdge _ _ _
  | addDependencies => exact Db.frame_addDependencies _ _ _ _ _ _
  | cancelWorkflow => exact Db.frame_cancelWorkflow _ _ _ _
  | retryWorkflow => exact Db.frame_retryWorkflow _ _ _ _
  | _ => cases hc

theorem Stmt.exec_queueConfig (cfg : Config) (now : Time) (db : Db) (c : Stmt) {x : QueueConfig}
    (hx : x ∈ (c.exec cfg now db).queueConfig) : x ∈ db.queueConfig ∨ c = .putQueueConfig x := by
  cases hc : c.writesRest with
  | false => rw [(c.exec_frame cfg now db hc).queueConfig] at hx; exact .inl hx
  | true =>
    cases c with
    | putQueueConfig y =>
      rcases mem_cons.1 hx with rfl | hx
      · exact .inr rfl
      · exact .inl (mem_filter.1 hx).1
    | deleteQueue org queue =>
      have hx := (mem_filter.1 hx).1
      rw [(Db.frame_deleteJobs db now _).queueConfig] at hx
      exact .inl hx
    | failWrite q read error jitter =>
      left
      simp only [exec, Db.failWrite, Db.deadletterWhere, Db.insertDeadLetters] at hx
      split at hx
      · simpa using hx
      · simpa using hx
    | failGrpc | deadLetterOversized | deadletterExpiredLeases | deadletterOfflineWorkers =>
      left
      simpa [exec, Db.failGrpc, Db.deadLetterOversized, Db.deadletterExpiredLeases,
        Db.deadletterOfflineWorkers, Db.deadletterWhere, Db.insertDeadLetters] using hx
    | markStaleWorkers | cleanupDeadLetters | upsertWorker => exact .inl hx
    | purgeDlq org pick =>
      left
      have hx : x ∈ (db.deleteJobs now _).queueConfig := hx
      rwa [(Db.frame_deleteJobs db now _).queueConfig] at hx
    | retryJob i org =>
      left
      simp only [exec, Db.retryJob] at hx
      split at hx
      · rw [(Db.frame_reopenAround _ _ _ _).queueConfig] at hx
        simpa [Db.dropDeadLetters] using hx
      · exact hx
    | retryDlq org pick =>
      left
      simp only [exec, Db.retryDlq] at hx
      split at hx
      · exact hx
      · rw [(Db.frame_reopenAround _ _ _ _).queueConfig] at hx
        simpa [Db.dropDeadLetters, Db.resetChildren] using hx
    | _ => cases hc

/-! ## Steps of the system -/

namespace Sys

variable {cfg : Config} {s s' : Sys} {a : Label} {c : Stmt} {k : Sys → Sys}

/-- The labels that run a statement, and where the statement comes from. -/
inductive Acts (s : Sys) : Label → Stmt → (Sys → Sys) → Prop
  | stmt (c : Stmt) : c.direct s.uuid = true → Acts s (.stmt c) c id
  | failWrite (n : Nat) (q : Presented) (read : Int × Int) (error : String) (jitter : Nat) :
      s.pending[n]? = some (.fail q read) →
      Acts s (.failWrite n error jitter) (.failWrite q read error jitter) (·.resume n [])
  | createInsert (n : Nat) (q : CreateRequest) (met : Bool) :
      s.pending[n]? = some (.create q met) →
      Acts s (.createInsert n) (.createJob q s.uuid met)
        fun s' => s'.resume n (s'.afterInsert q met s.uuid)
  | createLink (n : Nat) (child parent : JobId) (org : OrgId) :
      s.pending[n]? = some (.link child parent org) →
      Acts s (.createLink n) (.insertEdge child parent) fun s' => s'.resume n
        (if (s.db.job child).isSome && (s.db.job parent).isSome then [.recompute child org] else [])
  | createRecompute (n : Nat) (child : JobId) (org : OrgId) :
      s.pending[n]? = some (.recompute child org) →
      Acts s (.createRecompute n) (.recomputeGate child org) (·.resume n [])
  | claimJob (q : ClaimRequest) :
      Acts s (.claimJob q) (.claimJob s.uuid q)
        fun s' => { s' with pending := s.buffers q ++ s'.pending }
  | releaseUnsent (n : Nat) (i : JobId) (org : OrgId) (lease : LeaseId) :
      s.pending[n]? = some (.buffered i org lease) →
      Acts s (.releaseUnsent n) (.releaseUnsentClaim i org lease) (·.resume n [])
  | oversized (n : Nat) (i : JobId) (org : OrgId) (lease : LeaseId) (reason : String) :
      s.pending[n]? = some (.buffered i org lease) →
      Acts s (.oversized n reason) (.deadLetterOversized i org lease reason) (·.resume n [])

theorem acts_of_action (h : s.action a = some (c, k)) : s.Acts a c k := by
  cases a <;> simp only [action] at h
  case stmt c' =>
    split at h <;> simp at h
    next hd =>
    obtain ⟨rfl, rfl⟩ := h
    exact .stmt c' hd
  case claimJob q =>
    simp only [Option.some.injEq, Prod.mk.injEq] at h
    obtain ⟨rfl, rfl⟩ := h
    exact .claimJob q
  case failWrite | createInsert | createLink | createRecompute | releaseUnsent | oversized =>
    split at h <;> simp only [Option.some.injEq, Prod.mk.injEq, reduceCtorEq] at h
    next hp =>
    obtain ⟨rfl, rfl⟩ := h
    constructor
    exact hp
  all_goals cases h

theorem Acts.frame (h : s.Acts a c k) (t : Sys) :
    (k t).db = t.db ∧ (k t).now = t.now ∧ (k t).uuid = t.uuid := by
  cases h <;> exact ⟨rfl, rfl, rfl⟩

theorem idle_frame (h : s.idle a = some s') :
    s'.db = s.db ∧ s.now ≤ s'.now ∧ s'.uuid = s.uuid := by
  cases a <;> simp only [idle] at h
  case tick d => cases h; exact ⟨rfl, Nat.le_add_right _ _, rfl⟩
  case failRead q => cases h; exact ⟨rfl, le_rfl, rfl⟩
  case createCheck q =>
    obtain ⟨met, -, h⟩ := Option.bind_eq_some_iff.1 h
    split at h <;> cases h
    exact ⟨rfl, le_rfl, rfl⟩
  case deliver k =>
    split at h <;> cases h
    exact ⟨rfl, le_rfl, rfl⟩
  case drop k =>
    split at h <;> cases h
    exact ⟨rfl, le_rfl, rfl⟩
  all_goals cases h

/-- **One step of the system**: a statement on the tables, or none. -/
inductive Step (cfg : Config) (s : Sys) (a : Label) (s' : Sys) : Prop
  | stmt (c : Stmt) (k : Sys → Sys) (action : s.action a = some (c, k)) (acts : s.Acts a c k)
      (state : s' = k (s.run cfg c)) (db : s'.db = c.exec cfg s.now s.db) (now : s'.now = s.now)
      (uuid : s'.uuid = s.uuid + c.idCount)
  | idle (action : s.action a = none) (state : s.idle a = some s') (db : s'.db = s.db)
      (now : s.now ≤ s'.now) (uuid : s'.uuid = s.uuid)

theorem step_of_next (h : s.next cfg a = some s') : Step cfg s a s' := by
  unfold next at h
  split at h
  · next c k ha =>
    obtain rfl := (Option.some.inj h).symm
    have hacts := acts_of_action ha
    obtain ⟨h₁, h₂, h₃⟩ := hacts.frame (s.run cfg c)
    exact .stmt c k ha hacts rfl h₁ h₂ h₃
  · next ha =>
    obtain ⟨h₁, h₂, h₃⟩ := idle_frame h
    exact .idle ha h h₁ h₂ h₃

variable {i : JobId}

theorem Acts.issues {lease : LeaseId} (h : s.Acts a c k)
    (hi : c.issues s.now s.db i = some lease) : lease.uuid = s.uuid ∧ c.idCount = 1 := by
  cases h with
  | stmt c hd =>
    cases c <;> simp [Stmt.issues] at hi <;> simp [Stmt.direct] at hd
    · exact ⟨hi.2 ▸ hd, rfl⟩
    · exact ⟨hi.2 ▸ hd, rfl⟩
  | claimJob q =>
    simp only [Stmt.issues] at hi
    split at hi <;> cases hi
    exact ⟨rfl, rfl⟩
  | _ => cases hi

theorem Acts.inserts {j : Job} (h : s.Acts a c k) (hi : c.Inserts cfg s.now s.db j) :
    s.uuid ≤ j.id ∧ j.id < s.uuid + c.idCount := by
  cases hi with
  | job q i met =>
    cases h with
    | stmt _ hd => cases hd
    | createInsert => exact ⟨le_rfl, Nat.lt_succ_self _⟩
  | step org w base defs d n hd =>
    have hn := snd_lt_of_mem_zipIdx hd
    cases h with
    | stmt _ hdirect =>
      simp only [Stmt.direct, Bool.and_eq_true, beq_iff_eq] at hdirect
      have key : ∀ u b m l : Nat, b = u + 1 → m < l → u ≤ b + m ∧ b + m < u + (l + 1) := by
        intros; omega
      exact key _ _ _ _ hdirect.1.2 (by simpa using hn)

inductive Arrives (s : Sys) (s' : Sys) : Label → Pending → Prop
  | fail (q : Presented) (read : Int × Int) : s.db.failRead s.now q = some read →
      Arrives s s' (.failRead q) (.fail q read)
  | create (q : CreateRequest) (met : Bool) : s.db.parentCompleted q = some met →
      validMaxRetries q.maxRetries = true → (q.parentJobId.isNone || q.path == .rest) = true →
      Arrives s s' (.createCheck q) (.create q met)
  | link (n : Nat) (q : CreateRequest) (parent : JobId) :
      s.pending[n]? = some (.create q false) → q.parentJobId = some parent →
      (s'.db.job s.uuid).isSome = true →
      Arrives s s' (.createInsert n) (.link s.uuid parent q.organizationId)
  | recompute (n : Nat) (child parent : JobId) (org : OrgId) :
      s.pending[n]? = some (.link child parent org) →
      Arrives s s' (.createLink n) (.recompute child org)
  | buffered (q : ClaimRequest) (i : JobId) :
      Arrives s s' (.claimJob q) (.buffered i q.organizationId (.single s.uuid))

theorem mem_resume {t : Sys} {n : Nat} {ps : List Pending} {x : Pending}
    (h : x ∈ (t.resume n ps).pending) : x ∈ ps ∨ x ∈ t.pending := by
  rcases mem_append.1 h with h | h
  · exact .inl h
  · exact .inr (mem_of_mem_eraseIdx h)

/-- **A pending handler was pending before or arrived with the step.** -/
theorem pending_step (hn : s.next cfg a = some s') {x : Pending} (hx : x ∈ s'.pending) :
    x ∈ s.pending ∨ s.Arrives s' a x := by
  cases step_of_next hn with
  | stmt c k ha hacts hst hdb =>
    have hjob : (s.run cfg c).db = s'.db := hdb.symm
    rw [hst] at hx
    cases hacts with
    | stmt => exact .inl hx
    | createInsert n q met hp =>
      rcases mem_resume hx with h | h
      · simp only [afterInsert] at h
        split at h
        · next par hpar =>
          split at h
          · next hc =>
            simp only [Bool.and_eq_true, Bool.not_eq_true', hjob] at hc
            obtain rfl := mem_singleton.1 h
            obtain ⟨hsome, rfl⟩ := hc
            exact .inr (.link n q par hp hpar hsome)
          · cases h
        · cases h
      · exact .inl h
    | createLink n child parent org hp =>
      rcases mem_resume hx with h | h
      · split at h
        · obtain rfl := mem_singleton.1 h
          exact .inr (.recompute n child parent org hp)
        · cases h
      · exact .inl h
    | claimJob q =>
      rcases mem_append.1 hx with h | h
      · obtain ⟨i, -, rfl⟩ := mem_map.1 h
        exact .inr (.buffered q i)
      · exact .inl h
    | failWrite | createRecompute | releaseUnsent | oversized =>
      rcases mem_resume hx with h | h
      · cases h
      · exact .inl h
  | idle ha hst =>
    cases a <;> simp only [Sys.idle] at hst
    case tick d => cases hst; exact .inl hx
    case failRead q =>
      cases hst
      dsimp only at hx
      split at hx
      · next r hr =>
        rcases mem_cons.1 hx with rfl | hx
        · exact .inr (.fail q r hr)
        · exact .inl hx
      · exact .inl hx
    case createCheck q =>
      obtain ⟨met, hmet, hst⟩ := Option.bind_eq_some_iff.1 hst
      split at hst
      · next hc =>
        cases hst
        rw [Bool.and_eq_true] at hc
        rcases mem_cons.1 hx with rfl | hx
        · exact .inr (.create q met hmet hc.1 hc.2)
        · exact .inl hx
      · cases hst
    case deliver n =>
      split at hst <;> cases hst
      rcases mem_resume hx with h | h
      · cases h
      · exact .inl h
    case drop n =>
      split at hst <;> cases hst
      rcases mem_resume hx with h | h
      · cases h
      · exact .inl h
    all_goals cases hst

/-- **Ids come from the generator**: no row has one it has not handed out. -/
theorem job_lt_uuid {h : List (Sys × Label)} (hr : (system cfg).Run s h) {j : Job}
    (hj : s.db.job i = some j) : i < s.uuid := by
  have key : ∀ i j, s.db.job i = some j → i < s.uuid := by
    refine hr.state_invariant (M := system cfg)
      (I := fun s : Sys => ∀ (i : JobId) (j : Job), s.db.job i = some j → i < s.uuid)
      (fun s hi i j hj => ?_) fun s a s' ih hn i j' hj' => ?_
    · rw [hi.1] at hj; cases hj
    · cases step_of_next hn with
      | idle _ _ hdb _ hu => rw [hdb] at hj'; rw [hu]; exact ih i j' hj'
      | stmt c k _ hacts _ hdb _ hu =>
        rw [hu]
        have hr := c.exec_rowStep cfg s.now s.db i
        rw [← hdb, hj'] at hr
        cases hj : s.db.job i with
        | some j => exact lt_of_lt_of_le (ih i j hj) (Nat.le_add_right _ _)
        | none =>
          rw [hj] at hr
          cases hr with
          | created hins =>
            have hlt := (hacts.inserts hins).2
            rwa [Db.job_id hj'] at hlt
  exact key i j hj

theorem job_before (hn : s.next cfg a = some s') {j' : Job} (hi : i < s.uuid) (hj' : s'.db.job i = some j') :
    ∃ j, s.db.job i = some j ∧ j.SameJob j' ∧ (j.status = .completed → j'.status = .completed) := by
  cases step_of_next hn with
  | idle _ _ hdb => rw [hdb] at hj'; exact ⟨j', hj', ⟨rfl, rfl, rfl, rfl⟩, id⟩
  | stmt c k _ hacts _ hdb _ hu =>
    have hr := c.exec_rowStep cfg s.now s.db i
    rw [← hdb, hj'] at hr
    cases hj : s.db.job i with
    | some j => rw [hj] at hr; exact ⟨j, rfl, hr.sameJob, hr.completed⟩
    | none =>
      rw [hj] at hr
      cases hr with
      | created hins =>
        have hge := (hacts.inserts hins).1
        rw [Db.job_id hj'] at hge
        exact absurd hge (not_le.2 hi)

end Sys

end Spooled
