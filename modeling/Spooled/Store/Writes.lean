import Spooled.Store.Move

/-!
# Writes that keep the links

Most statements move rows from one state to another and leave alone what ties a row
to others: its organization, its workflow, its parent, its mode and its gate.
`Db.Quiet` are the writes of these statements, and `Stmt.exec_quiet` says which
they are. A retry also re-opens dependents; `Db.RetryRel` are the relations that
every write of a retry keeps.
-/

namespace Spooled

/-- The organization a request acts for. The sweeps of the scheduler and the
three statements of a job creation are not requests in this sense. -/
def Stmt.tenant : Stmt → Option OrgId
  | .claimBatch _ _ q | .dequeue _ q | .claimJob _ q => some q.organizationId
  | .complete q | .failWrite q _ _ _ | .failGrpc q _ _ | .renewLeaseFor q _ _ | .renewLease q _ =>
    some q.organizationId
  | .recomputeChildren _ org | .releaseUnsentClaim _ org _ | .deadLetterOversized _ org _ _ => some org
  | .releaseDeregistered _ org | .recomputeGate _ org | .cancelJob _ org => some org
  | .boostPriority _ org _ | .cancelWorkflow _ org | .retryJob _ org | .retryDlq org _ => some org
  | .retryWorkflow _ org | .purgeDlq org _ | .deleteQueue org _ => some org
  | .createJob q _ _ => some q.organizationId
  | .createWorkflow org _ _ _ | .addDependencies org _ _ _ => some org
  | _ => none

def Job.links (j : Job) : OrgId × Option WorkflowId × Option JobId × DependencyMode × Option Bool :=
  (j.organizationId, j.workflowId, j.parentJobId, j.dependencyMode, j.dependenciesMet)

def Job.Of (A : Option OrgId) (j : Job) : Prop := A.elim True (j.organizationId = ·)

namespace Db

/-- Writes to rows that are not completed, and not by this, in one organization if there is one. -/
inductive Quiet (A : Option OrgId) (now : Time) : Db → Db → Prop
  | touch {db : Db} {p : Job → Bool} {f : Job → Job}
      (hp : ∀ i j, db.job i = some j → p j = true → j.Of A) (hs : ∀ j, (f j).status = j.status)
      (hf : ∀ j, (f j).links = j.links) : Quiet A now db (db.setJobs now p f)
  | settle {db : Db} {p : Job → Bool} {f : Job → Job}
      (hp : ∀ i j, db.job i = some j → p j = true → j.status ≠ .completed ∧ j.Of A)
      (hs : ∀ j, (f j).status ≠ .completed) (hf : ∀ j, (f j).links = j.links) :
      Quiet A now db (db.setStatus now p f)
  | other {db db' : Db} (hj : db'.jobs = db.jobs) (he : db'.edges = db.edges)
      (hw : db'.workflows = db.workflows) : Quiet A now db db'
  | trans {db db' db'' : Db} (h : Quiet A now db db') (h' : Quiet A now db' db'') : Quiet A now db db''

variable {A : Option OrgId} {now : Time} {db : Db} {p : Job → Bool} {f : Job → Job} {j : Job}

theorem Quiet.processing (hp : ∀ j, p j = true → j.status = .processing ∧ j.Of A)
    (hs : ∀ j, (f j).status ≠ .completed) (hf : ∀ j, (f j).links = j.links) :
    Quiet A now db (db.setStatus now p f) :=
  .settle (fun _ j _ hj => ⟨processing_ne_completed (hp j hj).1, (hp j hj).2⟩) hs hf

theorem Quiet.cancel {e : Job → Option String}
    (hp : ∀ j, p j = true → j.status.waiting = true ∧ j.Of A) :
    Quiet A now db (db.setStatus now p fun j => cancelRow now (e j) j) :=
  .settle (fun _ j _ hj => ⟨waiting_ne_completed (hp j hj).1, (hp j hj).2⟩) (by simp) fun _ => rfl

theorem Quiet.deadletterWhere {error : String}
    (hp : ∀ j, p j = true → j.status = .processing ∧ j.Of A) :
    Quiet A now db (db.deadletterWhere now error p) :=
  .trans (.processing hp (f := deadletterRow error) (by simp) fun _ => rfl) (.other rfl rfl rfl)

theorem Quiet.claim {q : ClaimRequest} {n : Nat} {lease : Job → LeaseId} {len : Nat}
    {started : Job → Time} (hp : ∀ j, p j = true → q.eligible now j = true) :
    Quiet (some q.organizationId) now db (db.setStatus now (fun j => j.id ∈ db.selectForClaim p n)
      fun j => claimRow now q.worker (lease j) len (started j) j) := by
  refine .settle (fun i j hj hsel => ?_) (by simp) fun _ => rfl
  have he := hp j (of_mem_selectForClaim hj (of_decide_eq_true hsel))
  have hc := eligible_claimable he
  simp only [ClaimRequest.eligible, Job.claimable, Bool.and_eq_true, beq_iff_eq] at he hc
  exact ⟨waiting_ne_completed hc.1.1.1, he.1.1.1.1⟩

theorem heldBy_own {q : Presented} (h : j.heldBy now q = true) :
    j.status = .processing ∧ j.Of (some q.organizationId) := by
  simp only [Job.heldBy, Bool.and_eq_true, beq_iff_eq] at h
  exact ⟨h.1.1.1.2, h.1.1.1.1.2⟩

theorem claimedUnder_own {i : JobId} {org : OrgId} {lease : LeaseId}
    (h : claimedUnder i org lease j = true) : j.status = .processing ∧ j.Of (some org) := by
  simp only [claimedUnder, Bool.and_eq_true, beq_iff_eq] at h
  exact ⟨h.2, h.1.1.2⟩

end Db

namespace Stmt

def isQuiet : Stmt → Bool
  | claimBatch .. | dequeue .. | claimJob .. | failWrite .. | failGrpc .. | renewLeaseFor ..
  | renewLease .. | releaseUnsentClaim .. | deadLetterOversized .. | releaseDeregistered ..
  | activateScheduledJobs | recoverExpiredLeases | deadletterExpiredLeases | markStaleWorkers
  | releaseOfflineWorkers | deadletterOfflineWorkers | cancelParentFailed | cancelDependencyFailed
  | cleanupDeadLetters .. | cancelJob .. | boostPriority .. | upsertWorker .. | putQueueConfig .. =>
    true
  | _ => false

/-- **The statements that keep the links.** -/
theorem exec_quiet (cfg : Config) (now : Time) (db : Db) {c : Stmt} (h : c.isQuiet = true) :
    Db.Quiet c.tenant now db (c.exec cfg now db) := by
  cases c with
  | claimBatch _ _ q | dequeue _ q => exact .claim fun _ => id
  | claimJob _ q =>
    refine .claim fun j hj => ?_
    rw [Bool.and_eq_true] at hj
    exact hj.1
  | failWrite q read error jitter =>
    simp only [exec, Db.failWrite]
    split
    · exact .processing (fun j => Db.heldBy_own) (by simp) fun _ => rfl
    · exact .deadletterWhere fun j => Db.heldBy_own
  | failGrpc q retry error =>
    refine .trans (.processing (fun j => Db.heldBy_own) (fun j => ?_) fun j => ?_)
      (.other rfl rfl rfl)
    · split <;> simp
    · split <;> rfl
  | renewLeaseFor q | renewLease q =>
    exact .touch (fun _ j _ hj => (Db.heldBy_own hj).2) (fun _ => rfl) fun _ => rfl
  | releaseUnsentClaim => exact .processing (fun j => Db.claimedUnder_own) (by simp) fun _ => rfl
  | deadLetterOversized k org lease reason =>
    have h₁ : Db.Quiet (some org) now db (db.setJobs now (Db.claimedUnder k org lease) fun j =>
        { j with leaseExpiresAt := some now }) :=
      .touch (fun _ j _ hj => (Db.claimedUnder_own hj).2) (fun _ => rfl) fun _ => rfl
    exact h₁.trans (.deadletterWhere fun j => Db.claimedUnder_own)
  | releaseDeregistered =>
    refine .processing (fun j hj => ?_) (by simp) fun _ => rfl
    simp only [Bool.and_eq_true, beq_iff_eq] at hj
    exact ⟨hj.1.1.2, hj.1.1.1.2⟩
  | activateScheduledJobs =>
    refine .settle (fun _ j _ hj => ⟨?_, trivial⟩) (by simp) fun _ => rfl
    simp only [Bool.and_eq_true, beq_iff_eq] at hj
    rw [hj.1]
    simp
  | recoverExpiredLeases =>
    refine .processing (fun j hj => ⟨?_, trivial⟩) (by simp) fun _ => rfl
    rw [Bool.and_eq_true] at hj
    exact Db.leaseExpired_processing hj.1
  | releaseOfflineWorkers =>
    refine .processing (fun j hj => ⟨?_, trivial⟩) (by simp) fun _ => rfl
    rw [Bool.and_eq_true] at hj
    exact Db.abandoned_processing hj.1
  | deadletterExpiredLeases =>
    refine .deadletterWhere fun j hj => ⟨?_, trivial⟩
    rw [Bool.and_eq_true] at hj
    exact Db.leaseExpired_processing hj.1
  | deadletterOfflineWorkers =>
    refine .deadletterWhere fun j hj => ⟨?_, trivial⟩
    rw [Bool.and_eq_true] at hj
    exact Db.abandoned_processing hj.1
  | cancelParentFailed =>
    refine .cancel fun j hj => ⟨?_, trivial⟩
    simp only [Db.parentDooms, Bool.and_eq_true] at hj
    exact hj.1.1
  | cancelDependencyFailed =>
    refine .cancel fun j hj => ⟨?_, trivial⟩
    simp only [Db.edgesDoom, Bool.and_eq_true] at hj
    exact hj.1.1
  | cancelJob =>
    refine .cancel fun j hj => ?_
    simp only [Bool.and_eq_true, beq_iff_eq] at hj
    exact ⟨hj.2, hj.1.2⟩
  | boostPriority =>
    refine .touch (fun _ j _ hj => ?_) (fun _ => rfl) fun _ => rfl
    simp only [Bool.and_eq_true, beq_iff_eq] at hj
    exact hj.2
  | markStaleWorkers | cleanupDeadLetters | upsertWorker | putQueueConfig =>
    exact .other rfl rfl rfl
  | _ => cases h

end Stmt

/-! ## Retries -/

namespace Db

variable {now : Time} {org : OrgId} {db : Db} {R : Db → Db → Prop} {j : Job}

theorem reopens_swept {frontier : List JobId} (h : db.reopens org frontier j = true) :
    sweptAway j = true ∧ j.organizationId = org := by
  simp only [reopens, Bool.and_eq_true, beq_iff_eq] at h
  exact ⟨h.1.1.1.1.2, h.1.1.1.1.1⟩

theorem reopenRow_status_ne (db : Db) (now : Time) (j : Job) :
    (db.reopenRow now j).status ≠ .completed := by
  unfold reopenRow
  dsimp only
  split <;> simp

structure RetryRel (now : Time) (org : OrgId) (R : Db → Db → Prop) : Prop where
  refl : ∀ d, R d d
  trans : ∀ a b c, R a b → R b c → R a c
  revive : ∀ {d p}, (∀ j, p j = true → j.status.lost = true ∧ j.organizationId = org) →
    R d (d.setStatus now p reviveRow)
  letters : ∀ d ids, R d (d.dropDeadLetters org ids)
  children : ∀ d ids, R d (d.resetChildren now org ids)
  reopen : ∀ d frontier, R d (d.setStatus now (d.reopens org frontier) (d.reopenRow now))
  workflows : ∀ d ids, R d (d.reopenWorkflows org ids)

theorem RetryRel.around (h : RetryRel now org R) (db : Db) (ids : List JobId) :
    R db (db.reopenAround now org ids) :=
  h.trans _ _ _ (reopenLevels_rel org h.refl h.trans h.reopen maxReopenDepth db ids)
    (h.workflows _ _)

theorem RetryRel.retryJob (h : RetryRel now org R) (db : Db) (k : JobId) :
    R db (db.retryJob now k org) := by
  unfold Db.retryJob
  split
  · refine h.trans _ _ _ (h.revive fun j hj => ?_) (h.trans _ _ _ (h.letters _ _) (h.around _ _))
    simp only [retryable, Bool.and_eq_true, beq_iff_eq] at hj
    exact ⟨hj.1.2, hj.1.1.2⟩
  · exact h.refl db

theorem RetryRel.retryDlq (h : RetryRel now org R) (db : Db) (pick : JobId → Bool) :
    R db (db.retryDlq now org pick) := by
  unfold Db.retryDlq
  dsimp only
  split
  · exact h.refl db
  · refine h.trans _ _ _ (h.revive fun j hj => ?_) (h.trans _ _ _ (h.letters _ _)
      (h.trans _ _ _ (h.children _ _) (h.around _ _)))
    simp only [dlqRetryable, Bool.and_eq_true, beq_iff_eq] at hj
    rw [hj.1.1.2]
    exact ⟨rfl, hj.1.1.1⟩

end Db

end Spooled
