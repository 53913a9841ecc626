import Spooled.Store.Move

/-!
# Status and lease columns

A claim sets `assigned_worker_id`, `lease_id` and `lease_expires_at` together,
and every statement that takes a row out of processing to a status from which
it may be claimed again clears the three. So a processing row always has a
lease, and at each instant that lease either is live, and its holder may settle
or renew it, or has run out, and the lease-expiry sweep may take the row.
-/

namespace Spooled

/-- The statuses outside a claim from which a row may still be claimed or revived. -/
def Status.unclaimed : Status → Bool
  | .pending | .scheduled | .cancelled | .deadletter => true
  | _ => false

/-- Worker, lease id and lease expiry are all set. -/
def Job.leased (j : Job) : Prop :=
  j.assignedWorkerId.isSome = true ∧ j.leaseId.isSome = true ∧ j.leaseExpiresAt.isSome = true

/-- Worker, lease id and lease expiry are all `NULL`. -/
def Job.unleased (j : Job) : Prop :=
  j.assignedWorkerId = none ∧ j.leaseId = none ∧ j.leaseExpiresAt = none

/-- The lease columns are as the status asks for. No statement writes `failed`. -/
structure Job.Columns (j : Job) : Prop where
  leased : j.status = .processing → j.leased
  unleased : j.status.unclaimed = true → j.unleased
  notFailed : j.status ≠ .failed

section Rows

variable {now : Time} {j j' : Job}

theorem Status.unclaimed_of_waiting {st : Status} (h : st.waiting = true) :
    st.unclaimed = true := by
  cases st <;> first | rfl | cases h

theorem Job.Columns.of_unleased (hs : j.status.unclaimed = true) (h : j.unleased) : j.Columns where
  leased hp := by rw [hp] at hs; cases hs
  unleased _ := h
  notFailed hf := by rw [hf] at hs; cases hs

theorem Job.Fresh.columns (h : j.Fresh) : j.Columns :=
  .of_unleased (Status.unclaimed_of_waiting h.waiting) ⟨h.worker, h.lease, h.leaseExpiresAt⟩

theorem Job.Move.columns (h : j.Move now j') (hc : j.Columns) : j'.Columns := by
  cases h with
  | regate | setMode | setPriority | reparent => exact ⟨hc.leased, hc.unleased, hc.notFailed⟩
  | renew _ _ hs =>
    obtain ⟨hw, hl, -⟩ := hc.leased hs
    refine ⟨fun _ => ⟨hw, hl, rfl⟩, fun hu => ?_, hc.notFailed⟩
    have hu : j.status.unclaimed = true := hu
    rw [hs] at hu
    cases hu
  | cancel _ hs => exact .of_unleased rfl (hc.unleased (Status.unclaimed_of_waiting hs))
  | activate hs => exact .of_unleased rfl (hc.unleased (by rw [hs]; rfl))
  | reopen st hs hst =>
    refine .of_unleased (Status.unclaimed_of_waiting hst) (hc.unleased ?_)
    simp only [Db.sweptAway, Bool.and_eq_true, beq_iff_eq] at hs
    rw [hs.1]; rfl

theorem Job.Moves.columns (h : j.Moves now j') (hc : j.Columns) : j'.Columns := by
  induction h with
  | refl => exact hc
  | tail _ h ih => exact h.columns ih

theorem Job.Columns.revives {db : Db} {c : Stmt} (hc : j.Columns) (h : c.revives db j = true) :
    j.unleased := by
  have hlost : j.status.lost = true → j.unleased := by
    intro hl
    refine hc.unleased ?_
    cases hs : j.status with
    | deadletter => rfl
    | failed => exact absurd hs hc.notFailed
    | _ => rw [hs] at hl; cases hl
  rcases revives_status h with hl | hs
  · exact hlost hl
  · refine hc.unleased ?_
    simp only [Db.sweptAway, Bool.and_eq_true, beq_iff_eq] at hs
    rw [hs.1]
    rfl

/-- **No statement separates the columns.** -/
theorem RowStep.columns {cfg : Config} {db : Db} {c : Stmt} {o : Option Job}
    (h : RowStep cfg now db c o (some j')) (hc : ∀ j, o = some j → j.Columns) : j'.Columns := by
  cases h with
  | created hi => exact hi.fresh.columns
  | moved _ hm => exact hm.columns (hc _ rfl)
  | claimed worker lease len started =>
    exact ⟨fun _ => ⟨rfl, rfl, rfl⟩, (fun hu => by cases hu), (fun hf => by cases hf)⟩
  | ended _ he =>
    cases he with
    | complete => exact ⟨fun hp => (by cases hp), fun hu => (by cases hu), fun hf => by cases hf⟩
    | reschedule | release => exact .of_unleased rfl ⟨rfl, rfl, rfl⟩
  | deadlettered | failed | unsent => exact .of_unleased rfl ⟨rfl, rfl, rfl⟩
  | revived st ct m hr hm => exact hm.columns (.of_unleased rfl ((hc _ rfl).revives hr))

end Rows

section Run

variable {cfg : Config} {s : Sys} {h : List (Sys × Label)} {i : JobId} {j : Job}

theorem columns_run (hr : (system cfg).Run s h) (hj : s.db.job i = some j) : j.Columns := by
  have key : ∀ i j, s.db.job i = some j → j.Columns := by
    refine hr.state_invariant (M := system cfg)
      (I := fun s : Sys => ∀ (i : JobId) (j : Job), s.db.job i = some j → j.Columns)
      (fun s hi i j hj => ?_) fun s a s' ih hn i j' hj' => ?_
    · rw [hi.1] at hj; cases hj
    · cases Sys.step_of_next hn with
      | idle _ _ hdb => rw [hdb] at hj'; exact ih i j' hj'
      | stmt c k _ _ _ hdb =>
        have hstep := c.exec_rowStep cfg s.now s.db i
        rw [← hdb, hj'] at hstep
        exact hstep.columns (ih i)
  exact key i j hj

def Job.holder (j : Job) : Presented where
  job := j.id
  worker := j.assignedWorkerId.getD 0
  organizationId := j.organizationId
  leaseId := j.leaseId
  scope := fun q => q == j.queueName

theorem Job.heldBy_holder {t : Time} (hs : j.status = .processing) (hl : j.leased) :
    j.heldBy t j.holder = j.leaseLive t := by
  obtain ⟨hw, hid, -⟩ := hl
  obtain ⟨w, hw⟩ := Option.isSome_iff_exists.1 hw
  simp [heldBy, holder, hs, hw, hid]

theorem Job.leaseLive_eq {t : Time} (hs : j.status = .processing) (hl : j.leased) :
    j.leaseLive t = !Db.leaseExpired t j := by
  obtain ⟨e, he⟩ := Option.isSome_iff_exists.1 hl.2.2
  simp only [leaseLive, Db.leaseExpired, he, hs, Option.any_some, beq_self_eq_true, Bool.true_and]
  rw [← decide_not]
  exact decide_eq_decide.2 not_le.symm

def Db.sweepExpiredLeases (db : Db) (now : Time) : Db :=
  (db.recoverExpiredLeases now).deadletterExpiredLeases now

theorem Db.status_sweepExpiredLeases {db : Db} {t : Time} (hj : db.job i = some j)
    (he : Db.leaseExpired t j = true) : ∃ j', (db.sweepExpiredLeases t).job i = some j' ∧
      j'.status = if j.retryCount < j.maxRetries then .pending else .deadletter := by
  have hrow : (db.recoverExpiredLeases t).job i = some (if j.retryCount < j.maxRetries then
      j.written t (releaseRow "Lease expired (worker timeout)") else j) := by
    rw [recoverExpiredLeases, job_setStatus (by simp), hj, Option.map_some]
    by_cases hlt : j.retryCount < j.maxRetries
    · simp [hlt, he]
    · simp [hlt]
  have hdead : (db.sweepExpiredLeases t).job i =
      ((db.recoverExpiredLeases t).setStatus t
        (fun j => leaseExpired t j && decide (j.maxRetries ≤ j.retryCount))
        (deadletterRow "Max retries exceeded after lease expiration")).job i := rfl
  rw [hdead, job_setStatus (by simp), hrow, Option.map_some]
  refine ⟨_, rfl, ?_⟩
  by_cases hlt : j.retryCount < j.maxRetries
  · -- released: no lease is left to expire
    simp only [if_pos hlt]
    rfl
  · simp only [if_neg hlt]
    rw [if_pos (by rw [he, decide_eq_true (not_lt.1 hlt)]; rfl)]
    rfl

/-- **Status and lease columns agree, and no processing job is stuck.** At every
instant a processing job is open to its holder or to the lease-expiry sweep,
never to both. -/
theorem lease_columns_agree (hr : (system cfg).Run s h) (hj : s.db.job i = some j) :
    (j.status = .processing → j.leased) ∧ (j.status.unclaimed = true → j.unleased) ∧
    (j.status = .processing → ∀ t,
      Xor (∃ q : Presented, q.leaseId = j.leaseId ∧ j.heldBy t q = true)
        (Db.leaseExpired t j = true) ∧
      (Db.leaseExpired t j = true → ∃ j', (s.db.sweepExpiredLeases t).job i = some j' ∧
        j'.status = if j.retryCount < j.maxRetries then .pending else .deadletter)) := by
  have hc := columns_run hr hj
  refine ⟨hc.leased, hc.unleased, fun hs t => ⟨?_, Db.status_sweepExpiredLeases hj⟩⟩
  have hl := hc.leased hs
  have hlive := Job.leaseLive_eq (t := t) hs hl
  cases he : Db.leaseExpired t j with
  | false =>
    rw [he] at hlive
    exact .inl ⟨⟨j.holder, rfl, (Job.heldBy_holder hs hl).trans hlive⟩, Bool.false_ne_true⟩
  | true =>
    rw [he] at hlive
    refine .inr ⟨rfl, ?_⟩
    rintro ⟨q, -, hq⟩
    rw [Db.heldBy_leaseLive hq] at hlive
    cases hlive

end Run

/-- A job claimed for thirty seconds, seen at its last live instant and at its first expired one. -/
theorem lease_columns_agree_claimed : ∃ s h j, (system {}).Run s h ∧ s.db.job 0 = some j ∧
    j.status = .processing ∧ j.leased ∧ Db.leaseExpired 29999 j = false ∧
    Xor (∃ q : Presented, q.leaseId = j.leaseId ∧ j.heldBy 30000 q = true)
      (Db.leaseExpired 30000 j = true) := by
  obtain ⟨s, h, hr, hp⟩ := Machine.Run.of_exec (system {})
    [.createCheck clientCreate, .createInsert 0, .stmt (.dequeue 1 clientClaim)] {}
    (fun x => (x.1.db.job 0).any fun j =>
      j.status == .processing && !Db.leaseExpired 29999 j)
    ⟨rfl, rfl⟩ (by decide +kernel)
  simp only [Option.any_eq_true, Bool.and_eq_true, beq_iff_eq, Bool.not_eq_true'] at hp
  obtain ⟨j, hj, hs, he⟩ := hp
  obtain ⟨hl, -, hopen⟩ := lease_columns_agree hr hj
  exact ⟨s, h, j, hr, hj, hs, hl hs, he, (hopen hs 30000).1⟩

end Spooled
