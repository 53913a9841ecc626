import Spooled.Job.Budget

/-!
# How claims end

`Stmt.settles` gives the one `UPDATE OF status` that a statement makes on
processing rows. A claim ends with such an `UPDATE` or with its job: by a report
that presents its lease, by a sweep after the lease has run out, or undone by
the server under the lease id.
-/

namespace Spooled

/-- The `UPDATE OF status` that a statement makes on processing rows: the tables
it starts from, its `WHERE` and its `SET`. Every other statement that sets
`status` has a `WHERE` on another status. -/
def Stmt.settles (now : Time) (db : Db) : Stmt → Option (Db × (Job → Bool) × (Job → Job))
  | .complete q =>
    some (db, (·.heldBy now q), fun j => { j with status := .completed, completedAt := some now })
  | .failWrite q read error jitter =>
    some (db, (·.heldBy now q), if read.1 < read.2
      then Db.rescheduleRow error (read.1 + 1) (now + secs (Db.backoffSecs read.1) + jitter % 500)
      else Db.deadletterRow error)
  | .failGrpc q retry error =>
    some (db, (·.heldBy now q), fun j =>
      if Db.grpcDeadletters retry j then Db.deadletterRow error j
      else Db.rescheduleRow error (j.retryCount + 1) (now + secs (Db.backoffSecs j.retryCount)) j)
  | .releaseUnsentClaim i org lease =>
    some (db, Db.claimedUnder i org lease, fun j => Db.clearLease { j with status := .pending })
  | .deadLetterOversized i org lease reason =>
    -- the second statement of its transaction; the first one has ended the lease
    some (db.setJobs now (Db.claimedUnder i org lease) fun j => { j with leaseExpiresAt := some now },
      Db.claimedUnder i org lease, Db.deadletterRow reason)
  | .releaseDeregistered worker org =>
    some (db, fun j => j.assignedWorkerId == some worker && j.organizationId == org &&
      j.status == .processing && decide (j.retryCount < j.maxRetries) && j.leaseOver now,
      Db.releaseRow "Worker deregistered")
  | .recoverExpiredLeases =>
    some (db, fun j => Db.leaseExpired now j && decide (j.retryCount < j.maxRetries),
      Db.releaseRow "Lease expired (worker timeout)")
  | .deadletterExpiredLeases =>
    some (db, fun j => Db.leaseExpired now j && decide (j.maxRetries ≤ j.retryCount),
      Db.deadletterRow "Max retries exceeded after lease expiration")
  | .releaseOfflineWorkers =>
    some (db, fun j => db.abandoned now j && decide (j.retryCount < j.maxRetries),
      Db.releaseRow "Worker went offline")
  | .deadletterOfflineWorkers =>
    some (db, fun j => db.abandoned now j && decide (j.maxRetries ≤ j.retryCount),
      Db.deadletterRow "Max retries exceeded after worker went offline")
  | _ => none

/-- The old and new rows of that `UPDATE`. -/
def Stmt.statusUpdates (now : Time) (db : Db) (c : Stmt) : List (Job × Job) :=
  match c.settles now db with
  | some (d, p, f) => (d.jobs.rows.filter p).map fun j => (j, j.written now f)
  | none => []

section Settles

variable {cfg : Config} {now : Time} {db d : Db} {c : Stmt} {i : JobId} {j j' : Job}
  {p : Job → Bool} {f : Job → Job}

/-- The `UPDATE` is what the statement does to the jobs. -/
theorem Stmt.exec_settles (h : c.settles now db = some (d, p, f)) :
    (c.exec cfg now db).jobs = (d.setStatus now p f).jobs := by
  cases c <;> simp only [settles, Option.some.injEq, Prod.mk.injEq, reduceCtorEq] at h
  case failWrite q read error jitter =>
    obtain ⟨rfl, rfl, rfl⟩ := h
    show (db.failWrite now q read error jitter).jobs = _
    unfold Db.failWrite
    split <;> rfl
  all_goals
    obtain ⟨rfl, rfl, rfl⟩ := h
    rfl

/-- A statement without such an `UPDATE` ends no claim, short of deleting the job. -/
theorem Stmt.exec_not_settles (h : c.settles now db = none) (hj : db.job i = some j)
    (hp : j.status = .processing) (hj' : (c.exec cfg now db).job i = some j') :
    j'.status = .processing := by
  have hr := c.exec_rowStep cfg now db i
  rw [hj, hj'] at hr
  cases hr with
  | moved _ hm => exact hm.processing hp
  | claimed => rfl
  | ended _ _ he => cases c <;> simp [settles, endsClaims] at he h
  | deadlettered _ hd => cases c <;> simp [settles, deadletters] at hd h
  | failed q read error jitter t hc | unsent k org lease hc => subst hc; cases h
  | revived _ _ _ hrev => exact absurd hp (revives_not_processing hrev)

end Settles

/-! ## The ways out of a claim -/

namespace Db

variable {db : Db} {now : Time} {i : JobId} {j j' : Job} {p : Job → Bool} {f : Job → Job}

theorem status_setStatus_of_not (hj : db.job i = some j) (hp : p j = false)
    (hj' : (db.setStatus now p f).job i = some j') : j'.status = j.status := by
  obtain ⟨m, t, h, -⟩ := (triggered_setStatus db now p f).row i _ (job_setJobs_some hj)
  rw [hp] at h
  rw [h] at hj'
  rw [← Option.some.inj hj']
  rfl

end Db

section Ends

variable {cfg : Config} {now : Time} {db : Db} {c : Stmt} {i : JobId} {j : Job} {lease : LeaseId}

/-- **How a claim ends.** -/
theorem Stmt.ends_cases (hj : db.job i = some j) (hp : j.status = .processing)
    (hl : j.leaseId = some lease) (hno : ¬ (c.exec cfg now db).Holds i lease) :
    (c.exec cfg now db).job i = none ∨
    (∃ q, c.settling = some q ∧ j.heldBy now q = true) ∨
    j.leaseOver now = true ∨
    (∃ org, c = .releaseUnsentClaim i org lease) ∨
    (∃ org reason, c = .deadLetterOversized i org lease reason) := by
  cases hj' : (c.exec cfg now db).job i with
  | none => exact .inl rfl
  | some j' =>
  right
  -- the row has left `processing`, for a row that goes on processing keeps its lease
  have hst : j'.status ≠ .processing := by
    intro hs
    rcases Db.exec_processing hj' hs with ⟨hi, hsome⟩ | ⟨-, j₀, hj₀, hsame⟩
    · obtain ⟨l, hl'⟩ := Option.isSome_iff_exists.1 hsome
      exact Db.not_processing_of_claimable (Db.issues_claimable hj (hi.trans hl')) hp
    · rw [← Option.some.inj (hj.symm.trans hj₀)] at hsame
      exact hno ⟨j', hj', hs, hsame.leaseId.trans hl⟩
  have matched : ∀ {d : Db} {p : Job → Bool} {f : Job → Job} {j₁ : Job},
      c.settles now db = some (d, p, f) → d.job i = some j₁ → j₁.status = .processing →
      p j₁ = true := by
    intro d p f j₁ hset hj₁ hs
    by_contra hpj
    refine hst ?_
    have hrow : (d.setStatus now p f).job i = some j' := by
      rw [Db.job, ← Stmt.exec_settles hset]
      exact hj'
    rw [Db.status_setStatus_of_not hj₁ (Bool.eq_false_iff.2 hpj) hrow, hs]
  have expired : Db.leaseExpired now j = true → j.leaseOver now = true := by
    intro h
    simp only [Db.leaseExpired, Bool.and_eq_true, Option.any_eq_true] at h
    obtain ⟨-, t, ht, hle⟩ := h
    rw [Job.leaseOver, ht]
    exact hle
  cases hset : c.settles now db with
  | none => exact absurd (c.exec_not_settles hset hj hp hj') hst
  | some x =>
    cases c with
    | complete q | failWrite q | failGrpc q => exact .inl ⟨q, rfl, matched rfl hj hp⟩
    | releaseUnsentClaim k org l =>
      have hm := matched rfl hj hp
      simp only [Db.claimedUnder, Bool.and_eq_true, beq_iff_eq] at hm
      obtain ⟨⟨⟨hid, -⟩, hlease⟩, -⟩ := hm
      obtain rfl : i = k := (Db.job_id hj).symm.trans hid
      obtain rfl : lease = l := Option.some.inj (hl.symm.trans hlease)
      exact .inr (.inr (.inl ⟨org, rfl⟩))
    | deadLetterOversized k org l reason =>
      have hm : Db.claimedUnder k org l j = true := by
        by_contra hno
        -- the first statement of the transaction leaves the row alone, so does the second
        have hrow : (db.setJobs now (Db.claimedUnder k org l) fun j =>
            { j with leaseExpiresAt := some now }).job i = some j := by
          rw [Db.job_setJobs_some hj, if_neg hno]
        exact hno (matched rfl hrow hp)
      simp only [Db.claimedUnder, Bool.and_eq_true, beq_iff_eq] at hm
      obtain ⟨⟨⟨hid, -⟩, hlease⟩, -⟩ := hm
      obtain rfl : i = k := (Db.job_id hj).symm.trans hid
      obtain rfl : lease = l := Option.some.inj (hl.symm.trans hlease)
      exact .inr (.inr (.inr ⟨org, reason, rfl⟩))
    | releaseDeregistered worker org =>
      have hm := matched rfl hj hp
      simp only [Bool.and_eq_true] at hm
      exact .inr (.inl hm.2)
    | recoverExpiredLeases | deadletterExpiredLeases =>
      have hm := matched rfl hj hp
      rw [Bool.and_eq_true] at hm
      exact .inr (.inl (expired hm.1))
    | releaseOfflineWorkers | deadletterOfflineWorkers =>
      have hm := matched rfl hj hp
      simp only [Db.abandoned, Bool.and_eq_true] at hm
      exact .inr (.inl hm.1.1.2)
    | _ => cases hset

end Ends

end Spooled
