import Spooled.Store.Move

/-!
# Lease fencing

A claim writes a lease id into the row it claims; completes, fails and renewals
name the lease they act under. `currentLease` reads off a history which lease a
job is claimed under: the one its most recent claim issued, unless that claim
ended since. The run invariant says that a processing row carries exactly that
lease, that no two processing rows share one, and that a settled lease is held
by no row any more.
-/

namespace Spooled

/-! ## What a history says about leases -/

def Stmt.presents : Stmt → Option Presented
  | .complete q | .failWrite q _ _ _ | .failGrpc q _ _ | .renewLeaseFor q _ _ | .renewLease q _ =>
    some q
  | _ => none

def Stmt.settling : Stmt → Option Presented
  | .complete q | .failWrite q _ _ _ | .failGrpc q _ _ => some q
  | _ => none

/-- Job `i` is claimed. -/
def Db.processing (db : Db) (i : JobId) : Bool := (db.job i).any (·.status == .processing)

namespace Sys

/-- The lease id a step issues for job `i`. -/
def issues (s : Sys) (a : Label) (i : JobId) : Option LeaseId :=
  (s.action a).bind fun x => x.1.issues s.now s.db i

/-- A step ends the claim of job `i`, whatever the reason. -/
def ends (cfg : Config) (s : Sys) (a : Label) (i : JobId) : Bool :=
  s.db.processing i && !(s.next cfg a).any (·.db.processing i)

def presents (s : Sys) (a : Label) : Option Presented := (s.action a).bind (·.1.presents)

/-- The lease id under which a step reports a successful complete or fail: its
`UPDATE` matched a row. -/
def settles (s : Sys) (a : Label) : Option LeaseId :=
  (s.action a).bind fun x => x.1.settling.bind fun q =>
    if s.db.jobs.rows.any (·.heldBy s.now q) then q.leaseId else none

end Sys

/-- The lease of the most recent claim of job `i`, if that claim has not ended since. -/
def currentLease (cfg : Config) : List (Sys × Label) → JobId → Option LeaseId
  | [], _ => none
  | (s, a) :: h, i =>
    match s.issues a i with
    | some lease => some lease
    | none => if s.ends cfg a i then none else currentLease cfg h i

/-! ## Rows and the leases they hold -/

/-- Job `i` is processing under the lease. -/
def Db.Holds (db : Db) (i : JobId) (lease : LeaseId) : Prop :=
  ∃ j, db.job i = some j ∧ j.status = .processing ∧ j.leaseId = some lease

/-- `j` and `j'` are one row during one claim. -/
structure Job.SameClaim (j j' : Job) : Prop where
  processing : j.status = .processing
  processing' : j'.status = .processing
  leaseId : j'.leaseId = j.leaseId
  retryCount : j'.retryCount = j.retryCount
  maxRetries : j'.maxRetries = j.maxRetries
  scheduledAt : j'.scheduledAt = j.scheduledAt

section Moves

variable {now : Time} {j j' j'' : Job}

theorem Job.SameClaim.trans (h : j.SameClaim j') (h' : j'.SameClaim j'') : j.SameClaim j'' :=
  ⟨h.processing, h'.processing', h'.leaseId.trans h.leaseId, h'.retryCount.trans h.retryCount,
    h'.maxRetries.trans h.maxRetries, h'.scheduledAt.trans h.scheduledAt⟩

theorem Job.Move.sameClaim (h : j.Move now j') (hp : j'.status = .processing) :
    j.SameClaim j' := by
  cases h with
  | regate | setMode | setPriority | reparent => exact ⟨hp, hp, rfl, rfl, rfl, rfl⟩
  | renew _ _ hs => exact ⟨hs, hp, rfl, rfl, rfl, rfl⟩
  | reopen st _ hst => subst hp; cases hst
  | cancel | activate => cases hp

theorem Job.Moves.sameClaim (h : j.Moves now j') (hp : j'.status = .processing) :
    j.SameClaim j' := by
  induction h with
  | refl => exact ⟨hp, hp, rfl, rfl, rfl, rfl⟩
  | tail _ hm ih =>
    have h₂ := hm.sameClaim hp
    exact (ih h₂.processing).trans h₂

theorem Job.Moves.leaseLive (h : j.Moves now j') {t : Time} (ht : now ≤ t)
    (hl : j'.leaseLive t = true) : j.leaseLive now = true := by
  suffices j.leaseLive now = true ∨ j'.leaseExpiresAt = j.leaseExpiresAt by
    rcases this with h | h
    · exact h
    · rw [Job.leaseLive, h, Option.any_eq_true] at hl
      obtain ⟨e, he, hlt⟩ := hl
      rw [Job.leaseLive, he]
      exact decide_eq_true (lt_of_le_of_lt ht (of_decide_eq_true hlt))
  clear hl
  induction h with
  | refl => exact .inr rfl
  | tail _ hm ih =>
    rcases ih with ih | ih
    · exact .inl ih
    · cases hm with
      | renew _ _ _ hlive =>
        left
        rw [Job.leaseLive, ← ih]
        exact hlive
      | regate | setMode | setPriority | reparent | cancel | activate | reopen => exact .inr ih

end Moves

namespace Db

variable {db : Db} {now : Time} {i : JobId} {lease : LeaseId}

variable {c : Stmt} {cfg : Config} {f : Job → Job} {j : Job} {p : Job → Bool} {q : Presented}

theorem not_processing_of_claimable (h : j.claimable now = true) :
    j.status ≠ .processing := by
  intro hs
  simp [Job.claimable, hs, Status.waiting] at h

/-- **A row processing after a statement was claimed by it, or goes on with its claim.** -/
theorem exec_processing {j' : Job}
    (h : (c.exec cfg now db).job i = some j') (hs : j'.status = .processing) :
    c.issues now db i = j'.leaseId ∧ j'.leaseId.isSome = true ∨
      c.issues now db i = none ∧ ∃ j, db.job i = some j ∧ j.SameClaim j' := by
  have hr := c.exec_rowStep cfg now db i
  rw [h] at hr
  generalize ho : db.job i = o at hr
  cases hr with
  | created hf => have := hf.fresh.waiting; rw [hs] at this; cases this
  | @moved j _ hc hm =>
    have hi := hc.issues
    rw [job_id ho] at hi
    exact .inr ⟨hi, j, rfl, hm.sameClaim hs⟩
  | claimed worker lease len started _ hi =>
    rw [job_id ho] at hi
    exact .inl ⟨hi, rfl⟩
  | ended _ he => cases he <;> cases hs
  | deadlettered | failed | unsent => cases hs
  | revived _ _ _ _ hm => cases (hm.sameClaim hs).processing

theorem exec_goesOn {j' : Job}
    (h : (c.exec cfg now db).job i = some j') (hs : j'.status = .processing)
    (hno : c.issues now db i = none) : ∃ j, db.job i = some j ∧ j.Moves now j' := by
  have hr := c.exec_rowStep cfg now db i
  rw [h] at hr
  generalize ho : db.job i = o at hr
  cases hr with
  | created hf => have := hf.fresh.waiting; rw [hs] at this; cases this
  | @moved j _ hc hm => exact ⟨j, rfl, hm⟩
  | claimed worker lease len started _ hi =>
    rw [job_id ho, hno] at hi
    cases hi
  | ended _ he => cases he <;> cases hs
  | deadlettered | failed | unsent => cases hs
  | revived _ _ _ _ hm => cases (hm.sameClaim hs).processing

theorem exec_issued (cfg : Config) (hj : db.job i = some j)
    (hi : c.issues now db i = some lease) : ∃ worker len started, (c.exec cfg now db).job i =
      some (j.written now (claimRow now worker lease len started)) := by
  have hr := c.exec_rowStep cfg now db i
  have hno : ∀ {k}, c.Spares now db k → k ≠ j := by
    rintro k hc rfl
    have := hc.issues
    rw [job_id hj, hi] at this
    cases this
  rw [hj] at hr
  generalize (c.exec cfg now db).job i = o at hr
  cases hr with
  | deleted _ hc | moved hc _ | ended hc _ => exact absurd rfl (hno hc)
  | claimed worker lease' len started _ hi' =>
    rw [job_id hj, hi] at hi'
    cases hi'
    exact ⟨worker, len, started, rfl⟩
  | deadlettered _ hc | revived _ _ _ hc => cases c <;> first | cases hi | cases hc
  | failed _ _ _ _ _ hc | unsent _ _ _ hc => subst hc; cases hi

theorem job_of_issues (hi : c.issues now db i = some lease) : ∃ j, db.job i = some j := by
  have hsel : ∃ p n, i ∈ db.selectForClaim p n := by
    cases c with
    | claimBatch | dequeue | claimJob =>
      simp only [Stmt.issues] at hi
      split at hi <;> cases hi
      next hsel => exact ⟨_, _, hsel⟩
    | _ => cases hi
  obtain ⟨p, n, hsel⟩ := hsel
  obtain ⟨j, hj, -, rfl⟩ := mem_selectForClaim hsel
  exact ⟨j, job_of_mem hj⟩

theorem holds_exec (h : (c.exec cfg now db).Holds i lease) :
    c.issues now db i = some lease ∨ c.issues now db i = none ∧ db.Holds i lease := by
  obtain ⟨j', hj', hs, hl⟩ := h
  rcases exec_processing hj' hs with ⟨hi, -⟩ | ⟨hi, j, hj, hsame⟩
  · exact .inl (hi.trans hl)
  · exact .inr ⟨hi, j, hj, hsame.processing, hsame.leaseId.symm.trans hl⟩

theorem selectForClaim_one {k : JobId} (hi : i ∈ db.selectForClaim p 1)
    (hk : k ∈ db.selectForClaim p 1) : i = k := by
  simp only [selectForClaim, List.map_take] at hi hk
  cases h : (((db.jobs.rows.filter p).insertionSort Job.claimedBefore).map (·.id)) with
  | nil => rw [h] at hi; cases hi
  | cons x xs =>
    rw [h, List.take_succ_cons, List.take_zero, List.mem_singleton] at hi hk
    rw [hi, hk]

theorem issues_inj {k : JobId} (hi : c.issues now db i = some lease)
    (hk : c.issues now db k = some lease) : i = k := by
  cases c with
  | claimBatch =>
    simp only [Stmt.issues] at hi hk
    split at hi <;> split at hk <;> simp_all
    rw [← hk] at hi
    exact (LeaseId.batch.inj hi).2
  | dequeue | claimJob =>
    simp only [Stmt.issues] at hi hk
    split at hi <;> split at hk <;> simp_all
    exact selectForClaim_one ‹_› ‹_›
  | _ => cases hi

theorem heldBy_job (hj : j ∈ db.jobs.rows) (hh : j.heldBy now q = true) :
    db.job q.job = some j := by
  have hid : j.id = q.job := by
    simp only [Job.heldBy, Bool.and_eq_true, beq_iff_eq] at hh
    exact hh.1.1.1.1.1.1
  rw [← hid]; exact job_of_mem hj

theorem heldBy_holds (hj : j ∈ db.jobs.rows)
    (hh : j.heldBy now q = true) : ∃ lease, q.leaseId = some lease ∧ db.Holds q.job lease := by
  have hl := hh
  simp only [Job.heldBy, Bool.and_eq_true, beq_iff_eq] at hl
  obtain ⟨lease, hq⟩ := Option.isSome_iff_exists.1 hl.1.2.1
  exact ⟨lease, hq, j, heldBy_job hj hh, heldBy_processing hh, hl.1.2.2.trans hq⟩

theorem not_holds_setStatus (hj : db.job i = some j)
    (hp : p j = true) (hf : (f j).status ≠ .processing) : ¬ (db.setStatus now p f).Holds i lease := by
  rintro ⟨j', hj', hs, -⟩
  obtain ⟨k, hk, hks⟩ := status_setStatus (f := f) hj hp
  rw [hk] at hj'
  cases hj'
  exact hf (hks ▸ hs)

theorem not_holds_settled
    (hc : c.settling = some q) (hj : j ∈ db.jobs.rows) (hh : j.heldBy now q = true) :
    ¬ (c.exec cfg now db).Holds q.job lease := by
  have hq := heldBy_job hj hh
  cases c with
  | complete q' => cases hc; exact not_holds_setStatus hq hh (by simp)
  | failWrite q' read error jitter =>
    cases hc
    simp only [Stmt.exec, failWrite]
    split
    · exact not_holds_setStatus hq hh (by simp)
    · exact not_holds_setStatus (f := deadletterRow error) hq hh (by simp)
  | failGrpc q' retry error =>
    cases hc
    refine not_holds_setStatus (f := fun j => if grpcDeadletters retry j then deadletterRow error j
      else rescheduleRow error (j.retryCount + 1) (now + secs (backoffSecs j.retryCount)) j) hq hh ?_
    split <;> simp
  | _ => cases hc

theorem job_setStatus_idle (hp : ∀ j ∈ db.jobs.rows, p j = false) :
    (db.setStatus now p f).job i = db.job i := by
  rw [job_setStatus (fun j hj h => by rw [hp j hj] at h; cases h)]
  cases hj : db.job i with
  | none => rfl
  | some j => simp [hp j (job_mem hj)]

theorem job_setJobs_idle (hp : ∀ j ∈ db.jobs.rows, p j = false) :
    (db.setJobs now p f).job i = db.job i := by
  rw [job_setJobs]
  cases hj : db.job i with
  | none => rfl
  | some j => simp [hp j (job_mem hj)]

/-- **A complete, fail or renewal that changes any row matched the row it names.** -/
theorem heldBy_of_changed (hc : c.presents = some q)
    (h : (c.exec cfg now db).job i ≠ db.job i) : ∃ j ∈ db.jobs.rows, j.heldBy now q = true := by
  by_contra hno
  have hp : ∀ j ∈ db.jobs.rows, j.heldBy now q = false := by
    intro j hj
    by_contra hne
    exact hno ⟨j, hj, by simpa using hne⟩
  apply h
  cases c with
  | complete q' => cases hc; exact job_setStatus_idle hp
  | failWrite q' read error jitter =>
    cases hc
    simp only [Stmt.exec, failWrite]
    split
    · exact job_setStatus_idle hp
    · exact job_setStatus_idle (f := deadletterRow error) hp
  | failGrpc q' retry error =>
    cases hc
    exact job_setStatus_idle (f := fun j => if grpcDeadletters retry j then deadletterRow error j
      else rescheduleRow error (j.retryCount + 1) (now + secs (backoffSecs j.retryCount)) j) hp
  | renewLeaseFor | renewLease => cases hc; exact job_setJobs_idle hp
  | _ => cases hc

end Db

/-! ## The run invariant -/

variable {cfg : Config} {s s' : Sys} {a : Label} {h : List (Sys × Label)} {i : JobId}
  {lease : LeaseId}

theorem Sys.holds_step (hn : s.next cfg a = some s') (hl : s'.db.Holds i lease) :
    s.issues a i = some lease ∨
      s.issues a i = none ∧ s.ends cfg a i = false ∧ s.db.Holds i lease := by
  have hends : s.ends cfg a i = false := by
    obtain ⟨j, hj, hs, -⟩ := hl
    simp [Sys.ends, hn, Db.processing, hj, hs]
  cases Sys.step_of_next hn with
  | stmt c k ha _ _ hdb =>
    rw [hdb] at hl
    simp only [Sys.issues, ha, Option.bind_some]
    rcases Db.holds_exec hl with h | ⟨h₁, h₂⟩
    · exact .inl h
    · exact .inr ⟨h₁, hends, h₂⟩
  | idle ha _ hdb =>
    rw [hdb] at hl
    exact .inr ⟨by simp [Sys.issues, ha], hends, hl⟩

theorem Sys.issues_fresh (hn : s.next cfg a = some s') (hi : s.issues a i = some lease) :
    lease.uuid = s.uuid ∧ s.uuid < s'.uuid := by
  cases Sys.step_of_next hn with
  | stmt c k ha hacts _ _ _ hu =>
    simp only [Sys.issues, ha, Option.bind_some] at hi
    obtain ⟨h₁, h₂⟩ := hacts.issues hi
    exact ⟨h₁, by omega⟩
  | idle ha => simp [Sys.issues, ha] at hi

theorem Sys.uuid_mono (hn : s.next cfg a = some s') : s.uuid ≤ s'.uuid := by
  cases Sys.step_of_next hn with
  | stmt _ _ _ _ _ _ _ hu => omega
  | idle _ _ _ _ hu => omega

theorem Sys.settles_cases (hs : s.settles a = some lease) : ∃ c k q j, s.action a = some (c, k) ∧
    c.settling = some q ∧ j ∈ s.db.jobs.rows ∧ j.heldBy s.now q = true ∧ q.leaseId = some lease := by
  obtain ⟨⟨c, k⟩, ha, hs⟩ := Option.bind_eq_some_iff.1 hs
  obtain ⟨q, hq, hs⟩ := Option.bind_eq_some_iff.1 hs
  split at hs
  · next hany =>
    obtain ⟨j, hj, hh⟩ := List.any_eq_true.1 hany
    exact ⟨c, k, q, j, ha, hq, hj, hh, hs⟩
  · cases hs

/-- What every reachable state and its history have in common. -/
structure LeaseInvariant (cfg : Config) (s : Sys) (h : List (Sys × Label)) : Prop where
  fresh : ∀ i lease, s.db.Holds i lease → lease.uuid < s.uuid
  current : ∀ i lease, s.db.Holds i lease → currentLease cfg h i = some lease
  unique : ∀ i k lease, s.db.Holds i lease → s.db.Holds k lease → i = k
  settled : ∀ x ∈ h, ∀ lease, x.1.settles x.2 = some lease →
    lease.uuid < s.uuid ∧ ∀ i, ¬ s.db.Holds i lease
  once : ∀ lease, h.countP (fun x => x.1.settles x.2 = some lease) ≤ 1

theorem leaseInvariant_init (hi : (system cfg).Init s) : LeaseInvariant cfg s [] := by
  have hno : ∀ i lease, ¬ s.db.Holds i lease := by
    rintro i lease ⟨j, hj, -⟩
    rw [hi.1] at hj
    cases hj
  exact ⟨fun i l hl => (hno i l hl).elim, fun i l hl => (hno i l hl).elim,
    fun i _ l hl => (hno i l hl).elim, by simp, by simp⟩

theorem LeaseInvariant.settles_step (I : LeaseInvariant cfg s h) (hn : s.next cfg a = some s')
    (hs : s.settles a = some lease) :
    (∃ i, s.db.Holds i lease) ∧ ∀ i, ¬ s'.db.Holds i lease := by
  obtain ⟨c, k, q, j, ha, hc, hj, hh, hq⟩ := Sys.settles_cases hs
  obtain ⟨lease', hq', hl⟩ := Db.heldBy_holds hj hh
  obtain rfl : lease' = lease := Option.some.inj (hq'.symm.trans hq)
  refine ⟨⟨q.job, hl⟩, fun i hi => ?_⟩
  rcases Sys.holds_step hn hi with hiss | ⟨-, -, hi'⟩
  · have := (Sys.issues_fresh hn hiss).1
    have := I.fresh _ _ hl
    omega
  · obtain rfl := I.unique _ _ _ hi' hl
    cases Sys.step_of_next hn with
    | stmt c' k' ha' _ _ hdb =>
      rw [ha] at ha'; cases ha'
      rw [hdb] at hi
      exact Db.not_holds_settled hc hj hh hi
    | idle ha' => rw [ha] at ha'; cases ha'

theorem LeaseInvariant.step (I : LeaseInvariant cfg s h) (hn : s.next cfg a = some s') :
    LeaseInvariant cfg s' ((s, a) :: h) := by
  have hmono := Sys.uuid_mono hn
  -- a lease settled earlier is neither kept nor issued again
  have hold : ∀ lease, lease.uuid < s.uuid → (∀ i, ¬ s.db.Holds i lease) →
      ∀ i, ¬ s'.db.Holds i lease := by
    intro lease hlt hno i hi
    rcases Sys.holds_step hn hi with hiss | ⟨-, -, hi'⟩
    · have := (Sys.issues_fresh hn hiss).1
      omega
    · exact hno i hi'
  refine ⟨?_, ?_, ?_, ?_, ?_⟩
  · intro i lease hl
    rcases Sys.holds_step hn hl with hiss | ⟨-, -, hl'⟩
    · have := Sys.issues_fresh hn hiss
      omega
    · have := I.fresh i lease hl'
      omega
  · intro i lease hl
    unfold currentLease
    rcases Sys.holds_step hn hl with hiss | ⟨hno, hends, hl'⟩
    · rw [hiss]
    · rw [hno, hends]
      exact I.current i lease hl'
  · intro i k lease hi hk
    rcases Sys.holds_step hn hi with hi' | ⟨-, -, hi'⟩ <;>
      rcases Sys.holds_step hn hk with hk' | ⟨-, -, hk'⟩
    · obtain ⟨⟨c, k⟩, ha, hci⟩ := Option.bind_eq_some_iff.1 hi'
      simp only [Sys.issues, ha, Option.bind_some] at hk'
      exact Db.issues_inj hci hk'
    · have := (Sys.issues_fresh hn hi').1
      have := I.fresh k lease hk'
      omega
    · have := (Sys.issues_fresh hn hk').1
      have := I.fresh i lease hi'
      omega
    · exact I.unique i k lease hi' hk'
  · intro x hx lease hs
    rcases List.mem_cons.1 hx with rfl | hx
    · obtain ⟨⟨i, hl⟩, hno⟩ := I.settles_step hn hs
      have := I.fresh i lease hl
      exact ⟨by omega, hno⟩
    · obtain ⟨hlt, hno⟩ := I.settled x hx lease hs
      exact ⟨by omega, hold lease hlt hno⟩
  · intro lease
    rw [List.countP_cons]
    split
    · next hs =>
      simp only [decide_eq_true_eq] at hs
      have hzero : h.countP (fun x => x.1.settles x.2 = some lease) = 0 := by
        rw [List.countP_eq_zero]
        intro x hx hx'
        obtain ⟨⟨i, hl⟩, -⟩ := I.settles_step hn hs
        exact (I.settled x hx lease (by simpa using hx')).2 i hl
      omega
    · exact I.once lease

theorem leaseInvariant_of_run (hr : (system cfg).Run s h) : LeaseInvariant cfg s h :=
  hr.invariant (C := fun _ _ => True) (fun _ => leaseInvariant_init)
    (fun _ _ _ _ _ _ I _ hn => I.step hn) (fun _ _ => trivial)

/-! ## The fence -/

/-- **Lease fencing.** A complete, fail or renewal that changes any row was
presented the lease of the most recent claim of its job, which has not ended
and not expired; and each lease id settles at most once in the whole run. -/
theorem lease_fencing (hr : (system cfg).Run s h) :
    (∀ a s' q, s.next cfg a = some s' → s.presents a = some q →
      (∃ i, s'.db.job i ≠ s.db.job i) →
      ∃ lease j, q.leaseId = some lease ∧ currentLease cfg h q.job = some lease ∧
        s.db.job q.job = some j ∧ j.status = .processing ∧ j.leaseLive s.now = true) ∧
    ∀ lease, h.countP (fun x => x.1.settles x.2 = some lease) ≤ 1 := by
  have I := leaseInvariant_of_run hr
  refine ⟨?_, I.once⟩
  intro a s' q hn hq ⟨i, hi⟩
  obtain ⟨⟨c, k⟩, ha, hc⟩ := Option.bind_eq_some_iff.1 hq
  cases Sys.step_of_next hn with
  | idle ha' => rw [ha] at ha'; cases ha'
  | stmt c' k' ha' _ _ hdb =>
    rw [ha] at ha'; cases ha'
    rw [hdb] at hi
    obtain ⟨j, hj, hh⟩ := Db.heldBy_of_changed hc hi
    obtain ⟨lease, hql, hl⟩ := Db.heldBy_holds hj hh
    have hlive : j.leaseLive s.now = true := by
      simp only [Job.heldBy, Bool.and_eq_true] at hh
      exact hh.1.1.2
    exact ⟨lease, j, hql, I.current _ _ hl, Db.heldBy_job hj hh, Db.heldBy_processing hh, hlive⟩

/-- A created and claimed job is completed under its lease. -/
theorem lease_fencing_complete : ∃ s h s', (system {}).Run s h ∧
    s.next {} (.stmt (.complete (clientHolds 0 (.single 1)))) = some s' ∧
    s'.db.job 0 ≠ s.db.job 0 ∧ currentLease {} h 0 = some (.single 1) := by
  set a := Label.stmt (.complete (clientHolds 0 (.single 1))) with ha
  obtain ⟨s, h, hr, hp⟩ := Machine.Run.of_exec (system {})
    [.createCheck clientCreate, .createInsert 0, .stmt (.dequeue 1 clientClaim)] {}
    (fun x => (Sys.next {} x.1 a).any fun s' => s'.db.job 0 != x.1.db.job 0)
    ⟨rfl, rfl⟩ (by decide +kernel)
  obtain ⟨s', hn, hne⟩ := (Option.any_eq_true _ _).1 hp
  have hne : s'.db.job 0 ≠ s.db.job 0 := by simpa using hne
  obtain ⟨lease, j, hl, hcur, -⟩ := (lease_fencing hr).1 a s' _ hn rfl ⟨0, hne⟩
  exact ⟨s, h, s', hr, hn, hne, hcur.trans hl.symm⟩

end Spooled
