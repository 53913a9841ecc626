import Spooled.Job.Lease

/-!
# The dead-letter table mirrors job state

Five statements dead-letter a job and insert its `dead_letter_queue` row in the
same transaction; the job retry and the dead-letter retry delete it again. The
workflow retry does not: a dead-lettered step it resets keeps its row, so the
mirror holds in the runs in which no workflow retry meets such a step.
`sweptLetters` accounts for the rows that only the age sweep removed.
-/

namespace Spooled

open List

/-- How many dead-letter rows refer to job `i`. -/
def Db.letters (db : Db) (i : JobId) : Nat := db.deadLetters.countP fun d => decide (d.job = i)

def Db.dead (db : Db) (i : JobId) : Bool := (db.job i).any (·.status == .deadletter)

/-! ## Which rows become and stay dead-lettered -/

section RowStep

variable {cfg : Config} {now : Time} {db : Db} {c : Stmt} {j j' : Job}

theorem Job.Moves.deadletter_iff (h : j.Moves now j') :
    j'.status = .deadletter ↔ j.status = .deadletter := by
  induction h with
  | refl => exact Iff.rfl
  | tail _ hm ih =>
    rw [← ih]
    cases hm with
    | regate | setMode | setPriority | reparent | renew => exact Iff.rfl
    | cancel e hs =>
      constructor
      · intro h; cases h
      · intro h; rw [h] at hs; cases hs
    | activate hs =>
      constructor
      · intro h; cases h
      · intro h; rw [hs] at h; cases h
    | reopen st hs hst =>
      constructor
      · rintro rfl
        cases hst
      · intro h
        simp [Db.sweptAway, h] at hs

theorem deadletters_processing (h : c.deadletters now db j = true) : j.status = .processing := by
  cases c with
  | failWrite | failGrpc | deadletterExpiredLeases | deadletterOfflineWorkers =>
    simp only [Stmt.deadletters, Bool.and_eq_true] at h
    first
      | exact Db.heldBy_processing h.2
      | exact Db.heldBy_processing h.1
      | exact Db.leaseExpired_processing h.1
      | exact Db.abandoned_processing h.1
  | deadLetterOversized => exact Db.claimedUnder_processing h
  | _ => cases h

/-- **One statement dead-letters the rows it says and revives the rows it says.** -/
theorem RowStep.deadletter_iff (h : RowStep cfg now db c (some j) (some j')) :
    j'.status = .deadletter ↔
      c.deadletters now db j = true ∨ j.status = .deadletter ∧ c.revives db j = false := by
  cases h with
  | moved hc hm => rw [hm.deadletter_iff, hc.deadletters, hc.revives]; simp
  | claimed worker lease len started hcl hi =>
    constructor
    · intro h; cases h
    · rintro (h | ⟨h, -⟩)
      · exact absurd (deadletters_processing h) (Db.not_processing_of_claimable hcl)
      · simp [Job.claimable, h, Status.waiting] at hcl
  | ended hc he =>
    rw [hc.deadletters]
    cases he with
    | complete m t hs | reschedule error t hs | release error hs => simp [hs, Job.regate]
  | deadlettered error hd hs => exact ⟨fun _ => .inl hd, fun _ => rfl⟩
  | failed q read error jitter t hc hh hlt =>
    subst hc
    simp [Stmt.deadletters, hlt, Db.heldBy_processing hh]
  | unsent k org lease hc hu =>
    subst hc
    simp [Stmt.deadletters, Db.claimedUnder_processing hu]
  | revived st ct m hr hm =>
    rw [hm.deadletter_iff, hr]
    constructor
    · intro h; cases h
    · rintro (h | ⟨-, h⟩)
      · cases c <;> first | cases hr | cases h
      · cases h

end RowStep

/-! ## What a statement does to the dead-letter rows of a job -/

def Stmt.forgets (db : Db) (j : Job) : Stmt → Bool
  | .retryJob i org => db.retryable i org j
  | .retryDlq org pick => db.dlqRetryable org pick j
  | _ => false

namespace Db

variable {db db' : Db} {now : Time} {i : JobId} {j : Job} {p : Job → Bool}

theorem letters_congr (h : db'.deadLetters = db.deadLetters) : db'.letters i = db.letters i := by
  simp only [letters, h]

theorem letters_insertDeadLetters (reason : String) (h : db'.deadLetters = db.deadLetters) :
    (db'.insertDeadLetters now reason (db.jobs.rows.filter p)).letters i =
      db.letters i + ((db.job i).any p).toNat := by
  simp only [letters, insertDeadLetters, countP_append, h, countP_map]
  congr 1
  exact db.jobs.countP_key_filter p i

theorem letters_deadletterWhere (error : String) :
    (db.deadletterWhere now error p).letters i = db.letters i + ((db.job i).any p).toNat :=
  letters_insertDeadLetters error (by simp)

theorem letters_dropDeadLetters {org : OrgId} {ids : List JobId} (h : db'.deadLetters = db.deadLetters)
    (horg : ∀ d ∈ db.deadLetters, d.job = i → i ∈ ids → d.organizationId = org) :
    (db'.dropDeadLetters org ids).letters i = if i ∈ ids then 0 else db.letters i := by
  simp only [letters, dropDeadLetters, h, countP_filter]
  split
  · next hi =>
    rw [countP_eq_zero]
    intro d hd hc
    simp only [Bool.and_eq_true, decide_eq_true_eq] at hc
    simp [hc.1, hi, horg d hd hc.1 hi] at hc
  · next hi =>
    refine countP_congr fun d _ => ?_
    by_cases hd : d.job = i
    · simp [hd, hi]
    · simp [hd]

theorem letters_filter {keep : DeadLetter → Bool}
    (h : ∀ d ∈ db.deadLetters, d.job = i → keep d = true) :
    (db.deadLetters.filter keep).countP (fun d => decide (d.job = i)) = db.letters i := by
  rw [letters, countP_filter]
  refine countP_congr fun d hd => ?_
  by_cases hi : d.job = i
  · simp [hi, h d hd hi]
  · simp [hi]

theorem any_eq_of_job (hj : db.job i = some j) : ((db.job i).any p).toNat = (p j).toNat := by
  rw [hj]; rfl

end Db

/-- **What one statement does to the dead-letter rows of a job it leaves in the
table**, given that the rows carry the job's organization and queue. -/
theorem Stmt.exec_letters {cfg : Config} {now : Time} {db : Db} {c : Stmt} {i : JobId} {j j' : Job}
    (hj : db.job i = some j) (hj' : (c.exec cfg now db).job i = some j')
    (hd : ∀ d ∈ db.deadLetters, d.job = i →
      d.organizationId = j.organizationId ∧ d.queueName = j.queueName)
    (hc : ∀ retention pick, c ≠ .cleanupDeadLetters retention pick) :
    (c.exec cfg now db).letters i =
      (bif c.forgets db j then 0 else db.letters i) + (c.deadletters now db j).toNat := by
  cases hw : c.writesRest with
  | false =>
    have hf : c.forgets db j = false := by cases c <;> first | rfl | cases hw
    have hdl : c.deadletters now db j = false := by cases c <;> first | rfl | cases hw
    rw [Db.letters_congr (c.exec_frame cfg now db hw).deadLetters, hf, hdl]
    rfl
  | true =>
    cases c with
    | failWrite q read error jitter =>
      simp only [exec, Db.failWrite, forgets, deadletters]
      split
      · next hr =>
        rw [Db.letters_congr Db.setStatus_deadLetters]
        simp [hr]
      · next hr =>
        rw [Db.letters_deadletterWhere, Db.any_eq_of_job hj]
        simp [not_lt.1 hr]
    | failGrpc q retry error =>
      simp only [exec, Db.failGrpc, forgets, deadletters]
      rw [Db.letters_insertDeadLetters error Db.setStatus_deadLetters, Db.any_eq_of_job hj]
      rfl
    | deadLetterOversized k org lease reason =>
      simp only [exec, Db.deadLetterOversized, forgets, deadletters]
      rw [Db.letters_deadletterWhere, Db.job_setJobs_some hj]
      have hsame : ∀ j : Job, Db.claimedUnder k org lease (j.written now fun j =>
        { j with leaseExpiresAt := some now }) = Db.claimedUnder k org lease j := fun _ => rfl
      by_cases hu : Db.claimedUnder k org lease j = true
      · simp [hu, hsame]
        rfl
      · simp [hu]
        rfl
    | deadletterExpiredLeases | deadletterOfflineWorkers =>
      simp only [exec, Db.deadletterExpiredLeases, Db.deadletterOfflineWorkers, forgets, deadletters]
      rw [Db.letters_deadletterWhere, Db.any_eq_of_job hj]
      rfl
    | markStaleWorkers | upsertWorker | putQueueConfig => rfl
    | cleanupDeadLetters retention pick => exact absurd rfl (hc retention pick)
    | retryJob k org =>
      simp only [exec, Db.retryJob, forgets, deadletters, Bool.toNat_false, Nat.add_zero]
      have hid := Db.job_id hj
      split
      · next hany =>
        obtain ⟨j₀, hm, hr⟩ := any_eq_true.1 hany
        have hiff : i ∈ [k] ↔ db.retryable k org j = true := by
          rw [mem_singleton]
          constructor
          · rintro rfl
            have hj₀ := Db.job_of_mem hm
            simp only [Db.retryable, Bool.and_eq_true, beq_iff_eq] at hr
            rw [hr.1.1.1, hj] at hj₀
            cases hj₀
            simpa [Db.retryable] using hr
          · intro h
            simp only [Db.retryable, Bool.and_eq_true, beq_iff_eq] at h
            rw [← hid, h.1.1.1]
        rw [Db.letters_congr (Db.frame_reopenAround _ _ _ _).deadLetters,
          Db.letters_dropDeadLetters Db.setStatus_deadLetters]
        · simp only [hiff, Bool.cond_eq_ite]
        · intro d hdm hdi hik
          have hr := hiff.1 hik
          simp only [Db.retryable, Bool.and_eq_true, beq_iff_eq] at hr
          rw [(hd d hdm hdi).1, hr.1.1.2]
      · next hno =>
        rw [Bool.eq_false_iff.2 fun h => hno (any_eq_true.2 ⟨j, Db.job_mem hj, h⟩), cond_false]
    | retryDlq org pick =>
      simp only [exec, Db.retryDlq, forgets, deadletters, Bool.toNat_false, Nat.add_zero]
      have hiff : i ∈ (db.jobs.rows.filter (db.dlqRetryable org pick)).map (·.id) ↔
          db.dlqRetryable org pick j = true := by
        rw [Db.mem_ids_iff_deleted, Db.deleted, hj]
        rfl
      split
      · next hno =>
        rw [List.isEmpty_iff] at hno
        have hf : db.dlqRetryable org pick j = false := by
          rw [hno] at hiff
          exact Bool.eq_false_iff.2 fun h => not_mem_nil (hiff.2 h)
        rw [hf, cond_false]
      · rw [Db.letters_congr (Db.frame_reopenAround _ _ _ _).deadLetters, Db.resetChildren,
          Db.letters_congr (Db.frame_setJobs _ _ _ _).deadLetters,
          Db.letters_dropDeadLetters Db.setStatus_deadLetters]
        · simp only [hiff, Bool.cond_eq_ite]
        · intro d hdm hdi hik
          have hr := hiff.1 hik
          simp only [Db.dlqRetryable, Bool.and_eq_true, beq_iff_eq] at hr
          rw [(hd d hdm hdi).1, hr.1.1.1]
    | purgeDlq org pick =>
      simp only [exec, Db.purgeDlq, Db.dropOrphanedDeadLetters, forgets, deadletters,
        Bool.toNat_false, Nat.add_zero] at hj' ⊢
      rw [Db.letters, (Db.frame_deleteJobs db now _).deadLetters]
      refine Db.letters_filter fun d _ hdi => ?_
      have hsome : (db.deleteJobs now (Db.purgeable org pick)).job d.job = some j' := by
        rw [hdi]; exact hj'
      rw [hsome]
      simp
    | deleteQueue org queue =>
      simp only [exec, Db.deleteQueue, forgets, deadletters, Bool.toNat_false, Nat.add_zero] at hj' ⊢
      have hp : Db.inQueue org queue j = false := by
        by_contra hne
        have hj' : (db.deleteJobs now _).job i = some j' := hj'
        rw [Db.job_deleteJobs_deleted hj (by simpa using hne)] at hj'
        cases hj'
      rw [Db.letters, (Db.frame_deleteJobs db now _).deadLetters]
      refine Db.letters_filter fun d hdm hdi => ?_
      rw [(hd d hdm hdi).1, (hd d hdm hdi).2, ← Db.inQueue, hp]
      rfl
    | _ => cases hw

/-- New dead-letter rows are made from rows of `jobs`. -/
theorem Stmt.mem_exec_deadLetters {cfg : Config} {now : Time} {db : Db} {c : Stmt} {d : DeadLetter}
    (h : d ∈ (c.exec cfg now db).deadLetters) : d ∈ db.deadLetters ∨ ∃ j, db.job d.job = some j ∧
      d.organizationId = j.organizationId ∧ d.queueName = j.queueName := by
  have inserted : ∀ {db' : Db} {reason : String} {p : Job → Bool}, db'.deadLetters = db.deadLetters →
      d ∈ (db'.insertDeadLetters now reason (db.jobs.rows.filter p)).deadLetters →
      d ∈ db.deadLetters ∨ ∃ j, db.job d.job = some j ∧
        d.organizationId = j.organizationId ∧ d.queueName = j.queueName := by
    intro db' reason p he h
    simp only [Db.insertDeadLetters, he, mem_append, mem_map, mem_filter] at h
    rcases h with h | ⟨j, ⟨hj, -⟩, rfl⟩
    · exact .inl h
    · exact .inr ⟨j, Db.job_of_mem hj, rfl, rfl⟩
  cases hw : c.writesRest with
  | false => rw [(c.exec_frame cfg now db hw).deadLetters] at h; exact .inl h
  | true =>
    cases c with
    | failWrite q read error jitter =>
      simp only [exec, Db.failWrite] at h
      split at h
      · rw [Db.setStatus_deadLetters] at h; exact .inl h
      · exact inserted Db.setStatus_deadLetters h
    | failGrpc | deadletterExpiredLeases | deadletterOfflineWorkers =>
      exact inserted Db.setStatus_deadLetters h
    | deadLetterOversized k org lease reason =>
      simp only [exec, Db.deadLetterOversized, Db.deadletterWhere, Db.insertDeadLetters,
        Db.setStatus_deadLetters, Db.setJobs_deadLetters, mem_append, mem_map,
        mem_filter] at h
      rcases h with h | ⟨j', ⟨hj', -⟩, rfl⟩
      · exact .inl h
      · have hj' := Db.job_of_mem hj'
        rw [Db.job_setJobs] at hj'
        obtain ⟨j, hj, hw'⟩ := Option.map_eq_some_iff.1 hj'
        refine .inr ⟨j, hj, ?_⟩
        rw [← hw']
        split <;> exact ⟨rfl, rfl⟩
    | markStaleWorkers | upsertWorker | putQueueConfig => exact .inl h
    | cleanupDeadLetters => exact .inl (mem_filter.1 h).1
    | retryJob k org =>
      left
      simp only [exec, Db.retryJob] at h
      split at h
      · rw [(Db.frame_reopenAround _ _ _ _).deadLetters] at h
        simpa using (mem_filter.1 h).1
      · exact h
    | retryDlq org pick =>
      left
      simp only [exec, Db.retryDlq] at h
      split at h
      · exact h
      · rw [(Db.frame_reopenAround _ _ _ _).deadLetters] at h
        simpa using (mem_filter.1 h).1
    | purgeDlq | deleteQueue =>
      have h := (mem_filter.1 h).1
      rw [(Db.frame_deleteJobs db now _).deadLetters] at h
      exact .inl h
    | _ => cases hw

/-! ## The mirror along a run -/

/-- How many dead-letter rows of job `i` the age sweep of this step removes. -/
def Sys.sweeps (s : Sys) (i : JobId) : Label → Nat
  | .stmt (.cleanupDeadLetters retention pick) =>
    s.db.letters i - (s.db.cleanupDeadLetters s.now retention pick).letters i
  | _ => 0

/-- The dead-letter rows of job `i` that the age sweep removed since the job
was last dead-lettered. -/
def sweptLetters (cfg : Config) : List (Sys × Label) → JobId → Nat
  | [], _ => 0
  | (s, a) :: h, i =>
    if s.db.dead i && (s.next cfg a).any (·.db.dead i) then sweptLetters cfg h i + s.sweeps i a
    else 0

/-- No dead-lettered step is reset by a workflow retry. -/
def SparesDeadSteps (s : Sys) (a : Label) : Prop :=
  ∀ w org, a = .stmt (.retryWorkflow w org) → ∀ j ∈ s.db.jobs.rows,
    (Stmt.retryWorkflow w org).revives s.db j = true → j.status ≠ .deadletter

structure MirrorInvariant (cfg : Config) (s : Sys) (h : List (Sys × Label)) : Prop where
  ids : ∀ i j, s.db.job i = some j → j.id < s.uuid
  letterIds : ∀ d ∈ s.db.deadLetters, d.job < s.uuid
  origin : ∀ d ∈ s.db.deadLetters, ∀ j, s.db.job d.job = some j →
    d.organizationId = j.organizationId ∧ d.queueName = j.queueName
  mirrors : ∀ i j, s.db.job i = some j →
    s.db.letters i + sweptLetters cfg h i = (j.status == .deadletter).toNat

section Step

variable {cfg : Config} {s s' : Sys} {a : Label} {h : List (Sys × Label)} {i : JobId} {j j' : Job}
  {c : Stmt} {k : Sys → Sys}

theorem mirrorInvariant_init (hi : (system cfg).Init s) : MirrorInvariant cfg s [] := by
  obtain ⟨hdb, -⟩ := hi
  refine ⟨?_, by simp [hdb], by simp [hdb], ?_⟩
  · intro i j hj
    rw [hdb] at hj
    cases hj
  · intro i j hj
    rw [hdb] at hj
    cases hj

theorem MirrorInvariant.letters_eq_zero (I : MirrorInvariant cfg s h) (hi : s.uuid ≤ i) :
    s.db.letters i = 0 := by
  rw [Db.letters, countP_eq_zero]
  intro d hd hdi
  have hlt := I.letterIds d hd
  rw [of_decide_eq_true hdi] at hlt
  exact absurd hi (not_le.2 hlt)

theorem dead_eq (hj : s.db.job i = some j) : s.db.dead i = (j.status == .deadletter) := by
  rw [Db.dead, hj]; rfl

theorem forgets_revives {db : Db} (hf : c.forgets db j = true) : c.revives db j = true := by
  cases c <;> first | exact hf | cases hf

theorem forgets_of_revives (hC : SparesDeadSteps s a) (ha : s.Acts a c k)
    (hj : s.db.job i = some j) (hd : j.status = .deadletter) (hr : c.revives s.db j = true) :
    c.forgets s.db j = true := by
  cases c with
  | retryJob | retryDlq => exact hr
  | retryWorkflow w org =>
    cases ha
    exact absurd hd (hC w org rfl j (Db.job_mem hj) hr)
  | _ => cases hr

theorem MirrorInvariant.mirrors_kept (I : MirrorInvariant cfg s h) (hC : SparesDeadSteps s a)
    (hn : s.next cfg a = some s') (hj : s.db.job i = some j) (hj' : s'.db.job i = some j') :
    s'.db.letters i + sweptLetters cfg ((s, a) :: h) i = (j'.status == .deadletter).toNat := by
  have hI := I.mirrors i j hj
  unfold sweptLetters
  rw [hn, dead_eq hj, Option.any_some, dead_eq hj']
  cases Sys.step_of_next hn with
  | idle ha _ hdb =>
    have hsw : s.sweeps i a = 0 := by
      cases a with
      | stmt c => cases c <;> first | rfl | cases ha
      | _ => rfl
    rw [hdb, hj] at hj'
    cases hj'
    rw [hdb, hsw]
    cases hst : (j.status == .deadletter) <;> simp [hst] at hI ⊢ <;> omega
  | stmt c k ha hacts _ hdb =>
    rw [hdb] at hj'
    have hr := c.exec_rowStep cfg s.now s.db i
    rw [hj, hj'] at hr
    have hiff := hr.deadletter_iff
    by_cases hsweep : ∃ retention pick, c = .cleanupDeadLetters retention pick
    · obtain ⟨retention, pick, rfl⟩ := hsweep
      have hjj : s.db.job i = some j' := hj'
      rw [hj] at hjj
      cases hjj
      have ha' : a = .stmt (.cleanupDeadLetters retention pick) := by cases hacts; rfl
      have hle : s'.db.letters i ≤ s.db.letters i := by
        rw [hdb]
        exact filter_sublist.countP_le
      subst ha'
      have hsw : s.sweeps i (.stmt (.cleanupDeadLetters retention pick)) =
          s.db.letters i - s'.db.letters i := by rw [hdb]; rfl
      rw [hsw]
      cases hst : (j.status == .deadletter) <;> simp [hst] at hI ⊢ <;> omega
    · have hsw : s.sweeps i a = 0 := by
        cases a with
        | stmt c' =>
          cases hacts
          cases c with
          | cleanupDeadLetters retention pick => exact absurd ⟨retention, pick, rfl⟩ hsweep
          | _ => rfl
        | _ => rfl
      have hl := Stmt.exec_letters hj hj'
        (fun d hd hdi => I.origin d hd j (by rw [hdi]; exact hj))
        (fun retention pick hc => hsweep ⟨retention, pick, hc⟩)
      rw [← hdb] at hl
      rw [hl, hsw]
      -- the row is dead-lettered, revived, kept dead-lettered, or has nothing to do with it
      by_cases hdl : c.deadletters s.now s.db j = true
      · have hd : (j.status == .deadletter) = false := by simp [deadletters_processing hdl]
        have hd' : (j'.status == .deadletter) = true := by simp [hiff, hdl]
        have hf : c.forgets s.db j = false := by cases c <;> first | rfl | cases hdl
        rw [hd] at hI
        simp only [hdl, hd, hd', hf, cond_false, Bool.toNat_true, Bool.toNat_false, Bool.false_and,
          Bool.false_eq_true, if_false] at hI ⊢
        omega
      · cases hd : (j.status == .deadletter) with
        | false =>
          have hd' : (j'.status == .deadletter) = false := by
            simp only [beq_eq_false_iff_ne, ne_eq] at hd ⊢
            simp [hiff, hdl, hd]
          rw [hd] at hI
          have hl₀ : s.db.letters i = 0 := by
            simp only [Bool.toNat_false] at hI
            omega
          simp [hdl, hd', hl₀]
        | true =>
          have hdead : j.status = .deadletter := by simpa using hd
          cases hrev : c.revives s.db j with
          | false =>
            have hd' : (j'.status == .deadletter) = true := by simp [hiff, hdead, hrev]
            have hf : c.forgets s.db j = false :=
              Bool.eq_false_iff.2 fun hf => by rw [forgets_revives hf] at hrev; cases hrev
            rw [hd] at hI
            simp only [hdl, hd', hf, cond_false, Bool.and_self, if_true, Nat.add_zero,
              Bool.toNat_false]
            exact hI
          | true =>
            have hd' : (j'.status == .deadletter) = false := by
              simp [hiff, hdl, hrev]
            simp [hdl, hd', forgets_of_revives hC hacts hj hdead hrev]

theorem MirrorInvariant.step (I : MirrorInvariant cfg s h) (hC : SparesDeadSteps s a)
    (hn : s.next cfg a = some s') : MirrorInvariant cfg s' ((s, a) :: h) := by
  have hmono := Sys.uuid_mono hn
  cases Sys.step_of_next hn with
  | idle ha _ hdb =>
    refine ⟨?_, ?_, ?_, ?_⟩
    · intro i j hj
      rw [hdb] at hj
      exact lt_of_lt_of_le (I.ids i j hj) hmono
    · intro d hd
      rw [hdb] at hd
      exact lt_of_lt_of_le (I.letterIds d hd) hmono
    · rw [hdb]
      exact I.origin
    · intro i j' hj'
      exact I.mirrors_kept hC hn (by rw [← hdb]; exact hj') hj'
  | stmt c k ha hacts _ hdb _ hu =>
    have hrow : ∀ i, RowStep cfg s.now s.db c (s.db.job i) (s'.db.job i) := by
      intro i
      rw [hdb]
      exact c.exec_rowStep cfg s.now s.db i
    refine ⟨?_, ?_, ?_, ?_⟩
    · intro i j' hj'
      have hr := hrow i
      rw [hj'] at hr
      cases hj : s.db.job i with
      | none =>
        rw [hj] at hr
        cases hr with | created hins => rw [hu]; exact (hacts.inserts hins).2
      | some j =>
        rw [hj] at hr
        rw [hr.sameJob.id]
        exact lt_of_lt_of_le (I.ids i j hj) hmono
    · intro d hd
      rw [hdb] at hd
      rcases Stmt.mem_exec_deadLetters hd with hd | ⟨j, hj, -⟩
      · exact lt_of_lt_of_le (I.letterIds d hd) hmono
      · have := I.ids _ j hj
        rw [Db.job_id hj] at this
        exact lt_of_lt_of_le this hmono
    · intro d hd j' hj'
      rw [hdb] at hd
      have hr := hrow d.job
      rw [hj'] at hr
      cases hj : s.db.job d.job with
      | none =>
        rw [hj] at hr
        cases hr with
        | created hins =>
          rcases Stmt.mem_exec_deadLetters hd with hd | ⟨j, hj₂, -⟩
          · have hlt := I.letterIds d hd
            have hge := (hacts.inserts hins).1
            rw [Db.job_id hj'] at hge
            exact absurd hge (not_le.2 hlt)
          · rw [hj] at hj₂; cases hj₂
      | some j =>
        rw [hj] at hr
        rw [hr.sameJob.organizationId, hr.sameJob.queueName]
        rcases Stmt.mem_exec_deadLetters hd with hd | ⟨j₂, hj₂, ho⟩
        · exact I.origin d hd j hj
        · rw [hj] at hj₂; cases hj₂; exact ho
    · intro i j' hj'
      cases hj : s.db.job i with
      | some j => exact I.mirrors_kept hC hn hj hj'
      | none =>
        have hr := hrow i
        rw [hj, hj'] at hr
        cases hr with
        | created hins =>
          have hge := (hacts.inserts hins).1
          rw [Db.job_id hj'] at hge
          have hw : c.writesRest = false := by cases hins <;> rfl
          have hl : s'.db.letters i = 0 := by
            rw [hdb, Db.letters_congr (c.exec_frame cfg s.now s.db hw).deadLetters]
            exact I.letters_eq_zero hge
          have hd : s.db.dead i = false := by rw [Db.dead, hj]; rfl
          have hwait := hins.fresh.waiting
          unfold sweptLetters
          rw [hl, hd]
          cases hst : j'.status <;> rw [hst] at hwait <;> first | rfl | cases hwait

/-- **The dead-letter table mirrors job state** in every run in which no
workflow retry resets a dead-lettered step: a job that exists is dead-lettered
exactly when one dead-letter row refers to it, rows that the age sweep removed
since then included, and no second row ever does. -/
theorem dead_letters_mirror (hr : (system cfg).Run s h)
    (hC : (system cfg).Steps SparesDeadSteps h) (hj : s.db.job i = some j) :
    (j.status = .deadletter ↔ s.db.letters i + sweptLetters cfg h i = 1) ∧
      s.db.letters i + sweptLetters cfg h i ≤ 1 := by
  have I := hr.invariant (C := SparesDeadSteps) (I := MirrorInvariant cfg)
    (fun _ => mirrorInvariant_init) (fun _ _ _ _ _ _ I hC hn => I.step hC hn) hC
  rw [I.mirrors i j hj]
  cases hst : (j.status == .deadletter) with
  | true | false => simpa using hst

end Step

def failOnce : List Label :=
  [.createCheck { clientCreate with maxRetries := some 0 }, .createInsert 0,
    .stmt (.dequeue 1 clientClaim), .failRead (clientHolds 0 (.single 1)), .failWrite 0 "boom" 0]

theorem dead_letters_mirror_failOnce : ∃ s h, (system {}).Run s h ∧
    (system {}).Steps SparesDeadSteps h ∧ s.db.letters 0 + sweptLetters {} h 0 = 1 := by
  obtain ⟨s, h, hr, hp⟩ := Machine.Run.of_exec (system {}) failOnce {}
    (fun x => (x.1.db.job 0).any (·.status == .deadletter) && x.2.all fun y =>
      match y.2 with
      | .stmt (.retryWorkflow _ _) => false
      | _ => true)
    ⟨rfl, rfl⟩ (by decide +kernel)
  simp only [Bool.and_eq_true, Option.any_eq_true, beq_iff_eq, all_eq_true] at hp
  obtain ⟨⟨j, hj, hd⟩, hall⟩ := hp
  have hC : (system {}).Steps SparesDeadSteps h := by
    intro x hx w org ha
    have := hall x hx
    rw [ha] at this
    cases this
  exact ⟨s, h, hr, hC, (dead_letters_mirror hr hC hj).1.1 hd⟩

/-- A workflow whose only step is dead-lettered is retried: the step is pending
again and its dead-letter row is still there. -/
theorem dead_letters_mirror_workflow_retry : ∃ s h, (system {}).Run s h ∧ sweptLetters {} h 1 = 0 ∧
    ∃ j, s.db.job 1 = some j ∧ j.status = .pending ∧ s.db.letters 1 = 1 := by
  obtain ⟨s, h, hr, hp⟩ := Machine.Run.of_exec (system {})
    [.stmt (.createWorkflow 1 0 1 [{ queueName := "q", maxRetries := some 0 }]),
      .stmt (.dequeue 2 clientClaim), .failRead (clientHolds 1 (.single 2)), .failWrite 0 "boom" 0,
      .stmt (.retryWorkflow 0 1)] {}
    (fun x => (x.1.db.job 1).any (·.status == .pending) && x.1.db.letters 1 == 1 &&
      sweptLetters {} x.2 1 == 0)
    ⟨rfl, rfl⟩ (by decide +kernel)
  simp only [Bool.and_eq_true, Option.any_eq_true, beq_iff_eq] at hp
  obtain ⟨⟨⟨j, hj, hst⟩, hl⟩, hsw⟩ := hp
  exact ⟨s, h, hr, hsw, j, hj, hst, hl⟩

end Spooled
