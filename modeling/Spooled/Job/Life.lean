import Spooled.Dependency.Declare
import Spooled.Job.Lease

/-!
# The life of a job

Which job starts first, that a new workflow has a job that can start, and what no
later step undoes.
-/

namespace Spooled

open List

namespace Db

/-! ## The start -/

variable {db : Db} {now : Time} {server : Int} {org : OrgId} {w : WorkflowId} {base : JobId}
  {defs : List StepDef} {i k : JobId} {j r : Job} {p : Job → Bool} {n : Nat}

instance : IsTrans Job Job.claimedBefore where
  trans a b c hab hbc := by grind [Job.claimedBefore]

instance : Std.Total Job.claimedBefore where
  total a b := by grind [Job.claimedBefore]

theorem claimedBefore_of_select (hj : db.job i = some j) (hi : j.id ∈ db.selectForClaim p n)
    (hk : db.job k = some r) (hp : p r = true) (hout : r.id ∉ db.selectForClaim p n) :
    j.claimedBefore r := by
  set sorted := (db.jobs.rows.filter p).insertionSort Job.claimedBefore
  have hperm : sorted.Perm (db.jobs.rows.filter p) := perm_insertionSort _ _
  have hpair : (sorted.take n ++ sorted.drop n).Pairwise Job.claimedBefore := by
    rw [take_append_drop]
    exact pairwise_insertionSort _ _
  obtain ⟨j', hj', hid⟩ := mem_map.1 hi
  have hrow := job_of_mem (mem_filter.1 (hperm.subset (mem_of_mem_take hj'))).1
  rw [hid, job_id hj, hj] at hrow
  cases hrow
  have hr : r ∈ sorted.take n ++ sorted.drop n := by
    rw [take_append_drop]
    exact hperm.mem_iff.2 (mem_filter.2 ⟨job_mem hk, hp⟩)
  rcases mem_append.1 hr with hr | hr
  · exact absurd (mem_map_of_mem hr) hout
  · exact (pairwise_append.1 hpair).2.2 j hj' r hr

theorem countP_selectForClaim (db : Db) (p : Job → Bool) (n : Nat) :
    db.jobs.rows.countP (fun j => decide (j.id ∈ db.selectForClaim p n)) =
      min n (db.jobs.rows.countP p) := by
  have hperm := perm_insertionSort Job.claimedBefore (db.jobs.rows.filter p)
  have hnodup : (db.selectForClaim p n).Nodup := by
    refine ((hperm.map (·.id)).nodup_iff.2 ?_).sublist ((take_sublist _ _).map _)
    exact db.jobs.nodup.sublist (filter_sublist.map _)
  have hsame : ((db.jobs.rows.filter fun j => decide (j.id ∈ db.selectForClaim p n)).map
      (·.id)).Perm (db.selectForClaim p n) := by
    refine (perm_ext_iff_of_nodup (db.jobs.nodup.sublist (filter_sublist.map _)) hnodup).2 fun i => ?_
    rw [mem_map]
    constructor
    · rintro ⟨j, hj, rfl⟩
      exact of_decide_eq_true (mem_filter.1 hj).2
    · intro hi
      obtain ⟨j, hj, -, rfl⟩ := mem_selectForClaim hi
      exact ⟨j, mem_filter.2 ⟨hj, decide_eq_true hi⟩, rfl⟩
  have hlen := hsame.length_eq
  rw [length_map, ← countP_eq_length_filter] at hlen
  rw [hlen]
  simp [selectForClaim, countP_eq_length_filter]

/-- `QueueManager::dequeue_batch`, with nobody between its two statements. -/
def dequeueBatch (db : Db) (now : Time) (stem : Uuid) (batchSize : Int) (q : ClaimRequest) : Db :=
  if db.paused q.organizationId q.queueName then db
  else db.claimBatch now stem (max 1 (min batchSize.toNat 100)) q

theorem job_claimBatch {stem : Uuid} {q : ClaimRequest} (hj : db.job i = some j) :
    (db.claimBatch now stem n q).job i = some (if j.id ∈ db.selectForClaim (q.eligible now) n then
      j.written now (claimRow now q.worker (.batch stem j.id) (safeLease q.leaseSecs) now) else j) := by
  rw [claimBatch, job_setStatus fun _ _ _ => by simp, hj, Option.map_some]
  simp only [decide_eq_true_eq]
  rfl

theorem taken_claimBatch {stem : Uuid} {q : ClaimRequest} (hj : db.job i = some j) :
    (db.claimBatch now stem n q).job i ≠ some j ↔ j.id ∈ db.selectForClaim (q.eligible now) n := by
  rw [job_claimBatch hj]
  split
  · next hsel =>
    refine iff_of_true (fun h => ?_) hsel
    -- a row that is taken is processing
    have hp := eligible_claimable (of_mem_selectForClaim hj hsel)
    exact not_processing_of_claimable hp (congrArg Job.status (Option.some.inj h)).symm
  · next hout => exact iff_of_false (fun h => h rfl) hout

/-- **A batch claim takes the most urgent jobs.** Of a queue that is not paused it takes as many as
were asked for, at least one and at most a hundred, or all there are; what it takes was eligible and
is its worker's, and nothing that it leaves goes before it. From a paused queue it takes nothing. -/
theorem dequeueBatch_takes_first (db : Db) (now : Time) (stem : Uuid) (batchSize : Int)
    (q : ClaimRequest) :
    let db' := db.dequeueBatch now stem batchSize q
    (db.paused q.organizationId q.queueName = true → db' = db) ∧
    (db.paused q.organizationId q.queueName = false →
      db.jobs.rows.countP (fun j => decide (db'.job j.id ≠ some j)) =
        min (max 1 (min batchSize.toNat 100)) (db.jobs.rows.countP (q.eligible now)) ∧
      ∀ i j, db.job i = some j → db'.job i ≠ some j →
        q.eligible now j = true ∧
        (∃ j', db'.job i = some j' ∧ j'.status = .processing ∧ j'.assignedWorkerId = some q.worker ∧
          j'.leaseId = some (.batch stem i)) ∧
        ∀ k r, db.job k = some r → q.eligible now r = true → db'.job k = some r →
          j.claimedBefore r) := by
  intro db'
  refine ⟨fun h => if_pos h, fun h => ?_⟩
  have hdb : db' = db.claimBatch now stem (max 1 (min batchSize.toNat 100)) q :=
    if_neg (by rw [h]; exact Bool.false_ne_true)
  rw [hdb, ← countP_selectForClaim]
  refine ⟨countP_congr fun j hj => ?_, fun i j hj hi => ?_⟩
  · rw [decide_eq_true_eq, decide_eq_true_eq]
    exact taken_claimBatch (job_of_mem hj)
  · have hsel := (taken_claimBatch hj).1 hi
    refine ⟨of_mem_selectForClaim hj hsel, ⟨_, job_claimBatch hj, ?_⟩,
      fun k r hk hp hout => ?_⟩
    · rw [if_pos hsel, job_id hj]
      exact ⟨rfl, rfl, rfl⟩
    · exact claimedBefore_of_select hj hsel hk hp fun hr => (taken_claimBatch hk).2 hr hout

/-- Three jobs, of which two are asked for. -/
theorem dequeueBatch_takes_first_two : ∃ s h, (system {}).Run s h ∧
    s.db.jobs.rows.countP (clientClaim.eligible 0) = 3 ∧ s.db.jobs.rows.countP (fun j =>
      decide ((s.db.dequeueBatch 0 9 2 clientClaim).job j.id ≠ some j)) = 2 := by
  obtain ⟨s, h, hr, hp⟩ := Machine.Run.of_exec (system {})
    [.createCheck clientCreate, .createInsert 0, .createCheck clientCreate, .createInsert 0,
      .createCheck clientCreate, .createInsert 0] {}
    (fun x => !x.1.db.paused clientClaim.organizationId clientClaim.queueName &&
      x.1.db.jobs.rows.countP (clientClaim.eligible 0) == 3) ⟨rfl, rfl⟩ (by decide +kernel)
  rw [Bool.and_eq_true, Bool.not_eq_true', beq_iff_eq] at hp
  refine ⟨s, h, hr, hp.2, ?_⟩
  rw [((dequeueBatch_takes_first s.db 0 9 2 clientClaim).2 hp.1).1, hp.2]
  rfl

theorem exists_source (hv : validSteps defs = true) (hne : defs ≠ []) :
    ∃ d k, (d, k) ∈ defs.zipIdx ∧ d.dependsOn = [] := by
  simp only [validSteps, Bool.and_eq_true, all_eq_true, decide_eq_true_eq, Bool.not_eq_true'] at hv
  obtain ⟨hdefs, hcycle⟩ := hv
  -- on the positions, "waits for, perhaps through others" is a strict order
  let waits : Fin defs.length → Fin defs.length → Prop := fun a b =>
    Relation.TransGen (fun a b => b ∈ ((defs[a]?.map (·.dependsOn)).getD [])) b.1 a.1
  have : IsTrans _ waits := ⟨fun _ _ _ h h' => h'.trans h⟩
  have : Std.Irrefl waits := ⟨fun a h =>
    not_cycle_of_hasCircularDependency hcycle (mem_range.2 a.2) h⟩
  have : Nonempty (Fin defs.length) := ⟨⟨0, length_pos_iff.2 hne⟩⟩
  obtain ⟨k, -, hmin⟩ :=
    (Finite.wellFounded_of_trans_of_irrefl waits).has_min Set.univ Set.univ_nonempty
  refine ⟨defs[k], k, mk_mem_zipIdx_iff_getElem?.2 (getElem?_eq_getElem k.2), ?_⟩
  refine eq_nil_iff_forall_not_mem.2 fun n hn => ?_
  have hlt := (hdefs _ (getElem_mem k.2)).1.1 n hn
  refine hmin ⟨n, hlt⟩ trivial (.single ?_)
  simpa using hn

/-- **A new workflow can start**: some step of it is waiting with its gate open. -/
theorem new_workflow_can_start (hv : validSteps defs = true) (hne : defs ≠ [])
    (hfresh : ∀ i, base ≤ i → db.job i = none) :
    ∃ i j, (db.createWorkflow now server org w base defs).job i = some j ∧
      j.workflowId = some w ∧ j.status.waiting = true ∧ j.gateOpen = true := by
  obtain ⟨d, k, hd, hnone⟩ := exists_source hv hne
  refine ⟨base + k, _, job_createWorkflow_step hfresh hd, rfl, rfl, ?_⟩
  simp [Job.gateOpen, stepJob, hnone]

/-- Three steps that wait for one another, next to a workflow of two. -/
theorem new_workflow_can_start_chain :
    ∃ i j, (createWorkflow (createWorkflow {} 0 3 1 0 1 [{ queueName := "q" },
        { queueName := "q", dependsOn := [0] }]) 1 3 1 3 4 [{ queueName := "q", dependsOn := [1, 2] },
        { queueName := "q" }, { queueName := "q", dependsOn := [1] }]).job i = some j ∧
      j.workflowId = some 3 ∧ j.status.waiting = true ∧ j.gateOpen = true := by
  refine new_workflow_can_start (by decide +kernel) (by simp) fun i hi => ?_
  refine Table.find_eq_none.2 fun j hj hid => ?_
  have hlt : ∀ j ∈ (createWorkflow {} 0 3 1 0 1 [{ queueName := "q" },
      { queueName := "q", dependsOn := [0] }]).jobs.rows, j.id < 4 := by decide +kernel
  exact absurd (hid ▸ hlt j hj) (Nat.not_lt.2 hi)

end Db

/-! ## What is never undone -/

variable {cfg : Config} {s s' t : Sys} {a : Label} {h : List (Sys × Label)}

/-- What stands later for an id that `t` had generated is the job of `t`, and stays closed. -/
def Sys.Later (t s : Sys) : Prop :=
  ∀ i < t.uuid, i < s.uuid ∧ ∀ j', s.db.job i = some j' → ∃ j, t.db.job i = some j ∧
    j.SameJob j' ∧ (j.closed = true → j'.closed = true ∧ j'.status = j.status)

theorem Sys.Later.refl (s : Sys) : s.Later s :=
  fun _ hi => ⟨hi, fun j hj => ⟨j, hj, ⟨rfl, rfl, rfl, rfl⟩, fun hc => ⟨hc, rfl⟩⟩⟩

theorem Sys.Later.step (ht : t.Later s) (hn : s.next cfg a = some s') : t.Later s' := by
  intro i hi
  obtain ⟨his, hrow⟩ := ht i hi
  refine ⟨lt_of_lt_of_le his (Sys.uuid_mono hn), ?_⟩
  cases Sys.step_of_next hn with
  | idle _ _ hdb => exact hdb ▸ hrow
  | stmt c _ _ _ _ hdb =>
    intro j'' hj''
    obtain ⟨j', hj', same', -⟩ := Sys.job_before hn his hj''
    obtain ⟨j, hj, same, hclosed⟩ := hrow j' hj'
    have hr := c.exec_rowStep cfg s.now s.db i
    rw [← hdb, hj', hj''] at hr
    refine ⟨j, hj, ⟨same'.id.trans same.id, same'.organizationId.trans same.organizationId,
      same'.queueName.trans same.queueName, same'.workflowId.trans same.workflowId⟩, fun hc => ?_⟩
    -- no statement reopens a closed row
    obtain ⟨hc', hs'⟩ := hclosed hc
    obtain ⟨hc'', hs''⟩ := hr.closed hc'
    exact ⟨hc'', hs''.trans hs'⟩

/-- **What no later step undoes.** Whatever happens after a state of a run, its ids are not used
again, its jobs keep organization, queue and workflow, and those that completed, or are cancelled
with a `last_error` by which no retry re-opens a job, stay so. -/
theorem job_history (hr : (system cfg).Run s h) : ∀ x ∈ h, x.1.Later s := by
  refine hr.invariant (M := system cfg) (C := fun _ _ => True)
    (I := fun s h => ∀ x ∈ h, Sys.Later x.1 s) (fun _ _ => by simp)
    (fun s h a s' _ _ ih _ hn x hx => ?_) fun _ _ => trivial
  rcases mem_cons.1 hx with rfl | hx
  · exact (Sys.Later.refl s).step hn
  · exact (ih x hx).step hn

/-- A job is cancelled, and the clock moves on. -/
theorem job_history_cancelled : ∃ s h, (system {}).Run s h ∧
    (h.any fun x => (x.1.db.job 0).any (·.closed)) = true ∧ ∀ x ∈ h, x.1.Later s := by
  obtain ⟨s, h, hr, hp⟩ := Machine.Run.of_exec (system {})
    [.createCheck clientCreate, .createInsert 0, .stmt (.cancelJob 0 1), .tick 1] {}
    (fun x => x.2.any fun x => (x.1.db.job 0).any (·.closed)) ⟨rfl, rfl⟩ (by decide +kernel)
  exact ⟨s, h, hr, hp, job_history hr⟩

end Spooled
