import Spooled.Store.Writes

/-!
# Who decides a workflow's outcome

`update_workflow_progress`, the dependency sweep, the expiry sweep, a cancel and
three retries write `workflows.status`. `Tells` says what most statements have in
common: a workflow is not declared completed, one that is completed or cancelled
stays so, and it is declared failed or cancelled only while some step of it is
not completed. The statements that differ are specified one by one.
-/

namespace Spooled

/-- The outcome may still change: a failed workflow can be retried. -/
def WorkflowStatus.unsettled : WorkflowStatus → Bool
  | .completed | .cancelled => false
  | _ => true

theorem WorkflowStatus.unsettled_of_live {st : WorkflowStatus} (h : st.live = true) :
    st.unsettled = true := by
  cases st <;> first | rfl | cases h

theorem Status.completed_of {st : Status} (ha : st.active = false) (hl : st.lost = false)
    (hc : st ≠ .cancelled) : st = .completed := by
  cases st with
  | completed => rfl
  | pending | scheduled | processing => cases ha
  | failed | deadletter => cases hl
  | cancelled => exact absurd rfl hc

namespace Db

variable {db db' db'' : Db} {now : Time} {w : WorkflowId} {i : JobId} {j : Job} {p : Job → Bool}
  {f : Job → Job} {x x' : Workflow}

/-! ## The trigger -/

/-- The status `update_workflow_progress` gives a live workflow. -/
def progress (db : Db) (w : WorkflowId) : WorkflowStatus :=
  progressStatus (db.countSteps w Status.active) (db.countSteps w Status.lost)
    (db.countSteps w (· == .cancelled))

theorem mem_steps : j ∈ db.steps w ↔ db.job j.id = some j ∧ j.workflowId = some w := by
  simp only [steps, List.mem_filter, beq_iff_eq]
  exact and_congr_left fun _ => ⟨job_of_mem, job_mem⟩

theorem countSteps_pos {q : Status → Bool} : 0 < db.countSteps w q ↔
    ∃ i j, db.job i = some j ∧ j.workflowId = some w ∧ q j.status = true := by
  rw [countSteps, List.countP_pos_iff]
  constructor
  · rintro ⟨j, hj, hq⟩
    obtain ⟨hj, hw⟩ := mem_steps.1 hj
    exact ⟨_, j, hj, hw, hq⟩
  · rintro ⟨i, j, hj, hw, hq⟩
    exact ⟨j, mem_steps.2 ⟨by rw [job_id hj]; exact hj, hw⟩, hq⟩

theorem countSteps_eq_zero {q : Status → Bool} : db.countSteps w q = 0 ↔
    ∀ i j, db.job i = some j → j.workflowId = some w → q j.status = false := by
  rw [← not_iff_not, ← ne_eq, ← Nat.pos_iff_ne_zero, countSteps_pos]
  simp

/-- All steps of `w` that are left are completed. -/
def Finished (db : Db) (w : WorkflowId) : Prop :=
  ∀ i j, db.job i = some j → j.workflowId = some w → j.status = .completed

theorem progress_completed (h : db.progress w = .completed) : db.Finished w := by
  unfold progress progressStatus at h
  split at h
  · cases h
  · next ha =>
    split at h
    · cases h
    · next hl =>
      split at h
      · cases h
      · next hc =>
        have ha := countSteps_eq_zero.1 (Nat.eq_zero_of_not_pos ha)
        have hl := countSteps_eq_zero.1 (Nat.eq_zero_of_not_pos hl)
        have hc := countSteps_eq_zero.1 (Nat.eq_zero_of_not_pos hc)
        intro i j hj hw
        exact Status.completed_of (ha i j hj hw) (hl i j hj hw) (by simpa using hc i j hj hw)

theorem progress_ne_failed (h : db.countSteps w Status.lost = 0) : db.progress w ≠ .failed := by
  unfold progress progressStatus
  rw [h]
  split
  · simp
  · split
    · omega
    · split <;> simp

theorem progress_congr (h : ∀ i, (db'.job i).map (fun j => (j.workflowId, j.status)) =
    (db.job i).map fun j => (j.workflowId, j.status)) : db'.progress w = db.progress w := by
  have hsub : ∀ {d d' : Db}, (∀ i, (d'.job i).map (fun j => (j.workflowId, j.status)) =
      (d.job i).map fun j => (j.workflowId, j.status)) → ∀ q : Status → Bool,
      0 < d'.countSteps w q → 0 < d.countSteps w q := by
    intro d d' h q hq
    obtain ⟨i, j', hj', hw, hs⟩ := countSteps_pos.1 hq
    have hi := h i
    rw [hj', Option.map_some] at hi
    obtain ⟨j, hj, he⟩ := Option.map_eq_some_iff.1 hi.symm
    obtain ⟨hw', hs'⟩ := Prod.mk.inj he
    exact countSteps_pos.2 ⟨i, j, hj, hw'.trans hw, by rw [hs']; exact hs⟩
  have hiff : ∀ q : Status → Bool, 0 < db'.countSteps w q ↔ 0 < db.countSteps w q := fun q =>
    ⟨hsub h q, hsub (fun i => (h i).symm) q⟩
  simp only [progress, progressStatus, hiff]

theorem Triggered.progress (h : Triggered db db') : db'.progress w = db.progress w := by
  refine progress_congr fun i => ?_
  cases hj : db.job i with
  | none => rw [h.absent i hj]
  | some j =>
    obtain ⟨m, t, hj', -⟩ := h.row i j hj
    rw [hj']
    rfl

theorem workflow_setLiveWorkflow {v : WorkflowId} {g : Workflow → Workflow}
    (h : (db.setLiveWorkflow v g).workflow w = some x') : ∃ x, db.workflow w = some x ∧
      (x' = x ∨ v = w ∧ x.status.live = true ∧ x' = { g x with id := x.id }) := by
  have hu := Table.find_update db.workflows (fun x => x.id == v && x.status.live)
    (fun x => { g x with id := x.id }) (fun _ => rfl) w
  rw [workflow, setLiveWorkflow, hu] at h
  obtain ⟨x, hx, rfl⟩ := Option.map_eq_some_iff.1 h
  refine ⟨x, hx, ?_⟩
  split
  · next hc =>
    simp only [Bool.and_eq_true, beq_iff_eq] at hc
    have hid : x.id = w := Table.key_of_find hx
    exact .inr ⟨hc.1.symm.trans hid, hc.2, rfl⟩
  · exact .inl rfl

theorem workflow_setLiveWorkflow_ne {v : WorkflowId} {g : Workflow → Workflow} (h : v ≠ w) :
    (db.setLiveWorkflow v g).workflow w = db.workflow w := by
  have hu := Table.find_update db.workflows (fun x => x.id == v && x.status.live)
    (fun x => { g x with id := x.id }) (fun _ => rfl) w
  rw [workflow, setLiveWorkflow, hu]
  cases hx : db.workflows.find w with
  | none => exact hx.symm
  | some x =>
    have hid : x.id = w := Table.key_of_find hx
    rw [Option.map_some, hid, beq_eq_false_iff_ne.2 (Ne.symm h), Bool.false_and]
    exact hx.symm

/-- **What a status update tells a workflow**: nothing, or the outcome computed
from the updated rows, because one of its steps is at rest now. -/
theorem workflow_setStatus (h : (db.setStatus now p f).workflow w = some x') :
    ∃ x, db.workflow w = some x ∧ x'.totalJobs = x.totalJobs ∧ (x'.status = x.status ∨
      x.status.live = true ∧ x'.status = (db.setJobs now p f).progress w ∧
      ∃ j, db.job j.id = some j ∧ p j = true ∧ (f j).workflowId = some w ∧
        (f j).status.active = false) := by
  set db₁ := db.setJobs now p f
  -- the triggers so far changed the rows as triggers do, and told the workflow this
  refine (setStatus_rule (P := fun d => Triggered db₁ d ∧ ∀ x', d.workflow w = some x' →
    ∃ x, db₁.workflow w = some x ∧ x'.totalJobs = x.totalJobs ∧ (x'.status = x.status ∨
      x.status.live = true ∧ x'.status = db₁.progress w ∧ ∃ j, db.job j.id = some j ∧ p j = true ∧
        (f j).workflowId = some w ∧ (f j).status.active = false)) ?_ ?_ ?_).2 x' h
  · exact ⟨.refl db₁, fun x' hx' => ⟨x', hx', rfl, .inl rfl⟩⟩
  · exact fun d j _ _ _ hd => ⟨hd.1.updateDependentJobs j.id, hd.2⟩
  · refine fun d j v hj hp hv hrest hd => ⟨hd.1.updateWorkflowProgress v, fun x' hx' => ?_⟩
    obtain ⟨y, hy, rfl | ⟨rfl, hlive, rfl⟩⟩ := workflow_setLiveWorkflow hx'
    · exact hd.2 _ hy
    · obtain ⟨x, hx, ht, hst⟩ := hd.2 y hy
      refine ⟨x, hx, ht, .inr ⟨?_, hd.1.progress, j, hj, hp, hv, hrest⟩⟩
      rcases hst with hst | ⟨hl, -⟩
      · rw [← hst]
        exact hlive
      · exact hl

/-! ## What statements tell workflows -/

/-- No workflow is declared completed, none that is completed or cancelled
changes, and one is declared failed or cancelled only with an uncompleted step. -/
structure Tells (db db' : Db) : Prop where
  row : ∀ i j', db'.job i = some j' → ∃ j, db.job i = some j ∧ j'.workflowId = j.workflowId ∧
    (j.status = .completed → j'.status = .completed)
  workflow : ∀ w x', db'.workflow w = some x' → ∃ x, db.workflow w = some x ∧
    x'.totalJobs = x.totalJobs ∧ (x'.status = x.status ∨ x.status.unsettled = true ∧
      x'.status ≠ .completed ∧ (x'.status.live = true ∨ ¬ db.Finished w))

theorem Tells.finished (h : Tells db db') (hf : db.Finished w) : db'.Finished w := by
  intro i j' hj' hw
  obtain ⟨j, hj, hw', hs⟩ := h.row i j' hj'
  exact hs (hf i j hj (hw'.symm.trans hw))

theorem Tells.refl (db : Db) : Tells db db :=
  ⟨fun _ j h => ⟨j, h, rfl, id⟩, fun _ x h => ⟨x, h, rfl, .inl rfl⟩⟩

theorem Tells.trans (h : Tells db db') (h' : Tells db' db'') : Tells db db'' where
  row i j'' hj'' := by
    obtain ⟨j', hj', hw', hs'⟩ := h'.row i j'' hj''
    obtain ⟨j, hj, hw, hs⟩ := h.row i j' hj'
    exact ⟨j, hj, hw'.trans hw, fun hc => hs' (hs hc)⟩
  workflow w x'' hx'' := by
    obtain ⟨x', hx', ht', hst'⟩ := h'.workflow w x'' hx''
    obtain ⟨x, hx, ht, hst⟩ := h.workflow w x' hx'
    refine ⟨x, hx, ht'.trans ht, ?_⟩
    rcases hst' with he' | ⟨hu', hc', hwhy'⟩
    · rw [he']; exact hst
    · refine .inr ⟨?_, hc', hwhy'.imp_right fun hn hf => hn (h.finished hf)⟩
      rcases hst with he | ⟨hu, -⟩
      · rw [← he]; exact hu'
      · exact hu

theorem Tells.of_eq (hj : db'.jobs = db.jobs) (hw : db'.workflows = db.workflows) : Tells db db' := by
  have hjob : db'.job = db.job := by funext i; simp only [job, hj]
  have hwf : db'.workflow = db.workflow := by funext w; simp only [Db.workflow, hw]
  refine ⟨?_, ?_⟩
  · rw [hjob]; exact (Tells.refl db).row
  · rw [hwf]; exact (Tells.refl db).workflow

theorem tells_setJobs (hw : ∀ j, (f j).workflowId = j.workflowId)
    (hs : ∀ j, (f j).status = j.status) : Tells db (db.setJobs now p f) := by
  refine ⟨fun i j' hj' => ?_, (Tells.refl db).workflow⟩
  rw [job_setJobs] at hj'
  obtain ⟨j, hj, rfl⟩ := Option.map_eq_some_iff.1 hj'
  refine ⟨j, hj, ?_⟩
  split
  · exact ⟨hw j, fun h => (hs j).trans h⟩
  · exact ⟨rfl, id⟩

theorem tells_setStatus (hw : ∀ j, (f j).workflowId = j.workflowId)
    (h : ∀ i j, db.job i = some j → p j = true → j.status ≠ .completed)
    (hs : ∀ j, p j = true → (f j).status ≠ .completed) : Tells db (db.setStatus now p f) := by
  refine ⟨fun i j' hj' => ?_, fun w x' hx' => ?_⟩
  · rw [job_setStatus fun j _ hp => hs j hp] at hj'
    obtain ⟨j, hj, rfl⟩ := Option.map_eq_some_iff.1 hj'
    refine ⟨j, hj, ?_⟩
    split
    · next hp => exact ⟨hw j, fun hc => absurd hc (h i j hj hp)⟩
    · exact ⟨rfl, id⟩
  · obtain ⟨x, hx, ht, hst | ⟨hl, hst, j, hj, hp, hjw, -⟩⟩ := workflow_setStatus hx'
    · exact ⟨x, hx, ht, .inl hst⟩
    · refine ⟨x, hx, ht, .inr ⟨WorkflowStatus.unsettled_of_live hl, fun hc => ?_, .inr fun hf => ?_⟩⟩
      · -- the updated step itself is not completed
        have hfin := progress_completed (hst.symm.trans hc)
        have hrow : (db.setJobs now p f).job j.id = some (j.written now f) := by
          rw [job_setJobs_some hj, if_pos hp]
        have hdone : (j.written now f).status = .completed := hfin _ _ hrow hjw
        exact hs j hp hdone
      · exact h _ j hj hp (hf _ j hj (by rw [← hw j]; exact hjw))

theorem tells_updateWorkflows {q : Workflow → Bool} {g : Workflow → Workflow}
    (hw : ∀ w, db'.workflow w = (db.workflow w).map fun x => if q x then g x else x)
    (hj : db'.jobs = db.jobs) (ht : ∀ x, (g x).totalJobs = x.totalJobs)
    (h : ∀ x, db.workflow x.id = some x → q x = true → (g x).status = x.status ∨
      x.status.unsettled = true ∧ (g x).status ≠ .completed ∧
        ((g x).status.live = true ∨ ¬ db.Finished x.id)) : Tells db db' := by
  have hjob : db'.job = db.job := by funext i; simp only [job, hj]
  refine ⟨by rw [hjob]; exact (Tells.refl db).row, fun w x' hx' => ?_⟩
  rw [hw] at hx'
  obtain ⟨x, hx, rfl⟩ := Option.map_eq_some_iff.1 hx'
  have hidx : x.id = w := Table.key_of_find hx
  refine ⟨x, hx, ?_⟩
  split
  · next hq =>
    refine ⟨ht x, ?_⟩
    have := h x (by rw [hidx]; exact hx) hq
    rwa [hidx] at this
  · exact ⟨rfl, .inl rfl⟩

/-! ## Deletes -/

theorem tells_cancel {e : Job → Option String} (h : ∀ j, p j = true → j.status.waiting = true) :
    Tells db (db.setStatus now p fun j => cancelRow now (e j) j) :=
  tells_setStatus (fun _ => rfl) (fun _ j _ hj => waiting_ne_completed (h j hj)) (by simp)

theorem tells_withoutRows (db : Db) (p : Job → Bool) : Tells db (db.withoutRows p) := by
  refine ⟨fun i j' hj' => ?_, (Tells.refl db).workflow⟩
  rw [job_withoutRows] at hj'
  exact ⟨j', (Option.filter_eq_some_iff.1 hj').1, rfl, id⟩

theorem tells_deleteJobs (db : Db) (now : Time) (p : Job → Bool) :
    Tells db (db.deleteJobs now p) := by
  refine deleteJobs_rel Tells.refl (fun _ _ _ => Tells.trans) (tells_withoutRows db p)
    (fun d q e hq => tells_cancel (e := fun _ => e) hq) fun d i => ?_
  have h₁ : Tells d (d.setJobs now (·.parentJobId == some i) fun j =>
      { j with parentJobId := none }) := tells_setJobs (fun _ => rfl) fun _ => rfl
  exact h₁.trans (.of_eq rfl rfl)

/-! ## Statements -/

theorem Quiet.tells {A : Option OrgId} (h : Quiet A now db db') : Tells db db' := by
  have hwf : ∀ {f : Job → Job} {j : Job}, (f j).links = j.links →
      (f j).workflowId = j.workflowId := by
    intro f j hl
    simp only [Job.links, Prod.mk.injEq] at hl
    exact hl.2.1
  induction h with
  | touch _ hs hf => exact tells_setJobs (fun j => hwf (hf j)) hs
  | settle hp hs hf =>
    exact tells_setStatus (fun j => hwf (hf j)) (fun i j hj hpj => (hp i j hj hpj).1) fun j _ => hs j
  | other hj _ hw => exact .of_eq hj hw
  | trans _ _ ih ih' => exact ih.trans ih'

theorem tells_reopenWorkflows (db : Db) (org : OrgId) (revived : List JobId) :
    Tells db (db.reopenWorkflows org revived) := by
  refine tells_updateWorkflows (Table.find_update _ _ _ (by intro; rfl)) rfl (fun _ => rfl) fun x _ hq => ?_
  dsimp only
  split
  · next hf =>
    rw [beq_iff_eq] at hf
    exact .inr ⟨by rw [hf]; rfl, by simp, .inl rfl⟩
  · exact .inl rfl

theorem tells_retry (now : Time) (org : OrgId) : RetryRel now org Tells where
  refl := .refl
  trans _ _ _ := .trans
  revive hp := tells_setStatus (fun _ => rfl) (fun _ j _ hj => lost_ne_completed (hp j hj).1) (by simp)
  letters _ _ := .of_eq rfl rfl
  children _ _ := tells_setJobs (fun _ => rfl) fun _ => rfl
  reopen d _ := tells_setStatus (fun _ => rfl)
    (fun _ j _ hj => sweptAway_ne_completed (reopens_swept hj).1) fun j _ => reopenRow_status_ne d now j
  workflows d := tells_reopenWorkflows d org

theorem tells_retryWorkflow (db : Db) (now : Time) (v : WorkflowId) (org : OrgId) :
    Tells db (db.retryWorkflow now v org) := by
  unfold retryWorkflow
  split
  · next hv =>
    have h₁ : Tells db (db.setStatus now (workflowRetryable v org) db.resetRow) := by
      refine tells_setStatus (fun _ => rfl) (fun _ j _ hj => ?_) (by simp)
      simp only [workflowRetryable, Bool.and_eq_true, Bool.or_eq_true] at hj
      rcases hj.2 with h | h
      · exact lost_ne_completed h
      · exact sweptAway_ne_completed h
    refine h₁.trans (tells_updateWorkflows (Table.find_update _ _ _ (by intro; rfl)) rfl
      (fun _ => rfl) fun x hx hq => ?_)
    -- the steps are pending now, so no trigger has touched the failed workflow
    obtain ⟨x₀, hx₀, -, hst | ⟨-, -, j, -, -, -, hact⟩⟩ := workflow_setStatus hx
    · rw [beq_iff_eq] at hq
      rw [← hq, hx₀, Option.any_some] at hv
      simp only [Bool.and_eq_true, beq_iff_eq] at hv
      exact .inr ⟨by rw [hst, hv.2]; rfl, by simp, .inl rfl⟩
    · cases hact
  · exact .refl db

theorem tells_startWorkflows (db : Db) (now : Time) : Tells db (db.startWorkflows now) := by
  refine tells_updateWorkflows (Table.find_update _ _ _ (by intro; rfl)) rfl (fun _ => rfl) fun x _ _ => ?_
  dsimp only
  split
  · next hp =>
    rw [beq_iff_eq] at hp
    exact .inr ⟨by rw [hp]; rfl, by simp, .inl rfl⟩
  · exact .inl rfl

theorem tells_terminateWorkflows (db : Db) (now : Time) : Tells db (db.terminateWorkflows now) := by
  refine tells_updateWorkflows (Table.find_update _ _ _ (by intro; rfl)) rfl (fun _ => rfl) fun x _ hq => ?_
  simp only [Bool.and_eq_true] at hq
  refine .inr ⟨WorkflowStatus.unsettled_of_live hq.1.1, ?_, .inr fun hf => ?_⟩
  · dsimp only
    split <;> simp
  · obtain ⟨j, hj, hb⟩ := List.any_eq_true.1 hq.2
    obtain ⟨hj, hw⟩ := mem_steps.1 hj
    rw [hf _ j hj hw] at hb
    cases hb

theorem tells_cleanupWorkflows (db : Db) (now : Time) (retention : OrgId → Nat)
    (pick : WorkflowId → Bool) : Tells db (db.cleanupWorkflows now retention pick) := by
  refine ⟨(Tells.refl db).row, fun w x' hx' => ?_⟩
  have hx' : (Table.delete _ _).find w = some x' := hx'
  rw [Table.find_delete] at hx'
  exact ⟨x', (Option.filter_eq_some_iff.1 hx').1, rfl, .inl rfl⟩

theorem foldl_insertEdge_workflows (k : JobId) (ds : List JobId) (db : Db) :
    (ds.foldl (fun db d => db.insertEdge k d) db).workflows = db.workflows := by
  induction ds generalizing db with
  | nil => rfl
  | cons x ds ih =>
    rw [List.foldl_cons, ih]
    unfold insertEdge
    split <;> rfl

theorem addDependencies_workflows (db : Db) (now : Time) (org : OrgId) (k : JobId) (ds : List JobId)
    (mode : Option DependencyMode) :
    (db.addDependencies now org k ds mode).workflows = db.workflows := by
  unfold addDependencies
  split
  · dsimp only
    split
    · rfl
    · exact foldl_insertEdge_workflows k ds db
  · rfl

theorem tells_addDependencies (db : Db) (now : Time) (org : OrgId) (k : JobId) (ds : List JobId)
    (mode : Option DependencyMode) : Tells db (db.addDependencies now org k ds mode) := by
  unfold addDependencies
  split
  · dsimp only
    split
    · exact .refl db
    · have h₁ : Tells db (ds.foldl (fun db d => db.insertEdge k d) db) :=
        .of_eq (foldl_insertEdge_jobs k ds db) (foldl_insertEdge_workflows k ds db)
      generalize ds.foldl (fun db d => db.insertEdge k d) db = linked at h₁
      have h₂ : Tells linked (linked.setJobs now (fun j => j.id == k && j.organizationId == org)
          fun j => { j with dependencyMode := mode.getD j.dependencyMode }) :=
        tells_setJobs (fun _ => rfl) fun _ => rfl
      exact (h₁.trans h₂).trans (tells_setJobs (fun _ => rfl) fun _ => rfl)
  · exact .refl db

end Db

/-- The statements that declare outcomes in their own way, or create rows. -/
def Stmt.decides : Stmt → Bool
  | .complete .. | .cancelWorkflow .. | .cleanupExpired .. | .createJob .. | .createWorkflow .. => true
  | _ => false

/-- **What every other statement tells a workflow.** -/
theorem Stmt.exec_tells (cfg : Config) (now : Time) (db : Db) (c : Stmt) (hc : c.decides = false) :
    db.Tells (c.exec cfg now db) := by
  cases hq : c.isQuiet with
  | true => exact (c.exec_quiet cfg now db hq).tells
  | false =>
    cases c with
    | recomputeChildren | recomputeCompletedParents | unblockOrphans | recomputeGate =>
      exact Db.tells_setJobs (fun _ => rfl) fun _ => rfl
    | startWorkflows => exact Db.tells_startWorkflows db now
    | terminateWorkflows => exact Db.tells_terminateWorkflows db now
    | cleanupWorkflows => exact Db.tells_cleanupWorkflows db now _ _
    | cleanupFinished | cleanupFailed => exact Db.tells_deleteJobs db now _
    | purgeDlq | deleteQueue => exact (Db.tells_deleteJobs db now _).trans (.of_eq rfl rfl)
    | insertEdge i d =>
      simp only [exec, Db.insertEdge]
      split
      · exact .of_eq rfl rfl
      · exact .refl db
    | addDependencies => exact Db.tells_addDependencies db now _ _ _ _
    | retryJob k org => exact (Db.tells_retry now org).retryJob db k
    | retryDlq org pick => exact (Db.tells_retry now org).retryDlq db pick
    | retryWorkflow v org => exact Db.tells_retryWorkflow db now v org
    | _ => first | exact Bool.noConfusion hq | exact Bool.noConfusion hc

/-! ## The statements that decide -/

/-- What a statement makes of a workflow it finds: a new outcome only if the old
one is not final, completed only if all remaining steps are (and a sweep finds
none missing), failed or cancelled only at a user's request or with an
uncompleted step. -/
structure Outcome (c : Stmt) (db db' : Db) (w : WorkflowId) (x x' : Workflow) : Prop where
  totalJobs : x'.totalJobs = x.totalJobs
  status : x'.status = x.status ∨ x.status.unsettled = true ∧
    (x'.status = .completed → db'.Finished w ∧
      ((∃ q, c = .complete q) ∨ x.totalJobs ≤ (db'.steps w).length)) ∧
    (x'.status.live = true ∨ x'.status = .completed ∨ (∃ org, c = .cancelWorkflow w org) ∨
      ¬ db.Finished w)

section Decide

variable {cfg : Config} {now : Time} {db db' db'' : Db} {c : Stmt} {w : WorkflowId}
  {x x' : Workflow} {p : Job → Bool}

theorem Db.Tells.outcome (h : db.Tells db') (hx' : db'.workflow w = some x') :
    ∃ x, db.workflow w = some x ∧ Outcome c db db' w x x' := by
  obtain ⟨x, hx, ht, hst⟩ := h.workflow w x' hx'
  refine ⟨x, hx, ht, hst.imp_right fun ⟨hu, hc, hwhy⟩ => ⟨hu, fun h => absurd h hc, ?_⟩⟩
  rcases hwhy with h | h
  · exact .inl h
  · exact .inr (.inr (.inr h))

theorem Db.outcome_complete (q : Presented) (hx' : (db.complete now q).workflow w = some x') :
    ∃ x, db.workflow w = some x ∧ Outcome (.complete q) db (db.complete now q) w x x' := by
  obtain ⟨x, hx, ht, hst | ⟨hl, hst, j, hj, hp, hw, -⟩⟩ := Db.workflow_setStatus hx'
  · exact ⟨x, hx, ht, .inl hst⟩
  · refine ⟨x, hx, ht, .inr ⟨WorkflowStatus.unsettled_of_live hl, fun hc => ⟨?_, ?_⟩, ?_⟩⟩
    · refine Db.progress_completed ?_
      rw [Db.complete, (Db.triggered_setStatus db now _ _).progress, ← hst, hc]
    · exact .inl ⟨q, rfl⟩
    · -- the step was processing a moment ago
      refine .inr (.inr (.inr fun hf => ?_))
      have := hf _ j hj hw
      rw [Db.heldBy_processing hp] at this
      cases this

theorem Db.outcome_cancelWorkflow (v : WorkflowId) (org : OrgId)
    (hx' : (db.cancelWorkflow now v org).workflow w = some x') : ∃ x, db.workflow w = some x ∧
      Outcome (.cancelWorkflow v org) db (db.cancelWorkflow now v org) w x x' := by
  unfold Db.cancelWorkflow at hx' ⊢
  split at hx'
  · next hv =>
    rw [if_pos hv]
    have htell : ∀ d : Db, d.Tells (d.setStatus now
        (fun j => j.workflowId == some v && j.organizationId == org && j.status.waiting)
        fun j => Db.cancelRow now j.lastError j) := fun d =>
      Db.tells_cancel (e := fun j => j.lastError) fun j hj => by
        simp only [Bool.and_eq_true] at hj
        exact hj.2
    obtain ⟨y, hy, ht, hst⟩ := (htell _).workflow w x' hx'
    obtain ⟨x, hx, rfl | ⟨rfl, hl, rfl⟩⟩ := Db.workflow_setLiveWorkflow hy
    · refine ⟨y, hx, ht, hst.imp_right fun ⟨hu, hc, hwhy⟩ => ⟨hu, fun h => absurd h hc, ?_⟩⟩
      exact hwhy.imp_right fun h => .inr (.inr h)
    · -- the workflow itself, cancelled before its steps are
      rcases hst with hst | ⟨hu, -⟩
      · refine ⟨x, hx, ht, .inr ⟨WorkflowStatus.unsettled_of_live hl, fun h => ?_, ?_⟩⟩
        · rw [hst] at h; cases h
        · exact .inr (.inr (.inl ⟨org, rfl⟩))
      · cases hu
  · next hv =>
    rw [if_neg hv]
    exact (Db.Tells.refl db).outcome hx'

/-- The tables the expiry sweep decides on: cancels and the delete done. -/
def Db.afterExpiry (db : Db) (now : Time) (pick : JobId → Bool) : Db :=
  ((db.cancelExpiredChildren now (db.expires now pick)).cancelExpiredDependents now
    (db.expires now pick)).deleteJobs now fun j => db.expires now pick j.id

theorem Db.afterExpiry_rel {R : Db → Db → Prop} (hrefl : ∀ d, R d d)
    (htrans : ∀ a b c, R a b → R b c → R a c) (hdel : ∀ d p, R d (d.withoutRows p))
    (hcancel : ∀ (d : Db) (q : Job → Bool) (e : Job → Option String),
      (∀ j, q j = true → j.status.waiting = true) →
      R d (d.setStatus now q fun j => Db.cancelRow now (e j) j))
    (hdrop : ∀ d i, R d (d.dropReferences now i)) (pick : JobId → Bool) :
    R db (db.afterExpiry now pick) := by
  unfold Db.afterExpiry
  set gone := db.expires now pick
  have h₁ : R db (db.cancelExpiredChildren now gone) := by
    unfold Db.cancelExpiredChildren Db.cancelWhere
    refine hcancel db _ (fun _ => some Db.parentExpiredReason) fun j hj => ?_
    simp only [Bool.and_eq_true] at hj
    exact Db.blockedBy_waiting hj.2
  generalize db.cancelExpiredChildren now gone = d₁ at h₁
  have h₂ : R d₁ (d₁.cancelExpiredDependents now gone) := by
    unfold Db.cancelExpiredDependents
    refine hcancel d₁ _ _ fun j hj => ?_
    simp only [Bool.and_eq_true] at hj
    exact Db.blockedBy_waiting hj.1
  generalize d₁.cancelExpiredDependents now gone = d₂ at h₂
  exact htrans _ _ _ (htrans _ _ _ h₁ h₂) (Db.deleteJobs_rel hrefl htrans (hdel _ _)
    (fun d q e hq => hcancel d q (fun _ => e) hq) hdrop)

theorem Db.tells_dropReferences (d : Db) (now : Time) (i : JobId) :
    d.Tells (d.dropReferences now i) := by
  have h₁ : d.Tells (d.setJobs now (·.parentJobId == some i) fun j =>
      { j with parentJobId := none }) := Db.tells_setJobs (fun _ => rfl) fun _ => rfl
  exact h₁.trans (.of_eq rfl rfl)

theorem Db.tells_afterExpiry (db : Db) (now : Time) (pick : JobId → Bool) :
    db.Tells (db.afterExpiry now pick) :=
  Db.afterExpiry_rel Db.Tells.refl (fun _ _ _ => Db.Tells.trans) Db.tells_withoutRows
    (fun _ _ _ => Db.tells_cancel) (fun d i => Db.tells_dropReferences d now i) pick

theorem Db.workflow_cleanupExpired (pick : JobId → Bool)
    (hx' : (db.cleanupExpired now pick).workflow w = some x') :
    ∃ y, (db.afterExpiry now pick).workflow w = some y ∧ x'.totalJobs = y.totalJobs ∧
      (x' = y ∧ ((∃ j, db.job j.id = some j ∧ j.workflowId = some w ∧ db.expires now pick j.id = true) →
        y.status.live = true → 0 < (db.afterExpiry now pick).countSteps w Status.active) ∨
      y.status.live = true ∧ (db.afterExpiry now pick).countSteps w Status.active = 0 ∧
        (∃ j, db.job j.id = some j ∧ j.workflowId = some w ∧ db.expires now pick j.id = true) ∧
        x'.status = Db.expiryStatus ((db.afterExpiry now pick).steps w).length
          ((db.afterExpiry now pick).countSteps w Status.lost)
          ((db.afterExpiry now pick).countSteps w (· == .cancelled)) y.totalJobs) := by
  have hu : (db.cleanupExpired now pick).workflow w = _ :=
    Table.find_update (db.afterExpiry now pick).workflows _ _ (by intro; rfl) w
  rw [hu] at hx'
  obtain ⟨y, hy, rfl⟩ := Option.map_eq_some_iff.1 hx'
  have hid : y.id = w := Table.key_of_find hy
  have htouched : ((db.steps w).any fun j => db.expires now pick j.id) = true ↔
      ∃ j, db.job j.id = some j ∧ j.workflowId = some w ∧ db.expires now pick j.id = true := by
    simp only [List.any_eq_true, Db.mem_steps, and_assoc]
  refine ⟨y, hy, ?_⟩
  split
  · next hc =>
    simp only [Bool.and_eq_true, decide_eq_true_eq, hid] at hc
    refine ⟨rfl, .inr ⟨hc.1.2, hc.2, htouched.1 hc.1.1, ?_⟩⟩
    simp only [hid]
    rfl
  · next hc =>
    refine ⟨rfl, .inl ⟨rfl, fun hg hl => ?_⟩⟩
    simp only [Bool.and_eq_true, decide_eq_true_eq, hid, not_and] at hc
    exact Nat.pos_of_ne_zero fun h0 => hc ⟨htouched.2 hg, hl⟩ h0

theorem Db.expires_ne_completed {pick : JobId → Bool} {i : JobId} {j : Job} (hj : db.job i = some j)
    (h : db.expires now pick i = true) : j.status ≠ .completed := by
  simp only [Db.expires, hj, Option.any_some, Db.expired, Bool.and_eq_true, Bool.or_eq_true] at h
  rcases h.1.2 with h | h
  · exact Db.waiting_ne_completed h
  · exact Db.lost_ne_completed h

theorem Db.expiryStatus_completed {total failed cancelled totalJobs : Nat}
    (h : Db.expiryStatus total failed cancelled totalJobs = .completed) :
    failed = 0 ∧ cancelled = 0 ∧ totalJobs ≤ total := by
  unfold Db.expiryStatus at h
  split at h
  · cases h
  · split at h
    · cases h
    · split at h
      · cases h
      · omega

theorem Db.expiryStatus_settled {total cancelled totalJobs : Nat} :
    (Db.expiryStatus total 0 cancelled totalJobs).unsettled = false := by
  unfold Db.expiryStatus
  split
  · rfl
  · rw [if_neg (lt_irrefl 0)]
    split <;> rfl

theorem Db.outcome_cleanupExpired (pick : JobId → Bool)
    (hx' : (db.cleanupExpired now pick).workflow w = some x') : ∃ x, db.workflow w = some x ∧
      Outcome (.cleanupExpired pick) db (db.cleanupExpired now pick) w x x' := by
  obtain ⟨y, hy, ht, ⟨rfl, -⟩ | ⟨hl, hact, ⟨j, hj, hjw, hgone⟩, hst⟩⟩ :=
    Db.workflow_cleanupExpired pick hx'
  · obtain ⟨x, hx, ho⟩ := (Db.tells_afterExpiry db now pick).outcome (c := .cleanupExpired pick) hy
    refine ⟨x, hx, ho.totalJobs, ho.status⟩
  · obtain ⟨x, hx, ht', hst'⟩ := (Db.tells_afterExpiry db now pick).workflow w y hy
    refine ⟨x, hx, ht.trans ht', .inr ⟨?_, fun hc => ?_, ?_⟩⟩
    · rcases hst' with he | ⟨hu, -⟩
      · rw [← he]; exact WorkflowStatus.unsettled_of_live hl
      · exact hu
    · rw [hst] at hc
      obtain ⟨hlost, hcan, hle⟩ := Db.expiryStatus_completed hc
      have hlost := Db.countSteps_eq_zero.1 hlost
      have hcan := Db.countSteps_eq_zero.1 hcan
      have hact := Db.countSteps_eq_zero.1 hact
      refine ⟨fun i k hk hkw => ?_, by rw [← ht']; exact .inr hle⟩
      exact Status.completed_of (hact i k hk hkw) (hlost i k hk hkw) (by simpa using hcan i k hk hkw)
    · exact .inr (.inr (.inr fun hf => Db.expires_ne_completed hj hgone (hf _ j hj hjw)))

/-- **What a statement makes of a workflow**, unless it creates it. -/
theorem Stmt.exec_outcome (cfg : Config) (now : Time) (db : Db) (c : Stmt)
    (hx' : (c.exec cfg now db).workflow w = some x') :
    (∃ org base defs, c = .createWorkflow org w base defs ∧ db.workflow w = none ∧
      x'.status = .pending ∧ x'.totalJobs = defs.length) ∨
    ∃ x, db.workflow w = some x ∧ Outcome c db (c.exec cfg now db) w x x' := by
  cases hc : c.decides with
  | false => exact .inr ((c.exec_tells cfg now db hc).outcome hx')
  | true =>
    cases c with
    | complete q => exact .inr (Db.outcome_complete q hx')
    | cancelWorkflow v org => exact .inr (Db.outcome_cancelWorkflow v org hx')
    | cleanupExpired pick => exact .inr (Db.outcome_cleanupExpired pick hx')
    | createJob q k met =>
      have hw : (db.createJob now cfg.defaultMaxRetries q k met).workflow w = db.workflow w := by
        unfold Db.createJob
        split <;> rfl
      rw [exec, hw] at hx'
      exact .inr ⟨x', hx', rfl, .inl rfl⟩
    | createWorkflow org v base defs =>
      have hw := Table.find_insert db.workflows
        { id := v, organizationId := org, totalJobs := defs.length, createdAt := now } w
      have hx' : (db.workflows.insert _).find w = some x' := hx'
      rw [hw] at hx'
      split at hx'
      · next h =>
        obtain ⟨rfl, hn⟩ := h
        cases hx'
        exact .inl ⟨org, base, defs, rfl, hn, rfl, rfl⟩
      · exact .inr ⟨x', hx', rfl, .inl rfl⟩
    | _ => cases hc

/-! ## Expiry of a whole workflow -/

/-- Steps of `w` do not start running or fail, and `w` does not fail without a failed step. -/
structure Db.Drains (w : WorkflowId) (db db' : Db) : Prop where
  row : ∀ i j', db'.job i = some j' → ∃ j, db.job i = some j ∧ j'.workflowId = j.workflowId ∧
    (j'.status.active = true → j.status.active = true) ∧
    (j'.status.lost = true → j.status.lost = true)
  failed : ∀ x', db'.workflow w = some x' → x'.status = .failed →
    (∃ x, db.workflow w = some x ∧ x.status = .failed) ∨
    ∃ i j, db.job i = some j ∧ j.workflowId = some w ∧ j.status.lost = true

theorem Db.Drains.refl (w : WorkflowId) (db : Db) : db.Drains w db :=
  ⟨fun _ j h => ⟨j, h, rfl, id, id⟩, fun x h hf => .inl ⟨x, h, hf⟩⟩

theorem Db.Drains.trans (h : db.Drains w db') (h' : db'.Drains w db'') : db.Drains w db'' where
  row i j'' hj'' := by
    obtain ⟨j', hj', hw', ha', hl'⟩ := h'.row i j'' hj''
    obtain ⟨j, hj, hw, ha, hl⟩ := h.row i j' hj'
    exact ⟨j, hj, hw'.trans hw, fun h => ha (ha' h), fun h => hl (hl' h)⟩
  failed x'' hx'' hf := by
    rcases h'.failed x'' hx'' hf with ⟨x', hx', hf'⟩ | ⟨i, j', hj', hw', hl'⟩
    · exact h.failed x' hx' hf'
    · obtain ⟨j, hj, hw, -, hl⟩ := h.row i j' hj'
      exact .inr ⟨i, j, hj, hw.symm.trans hw', hl hl'⟩

theorem Db.drains_cancel {e : Job → Option String} :
    db.Drains w (db.setStatus now p fun j => Db.cancelRow now (e j) j) := by
  have hrow : ∀ i j', (db.setJobs now p fun j => Db.cancelRow now (e j) j).job i = some j' →
      ∃ j, db.job i = some j ∧ j'.workflowId = j.workflowId ∧
        (j'.status.active = true → j.status.active = true) ∧
        (j'.status.lost = true → j.status.lost = true) := by
    intro i j' hj'
    rw [Db.job_setJobs] at hj'
    obtain ⟨j, hj, rfl⟩ := Option.map_eq_some_iff.1 hj'
    refine ⟨j, hj, ?_⟩
    split
    · exact ⟨rfl, (fun h => by cases h), fun h => by cases h⟩
    · exact ⟨rfl, id, id⟩
  refine ⟨fun i j' hj' => hrow i j' ?_, fun x' hx' hf => ?_⟩
  · rw [Db.job_setStatus fun j _ _ => by simp] at hj'
    rw [Db.job_setJobs]
    exact hj'
  · obtain ⟨x, hx, -, hst | ⟨-, hst, -⟩⟩ := Db.workflow_setStatus hx'
    · exact .inl ⟨x, hx, hst.symm.trans hf⟩
    · right
      have hpos : 0 < (db.setJobs now p fun j => Db.cancelRow now (e j) j).countSteps w Status.lost :=
        Nat.pos_of_ne_zero fun h0 => Db.progress_ne_failed h0 (hst.symm.trans hf)
      obtain ⟨i, j', hj', hw', hl'⟩ := Db.countSteps_pos.1 hpos
      obtain ⟨j, hj, hw, -, hl⟩ := hrow i j' hj'
      exact ⟨i, j, hj, hw.symm.trans hw', hl hl'⟩

theorem Db.drains_afterExpiry (db : Db) (now : Time) (pick : JobId → Bool) :
    db.Drains w (db.afterExpiry now pick) := by
  have hdel : ∀ (d : Db) p, d.Drains w (d.withoutRows p) := by
    refine fun d p => ⟨fun i j' hj' => ?_, (Db.Drains.refl w d).failed⟩
    rw [Db.job_withoutRows] at hj'
    exact ⟨j', (Option.filter_eq_some_iff.1 hj').1, rfl, id, id⟩
  have hdrop : ∀ (d : Db) i, d.Drains w (d.dropReferences now i) := by
    refine fun d i => ⟨fun k j' hj' => ?_, (Db.Drains.refl w d).failed⟩
    rw [Db.job_dropReferences] at hj'
    obtain ⟨j, hj, rfl⟩ := Option.map_eq_some_iff.1 hj'
    refine ⟨j, hj, ?_⟩
    split <;> exact ⟨rfl, id, id⟩
  exact Db.afterExpiry_rel (.refl w) (fun _ _ _ => .trans) hdel
    (fun _ _ _ _ => Db.drains_cancel) hdrop pick

theorem Db.cleanupExpired_settles (pick : JobId → Bool) (hx : db.workflow w = some x)
    (hlive : x.status.live = true)
    (hsteps : ∀ i j, db.job i = some j → j.workflowId = some w → j.status.lost = false ∧
      (j.status.active = true → db.expires now pick i = true))
    (hgone : ∃ j, db.job j.id = some j ∧ j.workflowId = some w ∧ db.expires now pick j.id = true)
    (hx' : (db.cleanupExpired now pick).workflow w = some x') : x'.status.unsettled = false := by
  have hd := Db.drains_afterExpiry (w := w) db now pick
  have hlost : (db.afterExpiry now pick).countSteps w Status.lost = 0 := by
    rw [Db.countSteps_eq_zero]
    intro i j' hj' hw'
    obtain ⟨j, hj, hw, -, hl⟩ := hd.row i j' hj'
    refine Bool.eq_false_iff.2 fun h => ?_
    rw [(hsteps i j hj (hw.symm.trans hw')).1] at hl
    cases hl h
  have hact : (db.afterExpiry now pick).countSteps w Status.active = 0 := by
    rw [Db.countSteps_eq_zero]
    intro i j' hj' hw'
    obtain ⟨j, hj, hw, ha, -⟩ := hd.row i j' hj'
    refine Bool.eq_false_iff.2 fun h => ?_
    -- an open step expires, and then it is deleted
    have he := (hsteps i j hj (hw.symm.trans hw')).2 (ha h)
    unfold Db.afterExpiry at hj'
    generalize (db.cancelExpiredChildren now (db.expires now pick)).cancelExpiredDependents now
      (db.expires now pick) = d at hj'
    cases hk : d.job i with
    | none => rw [Db.job_deleteJobs_absent hk] at hj'; cases hj'
    | some k =>
      rw [Db.job_deleteJobs_deleted hk (by rw [Db.job_id hk]; exact he)] at hj'
      cases hj'
  obtain ⟨y, hy, -, ⟨rfl, hwhy⟩ | ⟨-, -, -, hst⟩⟩ := Db.workflow_cleanupExpired pick hx'
  · by_contra hun
    have hun : x'.status.unsettled = true := by simpa using hun
    by_cases hl : x'.status.live = true
    · have := hwhy hgone hl
      omega
    · have hf : x'.status = .failed := by
        cases hst : x'.status with
        | failed => rfl
        | completed | cancelled => rw [hst] at hun; cases hun
        | pending | running => rw [hst] at hl; exact absurd rfl hl
      rcases hd.failed x' hy hf with ⟨x₀, hx₀, hf₀⟩ | ⟨i, j, hj, hw, hl⟩
      · rw [hx] at hx₀
        cases hx₀
        rw [hf₀] at hlive
        cases hlive
      · rw [(hsteps i j hj hw).1] at hl
        cases hl
  · rw [hst, hlost]
    exact Db.expiryStatus_settled

end Decide

end Spooled
