import Spooled.Dependency.Safety
import Spooled.Workflow.Progress

/-!
# Writes that stay in one organization

The triggers and the re-opening follow edges, parent links and workflow ids
without comparing organizations. `Closed` says that no such link leaves an
organization, and `Local A` that a write changes rows of `A` only and adds no
link. Over closed tables every statement issued for `A` is local to `A`,
trigger by trigger, because whatever it reaches by a link is a row of `A`.
-/

namespace Spooled

namespace Db

variable {A : OrgId} {db db' db'' : Db} {now : Time} {i : JobId} {j j' : Job} {w : WorkflowId}
  {p : Job → Bool} {f : Job → Job}

/-- Edges, parents and workflows stay in the job's organization. -/
structure Closed (db : Db) : Prop where
  edge : ∀ i d j x, db.hasEdge i d = true → db.job i = some j → db.job d = some x →
    x.organizationId = j.organizationId
  parent : ∀ i j q x, db.job i = some j → j.parentJobId = some q → db.job q = some x →
    x.organizationId = j.organizationId
  workflow : ∀ i j w x, db.job i = some j → j.workflowId = some w → db.workflow w = some x →
    x.organizationId = j.organizationId

/-- Only rows of `A` change, and no link is added. -/
structure Local (A : OrgId) (db db' : Db) : Prop where
  edges : ∀ e ∈ db'.edges, e ∈ db.edges
  keptEdges : ∀ e ∈ db.edges, (∃ j, db.job e.job = some j ∧ j.organizationId ≠ A) → e ∈ db'.edges
  job : ∀ i j', db'.job i = some j' → ∃ j, db.job i = some j ∧
    j'.organizationId = j.organizationId ∧ j'.workflowId = j.workflowId ∧
    ∀ q, j'.parentJobId = some q → j.parentJobId = some q
  keptJob : ∀ i j, db.job i = some j → j.organizationId ≠ A → db'.job i = some j
  workflow : ∀ w x', db'.workflow w = some x' → ∃ x, db.workflow w = some x ∧
    x'.organizationId = x.organizationId
  keptWorkflow : ∀ w x, db.workflow w = some x → x.organizationId ≠ A → db'.workflow w = some x

theorem Local.refl (A : OrgId) (db : Db) : Local A db db where
  edges _ h := h
  keptEdges _ h _ := h
  job _ j h := ⟨j, h, rfl, rfl, fun _ => id⟩
  keptJob _ _ h _ := h
  workflow _ x h := ⟨x, h, rfl⟩
  keptWorkflow _ _ h _ := h

theorem Local.trans (h : Local A db db') (h' : Local A db' db'') : Local A db db'' where
  edges e he := h.edges e (h'.edges e he)
  keptEdges e he hj := by
    obtain ⟨j, hj, ho⟩ := hj
    exact h'.keptEdges e (h.keptEdges e he ⟨j, hj, ho⟩) ⟨j, h.keptJob _ j hj ho, ho⟩
  job i j'' hj'' := by
    obtain ⟨j', hj', ho', hw', hp'⟩ := h'.job i j'' hj''
    obtain ⟨j, hj, ho, hw, hp⟩ := h.job i j' hj'
    exact ⟨j, hj, ho'.trans ho, hw'.trans hw, fun q hq => hp q (hp' q hq)⟩
  keptJob i j hj ho := h'.keptJob i j (h.keptJob i j hj ho) ho
  workflow w x'' hx'' := by
    obtain ⟨x', hx', ho'⟩ := h'.workflow w x'' hx''
    obtain ⟨x, hx, ho⟩ := h.workflow w x' hx'
    exact ⟨x, hx, ho'.trans ho⟩
  keptWorkflow w x hx ho := h'.keptWorkflow w x (h.keptWorkflow w x hx ho) ho

theorem Closed.local (h : db.Closed) (hl : Local A db db') : db'.Closed where
  edge i d j' x' he hj' hx' := by
    obtain ⟨j, hj, ho, -⟩ := hl.job i j' hj'
    obtain ⟨x, hx, ho', -⟩ := hl.job d x' hx'
    rw [ho, ho']
    exact h.edge i d j x (hasEdge_iff.2 (hl.edges _ (hasEdge_iff.1 he))) hj hx
  parent i j' q x' hj' hq hx' := by
    obtain ⟨j, hj, ho, -, hp⟩ := hl.job i j' hj'
    obtain ⟨x, hx, ho', -⟩ := hl.job q x' hx'
    rw [ho, ho']
    exact h.parent i j q x hj (hp q hq) hx
  workflow i j' w x' hj' hw hx' := by
    obtain ⟨j, hj, ho, hw', -⟩ := hl.job i j' hj'
    obtain ⟨x, hx, ho'⟩ := hl.workflow w x' hx'
    rw [ho, ho']
    exact h.workflow i j w x hj (hw'.symm.trans hw) hx

/-! ## Links into an organization -/

/-- Whatever waits for `d` is a row of `A`. -/
def Anchored (A : OrgId) (db : Db) (d : JobId) : Prop :=
  ∀ i j, db.job i = some j → (db.hasEdge i d = true ∨ j.parentJobId = some d) →
    j.organizationId = A

theorem Closed.anchored (h : db.Closed) {d : JobId} {x : Job} (hx : db.job d = some x)
    (ho : x.organizationId = A) : Anchored A db d := by
  rintro i j hj (he | hq)
  · rw [← ho]; exact (h.edge i d j x he hj hx).symm
  · rw [← ho]; exact (h.parent i j d x hj hq hx).symm

theorem Anchored.local {d : JobId} (h : Anchored A db d) (hl : Local A db db') :
    Anchored A db' d := by
  intro i j' hj' hlink
  obtain ⟨j, hj, ho, -, hp⟩ := hl.job i j' hj'
  rw [ho]
  refine h i j hj (hlink.imp (fun he => ?_) (hp d))
  exact hasEdge_iff.2 (hl.edges _ (hasEdge_iff.1 he))

/-- The workflow, if it is still there, is one of `A`. -/
def OwnWorkflow (A : OrgId) (db : Db) (w : WorkflowId) : Prop :=
  ∀ x, db.workflow w = some x → x.organizationId = A

theorem OwnWorkflow.local (h : OwnWorkflow A db w) (hl : Local A db db') : OwnWorkflow A db' w := by
  intro x' hx'
  obtain ⟨x, hx, ho⟩ := hl.workflow w x' hx'
  rw [ho]
  exact h x hx

/-! ## Updates -/

/-- An assignment that moves no row to another organization or workflow and adds no parent. -/
structure KeepsLinks (f : Job → Job) (j : Job) : Prop where
  organizationId : (f j).organizationId = j.organizationId
  workflowId : (f j).workflowId = j.workflowId
  parent : ∀ q, (f j).parentJobId = some q → j.parentJobId = some q

theorem local_setJobs (hp : ∀ i j, db.job i = some j → p j = true → j.organizationId = A)
    (hf : ∀ j, KeepsLinks f j) : Local A db (db.setJobs now p f) where
  edges _ h := h
  keptEdges _ h _ := h
  job i j' hj' := by
    rw [job_setJobs] at hj'
    obtain ⟨j, hj, rfl⟩ := Option.map_eq_some_iff.1 hj'
    refine ⟨j, hj, ?_⟩
    split
    · exact ⟨(hf j).organizationId, (hf j).workflowId, (hf j).parent⟩
    · exact ⟨rfl, rfl, fun _ => id⟩
  keptJob i j hj ho := by
    have hno : p j = false := by
      by_contra hpj
      exact ho (hp i j hj (Bool.not_eq_false _ |>.mp hpj))
    rw [job_setJobs_some hj, hno]
    rfl
  workflow _ x h := ⟨x, h, rfl⟩
  keptWorkflow _ _ h _ := h

theorem local_setLiveWorkflow {g : Workflow → Workflow} (hw : OwnWorkflow A db w)
    (hg : ∀ x, (g x).organizationId = x.organizationId) :
    Local A db (db.setLiveWorkflow w g) where
  edges _ h := h
  keptEdges _ h _ := h
  job _ j h := ⟨j, h, rfl, rfl, fun _ => id⟩
  keptJob _ _ h _ := h
  workflow v x' hx' := by
    obtain ⟨x, hx, rfl | ⟨-, -, rfl⟩⟩ := workflow_setLiveWorkflow hx'
    · exact ⟨_, hx, rfl⟩
    · exact ⟨x, hx, hg x⟩
  keptWorkflow v x hx ho := by
    have hne : w ≠ v := fun h => ho (hw x (h ▸ hx))
    exact (workflow_setLiveWorkflow_ne hne).trans hx

theorem local_updateDependentJobs {d : JobId} (h : Anchored A db d) :
    Local A db (db.updateDependentJobs now d) := by
  refine local_setJobs (fun i j hj he => ?_) fun _ => ⟨rfl, rfl, fun _ => id⟩
  rw [job_id hj] at he
  exact h i j hj (.inl he)

theorem local_setStatus (hc : db.Closed)
    (hp : ∀ i j, db.job i = some j → p j = true → j.organizationId = A)
    (hf : ∀ j, KeepsLinks f j) : Local A db (db.setStatus now p f) := by
  refine setStatus_rule (local_setJobs hp hf) (fun d j hj hpj _ hd => ?_)
    fun d j v hj hpj hv _ hd => ?_
  · have ho := hp _ j hj hpj
    exact hd.trans (local_updateDependentJobs ((hc.anchored hj ho).local hd))
  · have hv : j.workflowId = some v := (hf j).workflowId.symm.trans hv
    have hown : OwnWorkflow A db v := fun x hx => (hc.workflow _ j v x hj hv hx).trans (hp _ j hj hpj)
    exact hd.trans (local_setLiveWorkflow (hown.local hd) fun _ => rfl)

/-! ## Deletes -/

theorem local_dropReferences {d : JobId} (h : Anchored A db d) (hgone : db.job d = none) :
    Local A db (db.dropReferences now d) := by
  have h₁ : Local A db (db.setJobs now (·.parentJobId == some d) fun j =>
      { j with parentJobId := none }) := by
    refine local_setJobs (fun i j hj hq => ?_) fun _ => ⟨rfl, rfl, fun q hq => by cases hq⟩
    exact h i j hj (.inr (beq_iff_eq.1 hq))
  refine ⟨fun e he => (List.mem_filter.1 he).1, fun e he hj => List.mem_filter.2 ⟨he, ?_⟩,
    h₁.job, h₁.keptJob, h₁.workflow, h₁.keptWorkflow⟩
  obtain ⟨j, hj, ho⟩ := hj
  rw [Bool.and_eq_true, bne_iff_ne, bne_iff_ne]
  refine ⟨fun hd => ?_, fun hd => ho (h e.job j hj (.inl ?_))⟩
  · rw [hd, hgone] at hj
    cases hj
  · rw [hasEdge_iff, ← hd]
    exact he

theorem local_cancelBlocked (hc : db.Closed) {old : Job} (ho : old.organizationId = A) :
    Local A db (db.cancelBlocked now old p) := by
  refine local_setStatus hc (fun i j _ hj => ?_) fun _ => ⟨rfl, rfl, fun _ => id⟩
  simp only [Bool.and_eq_true, beq_iff_eq] at hj
  rw [← ho]
  exact hj.1.1.1.2

theorem job_none_of_local (hl : Local A db db') (h : db.job i = none) : db'.job i = none := by
  cases hj : db'.job i with
  | none => rfl
  | some j' =>
    obtain ⟨j, hj, -⟩ := hl.job i j' hj
    rw [h] at hj
    cases hj

theorem local_afterDelete (hc : db.Closed) {old : Job} (ho : old.organizationId = A)
    (h : Anchored A db old.id) (hgone : db.job old.id = none) :
    Local A db (afterDelete now db old) := by
  have h₁ : Local A db (db.cancelBlockedDependentsOfDeletedJob now old) := by
    unfold cancelBlockedDependentsOfDeletedJob
    split
    · exact .refl A db
    · have h₂ : Local A db (db.cancelBlocked now old fun j => j.parentJobId == some old.id) :=
        local_cancelBlocked hc ho
      exact h₂.trans (local_cancelBlocked (hc.local h₂) ho)
  exact h₁.trans (local_dropReferences (h.local h₁) (job_none_of_local h₁ hgone))

theorem local_withoutRows (hp : ∀ i j, db.job i = some j → p j = true → j.organizationId = A) :
    Local A db (db.withoutRows p) where
  edges _ h := h
  keptEdges _ h _ := h
  job i j' hj' := by
    rw [job_withoutRows] at hj'
    exact ⟨j', (Option.filter_eq_some_iff.1 hj').1, rfl, rfl, fun _ => id⟩
  keptJob i j hj ho := by
    refine job_withoutRows_kept hj ?_
    by_contra hpj
    exact ho (hp i j hj (Bool.not_eq_false _ |>.mp hpj))
  workflow _ x h := ⟨x, h, rfl⟩
  keptWorkflow _ _ h _ := h

theorem local_deleteJobs (hc : db.Closed)
    (hp : ∀ i j, db.job i = some j → p j = true → j.organizationId = A) :
    Local A db (db.deleteJobs now p) := by
  have h₁ : Local A db (db.withoutRows p) := local_withoutRows hp
  unfold deleteJobs
  rw [← withoutRows]
  suffices ∀ (rows : List Job), (∀ r ∈ rows, r ∈ db.jobs.rows.filter p) → ∀ d,
      Local A (db.withoutRows p) d → Local A db (rows.foldl (afterDelete now) d) from
    this _ (fun _ => id) _ (.refl A _)
  intro rows
  induction rows with
  | nil => exact fun _ d hd => h₁.trans hd
  | cons r rows ih =>
    intro hrows d hd
    have hr := hrows r List.mem_cons_self
    obtain ⟨hm, hpr⟩ := List.mem_filter.1 hr
    have ho := hp _ r (job_of_mem hm) hpr
    refine ih (fun x hx => hrows x (List.mem_cons_of_mem _ hx)) _ (hd.trans ?_)
    refine local_afterDelete ((hc.local h₁).local hd) ho ?_ ?_
    · exact ((hc.anchored (job_of_mem hm) ho).local h₁).local hd
    · exact job_none_of_local hd (job_withoutRows_of_mem hr)

/-! ## Transactions -/

/-- Jobs and edges stay, and workflows of `A` only are updated. -/
theorem local_updateWorkflows {q : Workflow → Bool} {g : Workflow → Workflow}
    (hj : db'.jobs = db.jobs) (he : db'.edges = db.edges)
    (hw : ∀ w, db'.workflow w = (db.workflow w).map fun x => if q x then g x else x)
    (hq : ∀ x, q x = true → x.organizationId = A)
    (hg : ∀ x, (g x).organizationId = x.organizationId) : Local A db db' := by
  have hjob : db'.job = db.job := by funext i; simp only [Db.job, hj]
  refine ⟨by rw [he]; exact fun _ => id, by rw [he]; exact fun _ h _ => h, ?_, ?_, ?_, ?_⟩
  · rw [hjob]; exact (Local.refl A db).job
  · rw [hjob]; exact (Local.refl A db).keptJob
  · intro v x' hx'
    rw [hw] at hx'
    obtain ⟨x, hx, rfl⟩ := Option.map_eq_some_iff.1 hx'
    refine ⟨x, hx, ?_⟩
    split
    · exact hg x
    · rfl
  · intro v x hx ho
    rw [hw, hx, Option.map_some, if_neg fun h => ho (hq x h)]

theorem Local.of_eq (hj : db'.jobs = db.jobs) (he : db'.edges = db.edges)
    (hw : db'.workflows = db.workflows) : Local A db db' := by
  refine local_updateWorkflows (q := fun _ => false) (g := id) hj he (fun w => ?_)
    (fun _ h => by cases h) fun _ => rfl
  rw [Db.workflow, hw]
  exact Option.map_id'.symm

theorem Quiet.local (h : Quiet (some A) now db db') (hc : db.Closed) : Local A db db' := by
  have hkeep : ∀ {f : Job → Job} {j : Job}, (f j).links = j.links → KeepsLinks f j := by
    intro f j hl
    simp only [Job.links, Prod.mk.injEq] at hl
    exact ⟨hl.1, hl.2.1, fun q hq => hl.2.2.1.symm.trans hq⟩
  induction h with
  | touch hp _ hf => exact local_setJobs hp fun j => hkeep (hf j)
  | settle hp _ hf => exact local_setStatus hc (fun i j hj hpj => (hp i j hj hpj).2) fun j => hkeep (hf j)
  | other hj he hw => exact .of_eq hj he hw
  | trans _ _ ih ih' => exact (ih hc).trans (ih' (hc.local (ih hc)))

theorem local_reopenWorkflows (db : Db) (revived : List JobId) :
    Local A db (db.reopenWorkflows A revived) := by
  refine local_updateWorkflows rfl rfl (Table.find_update _ _ _ (by intro; rfl)) (fun x hx => ?_)
    fun _ => rfl
  simp only [Bool.and_eq_true, beq_iff_eq] at hx
  exact hx.1.1

theorem local_retry (now : Time) (A : OrgId) :
    RetryRel now A fun d d' => d.Closed → Local A d d' where
  refl d _ := .refl A d
  trans _ _ _ h h' hc := (h hc).trans (h' (hc.local (h hc)))
  revive hp hc := local_setStatus hc (fun _ j _ hj => (hp j hj).2) fun _ => ⟨rfl, rfl, fun _ => id⟩
  letters _ _ _ := .of_eq rfl rfl rfl
  children d ids _ := by
    refine local_setJobs (fun i j _ hj => ?_) fun _ => ⟨rfl, rfl, fun _ => id⟩
    simp only [Bool.and_eq_true, beq_iff_eq] at hj
    exact hj.1.2
  reopen d _ hc := local_setStatus hc (fun _ j _ hj => (reopens_swept hj).2) fun _ =>
    ⟨rfl, rfl, fun _ => id⟩
  workflows d ids _ := local_reopenWorkflows d ids

theorem local_retryWorkflow (hc : db.Closed) (now : Time) (v : WorkflowId) :
    Local A db (db.retryWorkflow now v A) := by
  unfold retryWorkflow
  split
  · next hv =>
    have h₁ : Local A db (db.setStatus now (workflowRetryable v A) db.resetRow) := by
      refine local_setStatus hc (fun i j _ hj => ?_) fun _ => ⟨rfl, rfl, fun _ => id⟩
      simp only [workflowRetryable, Bool.and_eq_true, beq_iff_eq] at hj
      exact hj.1.2
    have hown : OwnWorkflow A db v := by
      intro x hx
      rw [hx, Option.any_some, Bool.and_eq_true, beq_iff_eq] at hv
      exact hv.1
    have hown' := hown.local h₁
    generalize db.setStatus now (workflowRetryable v A) db.resetRow = reset at h₁ hown'
    refine h₁.trans ?_
    have hu : ∀ u, (reset.workflows.update (·.id == v) (fun x =>
        { x with
          status := .running
          completedAt := none
          completedJobs := reset.countSteps v (· == .completed)
          failedJobs := reset.countSteps v Status.lost }) (fun _ => rfl)).find u =
        (reset.workflow u).map fun x => if x.id == v then
          { x with
            status := .running
            completedAt := none
            completedJobs := reset.countSteps v (· == .completed)
            failedJobs := reset.countSteps v Status.lost } else x :=
      Table.find_update _ _ _ (by intro; rfl)
    refine ⟨fun _ => id, fun _ h _ => h, (Local.refl A reset).job, (Local.refl A reset).keptJob, ?_, ?_⟩
    · intro u x' hx'
      have hx' := (hu u).symm.trans hx'
      obtain ⟨x, hx, rfl⟩ := Option.map_eq_some_iff.1 hx'
      exact ⟨x, hx, by split <;> rfl⟩
    · intro u x hx ho
      have hne : x.id ≠ v := fun h => ho (hown' x (by rw [← h, Table.key_of_find hx]; exact hx))
      refine (hu u).trans ?_
      rw [hx, Option.map_some, beq_eq_false_iff_ne.2 hne]
      rfl
  · exact .refl A db

theorem local_cancelWorkflow (hc : db.Closed) (now : Time) (v : WorkflowId) :
    Local A db (db.cancelWorkflow now v A) := by
  unfold cancelWorkflow
  split
  · next hv =>
    have hown : OwnWorkflow A db v := by
      intro x hx
      rw [hx, Option.any_some, Bool.and_eq_true, beq_iff_eq] at hv
      exact hv.1
    have h₁ : Local A db (db.setLiveWorkflow v fun x =>
        { x with status := .cancelled, completedAt := some now }) :=
      local_setLiveWorkflow hown fun _ => rfl
    refine h₁.trans (local_setStatus (hc.local h₁) (fun i j _ hj => ?_) fun _ =>
      ⟨rfl, rfl, fun _ => id⟩)
    simp only [Bool.and_eq_true, beq_iff_eq] at hj
    exact hj.1.2
  · exact .refl A db

end Db

/-! ## Requests -/

def Stmt.adds : Stmt → Bool
  | .createJob .. | .createWorkflow .. | .addDependencies .. => true
  | _ => false

/-- **A request that adds nothing stays in its organization.** -/
theorem Stmt.exec_local (cfg : Config) (now : Time) {A : OrgId} {db : Db} {c : Stmt}
    (hcl : db.Closed) (ht : c.tenant = some A) (ha : c.adds = false) :
    db.Local A (c.exec cfg now db) := by
  cases hq : c.isQuiet with
  | true => exact (ht ▸ c.exec_quiet cfg now db hq).local hcl
  | false =>
    cases c with
    | complete q =>
      cases ht
      exact Db.local_setStatus hcl (fun _ _ _ hj => (Db.heldBy_own hj).2) fun _ =>
        ⟨rfl, rfl, fun _ => id⟩
    | recomputeChildren parent org =>
      cases ht
      refine Db.local_setJobs (fun i j _ hj => ?_) fun _ => ⟨rfl, rfl, fun _ => id⟩
      simp only [Bool.and_eq_true, beq_iff_eq] at hj
      exact hj.1.1.1.2
    | recomputeGate k org =>
      cases ht
      refine Db.local_setJobs (fun i j _ hj => ?_) fun _ => ⟨rfl, rfl, fun _ => id⟩
      simp only [Bool.and_eq_true, beq_iff_eq] at hj
      exact hj.2
    | cancelWorkflow v org => cases ht; exact Db.local_cancelWorkflow hcl now v
    | retryJob k org => cases ht; exact (Db.local_retry now A).retryJob db k hcl
    | retryDlq org pick => cases ht; exact (Db.local_retry now A).retryDlq db pick hcl
    | retryWorkflow v org => cases ht; exact Db.local_retryWorkflow hcl now v
    | purgeDlq org pick =>
      cases ht
      have h₁ : db.Local A (db.deleteJobs now (Db.purgeable A pick)) := by
        refine Db.local_deleteJobs hcl fun i j _ hj => ?_
        simp only [Db.purgeable, Bool.and_eq_true, beq_iff_eq] at hj
        exact hj.1.1
      exact h₁.trans (.of_eq rfl rfl rfl)
    | deleteQueue org queue =>
      cases ht
      have h₁ : db.Local A (db.deleteJobs now (Db.inQueue A queue)) := by
        refine Db.local_deleteJobs hcl fun i j _ hj => ?_
        simp only [Db.inQueue, Bool.and_eq_true, beq_iff_eq] at hj
        exact hj.2
      exact h₁.trans (.of_eq rfl rfl rfl)
    | createJob | createWorkflow | addDependencies => cases ha
    | _ => first | exact Bool.noConfusion hq | cases ht

end Spooled
