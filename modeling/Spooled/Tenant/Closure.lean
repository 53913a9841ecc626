import Spooled.Dependency.Broken
import Spooled.Tenant.Local

/-!
# Tenant closure

In every reachable state edges, parents and workflows stay in the organization
of the job: creations check or set it, and no other statement adds a link. So a
request changes rows of its own organization only, whatever triggers and
re-openings it sets off, and the sweeps, which act for nobody, change a row
only because of another row of the same organization.
-/

namespace Spooled

namespace Db

variable {A : OrgId} {db db' db'' : Db} {now : Time} {i : JobId} {j j' : Job} {w : WorkflowId}
  {p : Job → Bool} {f : Job → Job}

/-! ## Workflows keep their organization -/

/-- Every workflow is one of before, in the organization of before. -/
def WorkflowsFrom (db db' : Db) : Prop :=
  ∀ w x', db'.workflow w = some x' → ∃ x, db.workflow w = some x ∧
    x'.organizationId = x.organizationId

theorem WorkflowsFrom.refl (db : Db) : WorkflowsFrom db db := fun _ x h => ⟨x, h, rfl⟩

theorem WorkflowsFrom.trans (h : WorkflowsFrom db db') (h' : WorkflowsFrom db' db'') :
    WorkflowsFrom db db'' := by
  intro w x'' hx''
  obtain ⟨x', hx', ho'⟩ := h' w x'' hx''
  obtain ⟨x, hx, ho⟩ := h w x' hx'
  exact ⟨x, hx, ho'.trans ho⟩

theorem WorkflowsFrom.of_eq (h : db'.workflows = db.workflows) : WorkflowsFrom db db' := by
  intro w x hx
  exact ⟨x, by rw [workflow, ← h]; exact hx, rfl⟩

theorem workflowsFrom_update {q : Workflow → Bool} {g : Workflow → Workflow}
    (hw : ∀ w, db'.workflow w = (db.workflow w).map fun x => if q x then g x else x)
    (hg : ∀ x, (g x).organizationId = x.organizationId) : WorkflowsFrom db db' := by
  intro w x' hx'
  rw [hw] at hx'
  obtain ⟨x, hx, rfl⟩ := Option.map_eq_some_iff.1 hx'
  exact ⟨x, hx, by split <;> first | exact hg x | rfl⟩

theorem workflowsFrom_setStatus (db : Db) (now : Time) (p : Job → Bool) (f : Job → Job) :
    WorkflowsFrom db (db.setStatus now p f) := by
  refine setStatus_rule (.of_eq rfl) (fun _ _ _ _ _ h => h.trans (.of_eq rfl))
    fun d j w _ _ _ _ h => h.trans fun v x' hx' => ?_
  obtain ⟨x, hx, rfl | ⟨-, -, rfl⟩⟩ := workflow_setLiveWorkflow hx'
  · exact ⟨_, hx, rfl⟩
  · exact ⟨x, hx, rfl⟩

theorem workflowsFrom_deleteJobs (db : Db) (now : Time) (p : Job → Bool) :
    WorkflowsFrom db (db.deleteJobs now p) :=
  deleteJobs_rel WorkflowsFrom.refl (fun _ _ _ => WorkflowsFrom.trans) (.of_eq rfl)
    (fun d q _ _ => workflowsFrom_setStatus d now q _) fun _ _ => .of_eq rfl

theorem Quiet.workflowsFrom {A : Option OrgId} {now : Time} (h : Quiet A now db db') :
    WorkflowsFrom db db' := by
  induction h with
  | touch => exact .of_eq rfl
  | settle => exact workflowsFrom_setStatus _ _ _ _
  | other _ _ hw => exact .of_eq hw
  | trans _ _ ih ih' => exact ih.trans ih'

theorem workflowsFrom_retry (now : Time) (org : OrgId) : RetryRel now org WorkflowsFrom where
  refl := .refl
  trans _ _ _ := .trans
  revive _ := workflowsFrom_setStatus _ now _ _
  letters _ _ := .of_eq rfl
  children _ _ := .of_eq rfl
  reopen d _ := workflowsFrom_setStatus d now _ _
  workflows _ _ := workflowsFrom_update (Table.find_update _ _ _ (by intro; rfl)) fun _ => rfl

end Db

theorem Stmt.exec_workflowsFrom (cfg : Config) (now : Time) (db : Db) {c : Stmt}
    (hc : ∀ org w base defs, c ≠ .createWorkflow org w base defs) :
    db.WorkflowsFrom (c.exec cfg now db) := by
  cases hq : c.isQuiet with
  | true => exact (c.exec_quiet cfg now db hq).workflowsFrom
  | false =>
    cases c with
    | complete => exact Db.workflowsFrom_setStatus db now _ _
    | recomputeChildren | recomputeCompletedParents | unblockOrphans | recomputeGate =>
      exact .of_eq rfl
    | startWorkflows | terminateWorkflows =>
      exact Db.workflowsFrom_update (Table.find_update _ _ _ (by intro; rfl)) fun _ => rfl
    | cleanupWorkflows retention pick =>
      intro w x' hx'
      have hx' : (Table.delete _ _).find w = some x' := hx'
      rw [Table.find_delete] at hx'
      exact ⟨x', (Option.filter_eq_some_iff.1 hx').1, rfl⟩
    | cleanupFinished | cleanupFailed => exact Db.workflowsFrom_deleteJobs db now _
    | purgeDlq | deleteQueue => exact (Db.workflowsFrom_deleteJobs db now _).trans (.of_eq rfl)
    | cleanupExpired pick =>
      simp only [exec, Db.cleanupExpired]
      exact ((((Db.workflowsFrom_setStatus db now _ _).trans
        (Db.workflowsFrom_setStatus _ now _ _)).trans (Db.workflowsFrom_deleteJobs _ now _)).trans
        (Db.workflowsFrom_update (Table.find_update _ _ _ (by intro; rfl)) fun _ => rfl))
    | createJob q k met =>
      simp only [exec, Db.createJob]
      split
      · exact .of_eq rfl
      · exact .refl db
    | insertEdge i d =>
      simp only [exec, Db.insertEdge]
      split
      · exact .of_eq rfl
      · exact .refl db
    | createWorkflow => exact absurd rfl (hc _ _ _ _)
    | addDependencies org k ds mode =>
      exact .of_eq (Db.addDependencies_workflows db now org k ds mode)
    | cancelWorkflow v org =>
      simp only [exec, Db.cancelWorkflow]
      split
      · refine Db.WorkflowsFrom.trans ?_ (Db.workflowsFrom_setStatus _ now _ _)
        intro w x' hx'
        obtain ⟨x, hx, rfl | ⟨-, -, rfl⟩⟩ := Db.workflow_setLiveWorkflow hx'
        · exact ⟨_, hx, rfl⟩
        · exact ⟨x, hx, rfl⟩
      · exact .refl db
    | retryJob k org => exact (Db.workflowsFrom_retry now org).retryJob db k
    | retryDlq org pick => exact (Db.workflowsFrom_retry now org).retryDlq db pick
    | retryWorkflow v org =>
      simp only [exec, Db.retryWorkflow]
      split
      · have h₁ := Db.workflowsFrom_setStatus db now (Db.workflowRetryable v org) db.resetRow
        exact h₁.trans (Db.workflowsFrom_update (Table.find_update _ _ _ (by intro; rfl)) fun _ => rfl)
      · exact .refl db
    | _ => exact Bool.noConfusion hq

/-! ## Closure along a run -/

section Run

variable {cfg : Config} {s s' : Sys} {a : Label} {h : List (Sys × Label)}

/-- A job's workflow has an id of the generator and, while it exists, the job's organization. -/
structure OwnWorkflows (s : Sys) : Prop where
  ids : ∀ w x, s.db.workflow w = some x → w < s.uuid
  own : ∀ i j w, s.db.job i = some j → j.workflowId = some w →
    w < s.uuid ∧ ∀ x, s.db.workflow w = some x → x.organizationId = j.organizationId

theorem workflow_createWorkflow {db : Db} {now : Time} {server : Int} {org : OrgId} {v w : WorkflowId}
    {base : JobId} {defs : List StepDef} {x : Workflow}
    (h : (db.createWorkflow now server org v base defs).workflow w = some x) :
    db.workflow w = some x ∨ w = v ∧ db.workflow v = none ∧ x.organizationId = org := by
  have h : (Table.insert _ _).find w = some x := h
  rw [Table.find_insert] at h
  split at h
  · next hc =>
    obtain ⟨rfl, hn⟩ := hc
    cases h
    exact .inr ⟨rfl, hn, rfl⟩
  · exact .inl h

theorem OwnWorkflows.step (I : OwnWorkflows s) (hn : s.next cfg a = some s') : OwnWorkflows s' := by
  cases Sys.step_of_next hn with
  | idle _ _ hdb _ hu => exact ⟨by rw [hdb, hu]; exact I.ids, by rw [hdb, hu]; exact I.own⟩
  | stmt c k _ hacts _ hdb _ hu =>
    have hle : s.uuid ≤ s'.uuid := by rw [hu]; exact Nat.le_add_right _ _
    by_cases hc : ∃ org w base defs, c = .createWorkflow org w base defs
    · obtain ⟨org, v, base, defs, rfl⟩ := hc
      cases hacts with
      | stmt _ hd =>
      simp only [Stmt.direct, Bool.and_eq_true, beq_iff_eq] at hd
      obtain rfl := hd.1.1
      have hlt : s.uuid < s'.uuid := by
        rw [hu]
        exact Nat.lt_add_of_pos_right (Nat.succ_pos _)
      have hwf : ∀ w x, s'.db.workflow w = some x →
          s.db.workflow w = some x ∨ w = s.uuid ∧ x.organizationId = org := by
        intro w x hx
        rw [hdb] at hx
        exact (workflow_createWorkflow hx).imp_right fun h => ⟨h.1, h.2.2⟩
      refine ⟨fun w x hx => ?_, fun i j w hj hw => ?_⟩
      · rcases hwf w x hx with h | ⟨rfl, -⟩
        · exact lt_of_lt_of_le (I.ids w x h) hle
        · exact hlt
      · rw [hdb] at hj
        rcases Db.job_createWorkflow i with h | ⟨-, d, n, -, -, h⟩
        · have hj := h.symm.trans hj
          obtain ⟨hlt', hown⟩ := I.own i j w hj hw
          refine ⟨lt_of_lt_of_le hlt' hle, fun x hx => ?_⟩
          rcases hwf w x hx with h | ⟨rfl, -⟩
          · exact hown x h
          · exact absurd hlt' (lt_irrefl _)
        · obtain rfl := Option.some.inj (h.symm.trans hj)
          obtain rfl : s.uuid = w := Option.some.inj hw
          refine ⟨hlt, fun x hx => ?_⟩
          rcases hwf s.uuid x hx with h | ⟨-, ho⟩
          · exact absurd (I.ids _ x h) (lt_irrefl _)
          · exact ho
    · have hfrom := c.exec_workflowsFrom cfg s.now s.db
        fun org w base defs h => hc ⟨org, w, base, defs, h⟩
      rw [← hdb] at hfrom
      refine ⟨fun w x hx => ?_, fun i j' w hj' hw => ?_⟩
      · obtain ⟨y, hy, -⟩ := hfrom w x hx
        exact lt_of_lt_of_le (I.ids w y hy) hle
      · have hr := c.exec_rowStep cfg s.now s.db i
        rw [← hdb, hj'] at hr
        cases hj : s.db.job i with
        | some j =>
          rw [hj] at hr
          have hsame := hr.sameJob
          obtain ⟨hlt, hown⟩ := I.own i j w hj (hsame.workflowId.symm.trans hw)
          refine ⟨lt_of_lt_of_le hlt hle, fun x hx => ?_⟩
          obtain ⟨y, hy, ho⟩ := hfrom w x hx
          rw [ho, hown y hy, hsame.organizationId]
        | none =>
          rw [hj] at hr
          cases hr with
          | created hins =>
            cases hins with
            | job => cases hw
            | step org v base defs => exact absurd ⟨org, v, base, defs, rfl⟩ hc

theorem ownWorkflows_run (hr : (system cfg).Run s h) : OwnWorkflows s := by
  refine hr.state_invariant (M := system cfg) (I := OwnWorkflows) (fun s hi => ?_)
    fun s a s' I hn => I.step hn
  refine ⟨fun w x hx => ?_, fun i j w hj => ?_⟩
  · rw [hi.1] at hx; cases hx
  · rw [hi.1] at hj; cases hj

/-- **No link leaves an organization.** -/
theorem closed_run (hr : (system cfg).Run s h) : s.db.Closed := by
  have S := (dependencyInvariant hr).sound
  have W := ownWorkflows_run hr
  exact ⟨fun i d j x he hj hx => S.org_of_dependsOn (.inl he) hj hx,
    fun i j q x hj hq hx => S.org_of_dependsOn (.inr ⟨j, hj, hq⟩) hj hx,
    fun i j w x hj hw hx => (W.own i j w hj hw).2 x hx⟩

end Run

/-! ## What a request changes -/

namespace Db

variable {A : OrgId} {db db' : Db} {now : Time} {i k : JobId} {j : Job} {w : WorkflowId}
  {p : Job → Bool} {f : Job → Job}

/-- What is a row of another organization, before or after, is the same before and after. -/
structure OnlyTouches (A : OrgId) (db db' : Db) : Prop where
  job : ∀ i j, db.job i = some j ∨ db'.job i = some j → j.organizationId ≠ A →
    db'.job i = db.job i
  workflow : ∀ w x, db.workflow w = some x ∨ db'.workflow w = some x → x.organizationId ≠ A →
    db'.workflow w = db.workflow w
  edge : ∀ e j, db.job e.job = some j ∨ db'.job e.job = some j → j.organizationId ≠ A →
    (e ∈ db'.edges ↔ e ∈ db.edges)

theorem Local.onlyTouches (h : Local A db db') : OnlyTouches A db db' := by
  -- a row of another organization was there before
  have before : ∀ i j, db.job i = some j ∨ db'.job i = some j → j.organizationId ≠ A →
      ∃ x, db.job i = some x ∧ x.organizationId ≠ A := by
    rintro i j (hj | hj) ho
    · exact ⟨j, hj, ho⟩
    · obtain ⟨x, hx, hox, -⟩ := h.job i j hj
      exact ⟨x, hx, hox ▸ ho⟩
  refine ⟨fun i j hj ho => ?_, fun w x hx ho => ?_, fun e j hj ho => ⟨h.edges e, fun he => ?_⟩⟩
  · obtain ⟨y, hy, ho⟩ := before i j hj ho
    rw [hy, h.keptJob i y hy ho]
  · rcases hx with hx | hx
    · rw [hx, h.keptWorkflow w x hx ho]
    · obtain ⟨y, hy, hoy⟩ := h.workflow w x hx
      rw [hy, h.keptWorkflow w y hy (hoy ▸ ho)]
  · exact h.keptEdges e he (before e.job j hj ho)

theorem onlyTouches_createJob {server : Int} {q : CreateRequest} {met : Bool}
    (hk : db.job k = none) :
    OnlyTouches q.organizationId db (db.createJob now server q k met) where
  job i j hj ho := by
    by_cases hi : i = k
    · subst hi
      rcases hj with hj | hj
      · rw [hk] at hj; cases hj
      · obtain ⟨rfl, -⟩ := job_createJob_self hk hj
        exact absurd rfl ho
    · exact job_createJob_ne hi
  workflow w x _ _ := by
    unfold createJob
    split <;> rfl
  edge e j _ _ := by rw [createJob_edges]

theorem onlyTouches_createWorkflow {server : Int} {base : JobId} {defs : List StepDef}
    (hjobs : ∀ i, base ≤ i → db.job i = none) :
    OnlyTouches A db (db.createWorkflow now server A w base defs) := by
  have job : ∀ i j, db.job i = some j ∨ (db.createWorkflow now server A w base defs).job i = some j →
      j.organizationId ≠ A → (db.createWorkflow now server A w base defs).job i = db.job i := by
    intro i j hj ho
    rcases job_createWorkflow i with h | ⟨hn, d, n, -, -, h⟩
    · exact h
    · rw [hn, h] at hj
      rcases hj with hj | hj
      · cases hj
      · cases hj
        exact absurd rfl ho
  refine ⟨job, fun v x hx ho => ?_, fun e j hj ho => ?_⟩
  · have hfind : (db.createWorkflow now server A w base defs).workflow v = _ :=
      Table.find_insert _ _ _
    rw [hfind] at hx ⊢
    split
    · next hc =>
      rw [if_pos hc] at hx
      rcases hx with hx | hx
      · rw [workflow, hc.2] at hx; cases hx
      · cases hx
        exact absurd rfl ho
    · rfl
  · rw [createWorkflow_edges, List.mem_append, or_iff_left_iff_imp]
    intro he
    -- a new edge starts from a step, whose id had no row
    obtain ⟨d, n, m, -, -, rfl⟩ := mem_stepEdges.1 he
    have hnone := hjobs (base + n) (Nat.le_add_right _ _)
    have hsame := job _ j hj ho
    rw [hsame, or_self, hnone] at hj
    cases hj

theorem onlyTouches_addDependencies (db : Db) (now : Time) (ds : List JobId)
    (mode : Option DependencyMode) : OnlyTouches A db (db.addDependencies now A k ds mode) := by
  rcases addDependencies_cases db now A k ds mode with
    ⟨h, -⟩ | ⟨hmay, es, x, -, hform, hx, hes, -, hother, hself⟩
  · rw [h]
    exact (Local.refl A db).onlyTouches
  · obtain ⟨⟨y, hy, ho⟩, -⟩ := mayAddDependencies_iff.1 hmay
    obtain rfl : x = y := Option.some.inj (hx.symm.trans hy)
    have mine : ∀ j, db.job k = some j ∨ (db.addDependencies now A k ds mode).job k = some j →
        j.organizationId = A := by
      rw [hx, hself]
      rintro j (hj | hj) <;> cases hj <;> exact ho
    refine ⟨fun i j hj hne => hother i ?_, fun w x _ _ => ?_, fun e j hj hne => ?_⟩
    · rintro rfl
      exact hne (mine j hj)
    · rw [workflow, addDependencies_workflows]
      rfl
    · rw [hes, List.mem_append, or_iff_left_iff_imp]
      intro he
      obtain ⟨rfl, -⟩ := hform e he
      exact absurd (mine j hj) hne

theorem onlyTouches_insertEdge {d : JobId}
    (ho : ∀ j, db.job i = some j → j.organizationId = A) : OnlyTouches A db (db.insertEdge i d) where
  job k j _ _ := job_insertEdge i d k
  workflow w x _ _ := by
    unfold insertEdge
    split <;> rfl
  edge e j hj hne := by
    rw [job_insertEdge, or_self] at hj
    unfold insertEdge
    split
    · rw [List.mem_append, or_iff_left_iff_imp, List.mem_singleton]
      rintro rfl
      exact absurd (ho j hj) hne
    · rfl

end Db

section Requests

variable {cfg : Config} {s s' : Sys} {a : Label} {h : List (Sys × Label)} {A : OrgId}

/-- The organization a step acts for; the clock and the sweeps act for nobody. -/
def Sys.requester (s : Sys) : Label → Option OrgId
  | .createLink n => match s.pending[n]? with
    | some (.link _ _ org) => some org
    | _ => none
  | a => (s.action a).bind fun x => x.1.tenant

/-- A creation that is about to link its child acts for the child's organization. -/
def LinksOwn (s : Sys) : Prop :=
  ∀ child parent org, Pending.link child parent org ∈ s.pending → child < s.uuid ∧
    ∀ j, s.db.job child = some j → j.organizationId = org

theorem linksOwn_run (hr : (system cfg).Run s h) : LinksOwn s := by
  refine hr.invariant (M := system cfg) (C := fun _ _ => True) (I := fun s _ => LinksOwn s)
    (fun s hi child parent org hx => ?_) (fun s h a s' hr _ I _ hn child parent org hx => ?_)
    fun _ _ => trivial
  · rw [hi.2] at hx; cases hx
  · rcases Sys.pending_step hn hx with hx | hx
    · obtain ⟨hlt, hown⟩ := I child parent org hx
      refine ⟨lt_of_lt_of_le hlt (Sys.uuid_mono hn), fun j' hj' => ?_⟩
      obtain ⟨j, hj, hsame, -⟩ := Sys.job_before hn hlt hj'
      rw [hsame.organizationId, hown j hj]
    · cases hx with
      | link n q _ hp hpar hsome =>
        cases Sys.step_of_next hn with
        | idle ha => simp only [Sys.action, hp] at ha; cases ha
        | stmt c k ha hacts _ hdb _ hu =>
          simp only [Sys.action, hp, Option.some.injEq, Prod.mk.injEq] at ha
          obtain ⟨rfl, -⟩ := ha
          obtain ⟨hfresh, -⟩ := (dependencyInvariant hr).fits hacts
          refine ⟨by rw [hu]; exact Nat.lt_succ_self _, fun j hj => ?_⟩
          rw [hdb] at hj
          obtain ⟨rfl, -⟩ := Db.job_createJob_self hfresh hj
          rfl

/-- **A request changes rows of its own organization only**, its triggers included. -/
theorem onlyTouches_of_requester (hr : (system cfg).Run s h) (hn : s.next cfg a = some s')
    (hq : s.requester a = some A) : s.db.OnlyTouches A s'.db := by
  have I := dependencyInvariant hr
  cases Sys.step_of_next hn with
  | idle ha _ hdb =>
    rw [hdb]
    exact (Db.Local.refl A s.db).onlyTouches
  | stmt c k ha hacts _ hdb =>
    have hfits := I.fits hacts
    rw [hdb]
    cases hacts with
    | createLink n child parent org hp =>
      simp only [Sys.requester, hp, Option.some.injEq] at hq
      subst hq
      exact Db.onlyTouches_insertEdge (linksOwn_run hr _ _ _ (List.mem_of_getElem? hp)).2
    | createInsert n q met hp =>
      simp only [Sys.requester, ha, Option.bind_some, Stmt.tenant, Option.some.injEq] at hq
      subst hq
      exact Db.onlyTouches_createJob hfits.1
    | stmt c hd =>
      have ht : c.tenant = some A := by
        simpa only [Sys.requester, ha, Option.bind_some] using hq
      by_cases hadd : c.adds = true
      · cases c with
        | createWorkflow org w base defs =>
          cases ht
          exact Db.onlyTouches_createWorkflow fun i hi => (hfits.1 i hi).1
        | addDependencies org i ds mode =>
          cases ht
          exact Db.onlyTouches_addDependencies s.db s.now ds mode
        | createJob => cases hd
        | _ => cases hadd
      · exact (c.exec_local cfg s.now (closed_run hr) ht (Bool.eq_false_iff.2 hadd)).onlyTouches
    | _ =>
      have ht := hq
      simp only [Sys.requester, ha, Option.bind_some] at ht
      exact (Stmt.exec_local cfg s.now (closed_run hr) ht rfl).onlyTouches

end Requests

/-! ## What the dependency sweep changes -/

namespace Db

variable {db : Db} {now : Time} {i : JobId} {j : Job} {w : WorkflowId} {p : Job → Bool}
  {f : Job → Job} {reason : String}

theorem exists_step_of_workflow_ne (hf : ∀ j, (f j).workflowId = j.workflowId)
    (h : (db.setStatus now p f).workflow w ≠ db.workflow w) :
    ∃ i j, db.job i = some j ∧ p j = true ∧ j.workflowId = some w := by
  by_contra hno
  refine h (setStatus_rule (P := fun d => d.workflow w = db.workflow w) rfl (fun _ _ _ _ _ h => h)
    fun d j v hj hp hv _ hd => (workflow_setLiveWorkflow_ne fun he => ?_).trans hd)
  exact hno ⟨j.id, j, hj, hp, (hf j).symm.trans (hv.trans (congrArg some he))⟩

/-- What the sweep does to `db` has its cause in the same organization: a
changed job depends on a job that ended, a changed workflow has a changed step. -/
structure CausedWithin (db db' : Db) : Prop where
  job : ∀ i j, db.job i = some j → db'.job i ≠ some j → ∃ d x, db.DependsOn i d ∧
    db.job d = some x ∧ x.status.active = false ∧ x.organizationId = j.organizationId
  workflow : ∀ w x, db.workflow w = some x → db'.workflow w ≠ some x → ∃ i j, db.job i = some j ∧
    db'.job i ≠ some j ∧ j.workflowId = some w ∧ j.organizationId = x.organizationId

theorem Sound.cause (S : db.Sound) (hj : db.job i = some j) {d : JobId} (hd : db.DependsOn i d)
    (hb : db.brokenAt d = true) : ∃ d x, db.DependsOn i d ∧ db.job d = some x ∧
      x.status.active = false ∧ x.organizationId = j.organizationId := by
  obtain ⟨x, hx, hb⟩ := (Option.any_eq_true _ _).1 hb
  refine ⟨d, x, hd, hx, ?_, S.org_of_dependsOn hd hj hx⟩
  cases hs : x.status <;> rw [hs] at hb <;> first | rfl | cases hb

theorem Sound.cause_of_fails (S : db.Sound) (hj : db.job i = some j) (h : db.fails j = true) :
    ∃ d x, db.DependsOn i d ∧ db.job d = some x ∧ x.status.active = false ∧
      x.organizationId = j.organizationId := by
  rw [fails, Bool.or_eq_true, S.parentFails_iff hj, S.edgesFail_iff hj] at h
  rcases h with ⟨q, hq, hb, -⟩ | ⟨he, hany, hall⟩
  · exact S.cause hj (.inr ⟨j, hj, hq⟩) hb
  · obtain ⟨d, hd, hb⟩ : ∃ d, db.hasEdge i d = true ∧ db.brokenAt d = true := by
      cases hm : j.dependencyMode with
      | all => exact hall hm
      | any =>
        obtain ⟨d, hd⟩ := hasEdges_iff_exists.1 he
        exact ⟨d, hd, hany hm d hd⟩
    exact S.cause hj (.inl hd) hb

theorem causedWithin_cancelWhere (S : db.Sound) (hc : db.Closed)
    (hp : ∀ j, p j = true → j.status.waiting = true ∧ db.fails j = true) :
    CausedWithin db (db.cancelWhere now reason p) := by
  have hrow : ∀ i, (db.cancelWhere now reason p).job i = (db.job i).map fun j =>
      if p j then j.written now (cancelRow now (some reason)) else j :=
    job_setStatus fun _ _ _ h => by cases h
  refine ⟨fun i j hj hne => ?_, fun w x hx hne => ?_⟩
  · have hpj : p j = true := by
      by_contra hpj
      refine hne ?_
      rw [hrow, hj, Option.map_some, if_neg hpj]
    exact S.cause_of_fails hj (hp j hpj).2
  · rw [← hx] at hne
    obtain ⟨i, j, hj, hpj, hw⟩ :=
      exists_step_of_workflow_ne (f := cancelRow now (some reason)) (fun _ => rfl) hne
    refine ⟨i, j, hj, ?_, hw, (hc.workflow i j w x hj hw hx).symm⟩
    rw [hrow, hj, Option.map_some, if_pos hpj]
    intro he
    have hst := (hp j hpj).1
    rw [← Option.some.inj he] at hst
    cases hst

theorem causedWithin_recomputeCompletedParents (db : Db) (now : Time) :
    CausedWithin db (db.recomputeCompletedParents now) := by
  refine ⟨fun i j hj hne => ?_, fun w x hx hne => absurd hx hne⟩
  have hpj : db.staleGate j = true := by
    by_contra hpj
    refine hne ?_
    rw [recomputeCompletedParents, job_setJobs_some hj, if_neg hpj]
  simp only [staleGate, parentIs, Bool.and_eq_true, Option.any_eq_true, beq_iff_eq] at hpj
  obtain ⟨⟨-, x, hx, ho, hs⟩, -⟩ := hpj
  obtain ⟨q, hq, hx⟩ := Option.bind_eq_some_iff.1 hx
  exact ⟨q, x, .inr ⟨j, hj, hq⟩, hx, by rw [hs]; rfl, ho⟩

end Db

section Sweep

variable {cfg : Config} {s : Sys} {h : List (Sys × Label)}

/-- The statements of the dependency sweep that follow links. -/
def Stmt.followsLinks : Stmt → Bool
  | .recomputeCompletedParents | .cancelParentFailed | .cancelDependencyFailed => true
  | _ => false

theorem causedWithin_run (hr : (system cfg).Run s h) {c : Stmt} (hc : c.followsLinks = true) :
    s.db.CausedWithin (c.exec cfg s.now s.db) := by
  have S := (dependencyInvariant hr).sound
  have hcl := closed_run hr
  cases c with
  | recomputeCompletedParents => exact Db.causedWithin_recomputeCompletedParents s.db s.now
  | cancelParentFailed =>
    refine Db.causedWithin_cancelWhere S hcl fun j hj => ?_
    simp only [Db.parentDooms, Bool.and_eq_true] at hj
    exact ⟨hj.1.1, by rw [Db.fails, hj.2]; rfl⟩
  | cancelDependencyFailed =>
    refine Db.causedWithin_cancelWhere S hcl fun j hj => ?_
    simp only [Db.edgesDoom, Bool.and_eq_true] at hj
    exact ⟨hj.1.1, by rw [Db.fails, hj.2, Bool.or_true]⟩
  | _ => cases hc

/-- **Tenant closure.** In every reachable state edges, parents and workflows
stay in the job's organization. So a step taken for organization `A` leaves the
rows of every other organization as they are, with all triggers, releases and
re-openings it sets off, and the sweeps that release or cancel along links act
on a row because of a row of the same organization. -/
theorem tenant_closure (hr : (system cfg).Run s h) :
    (∀ e ∈ s.db.edges, ∃ j d, s.db.job e.job = some j ∧ s.db.job e.dependsOn = some d ∧
      d.organizationId = j.organizationId) ∧
    (∀ i j q, s.db.job i = some j → j.parentJobId = some q →
      ∃ r, s.db.job q = some r ∧ r.organizationId = j.organizationId) ∧
    (∀ i j w x, s.db.job i = some j → j.workflowId = some w → s.db.workflow w = some x →
      x.organizationId = j.organizationId) ∧
    (∀ a s' A, s.next cfg a = some s' → s.requester a = some A → s.db.OnlyTouches A s'.db) ∧
    (∀ c : Stmt, c.followsLinks = true → s.db.CausedWithin (c.exec cfg s.now s.db)) := by
  have S := (dependencyInvariant hr).sound
  exact ⟨S.edge, S.parent, (closed_run hr).workflow,
    fun a s' A hn hq => onlyTouches_of_requester hr hn hq, fun c hc => causedWithin_run hr hc⟩

end Sweep

/-- Organization 1 has a child gated by a claimed parent, organization 2 a job of its own:
the completion of the parent reaches the child through its edge and stays in organization 1. -/
theorem tenant_closure_child : ∃ s h s', (system {}).Run s h ∧ s.db.edges = [⟨1, 0⟩] ∧
    (s.db.job 2).map (·.organizationId) = some 2 ∧
    s.next {} (.stmt (.complete (clientHolds 0 (.single 3)))) = some s' ∧
    (s.db.job 1).map (·.dependenciesMet) = some (some false) ∧
    (s'.db.job 1).map (·.dependenciesMet) = some (some true) ∧ s.db.OnlyTouches 1 s'.db := by
  obtain ⟨s, h, hr, hp⟩ := Machine.Run.of_exec (system {})
    [.createCheck clientCreate, .createInsert 0,
      .createCheck { clientCreate with parentJobId := some 0 }, .createInsert 0, .createLink 0,
      .createCheck { organizationId := 2, queueName := "r" }, .createInsert 0,
      .stmt (.dequeue 3 clientClaim)] {}
    (fun x => x.1.db.edges == [⟨1, 0⟩] && (x.1.db.job 2).map (·.organizationId) == some 2 &&
      (x.1.db.job 1).map (·.dependenciesMet) == some (some false) &&
      (x.1.next {} (.stmt (.complete (clientHolds 0 (.single 3))))).any fun s' =>
        (s'.db.job 1).map (·.dependenciesMet) == some (some true))
    ⟨rfl, rfl⟩ (by decide +kernel)
  simp only [Bool.and_eq_true, beq_iff_eq, Option.any_eq_true] at hp
  obtain ⟨⟨⟨he, ho⟩, hm⟩, s', hn, hm'⟩ := hp
  obtain ⟨-, -, -, htouch, -⟩ := tenant_closure hr
  exact ⟨s, h, s', hr, he, ho, hn, hm, hm', htouch _ s' 1 hn rfl⟩

end Spooled
