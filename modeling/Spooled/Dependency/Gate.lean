import Spooled.Store.Writes

/-!
# Who opens the dependency gate

`dependencies_met` is recomputed by a dozen statements from the edges that
still exist. `Gated` says what all of them have in common: a gate that is
opened carries the answer of `check_job_dependencies_met` in the state the
statement leaves, and the job has edges, has no parent to wait for, or is an
any-join. Statements that create or delete rows or edges are not of this kind.
-/

namespace Spooled

namespace Db

variable {db db' db'' : Db} {now : Time} {i : JobId} {j j' : Job} {p : Job → Bool} {f : Job → Job}

/-- Job `i` is completed. -/
def completed (db : Db) (i : JobId) : Bool := (db.job i).any (·.status == .completed)

theorem completed_iff : db.completed i = true ↔ ∃ j, db.job i = some j ∧ j.status = .completed := by
  simp [completed, Option.any_eq_true]

theorem completed_of_job (hj : db.job i = some j) :
    db.completed i = true ↔ j.status = .completed := by
  simp [completed, hj]

theorem mem_deps {d : Job} :
    d ∈ db.deps i ↔ ∃ e ∈ db.edges, e.job = i ∧ db.job e.dependsOn = some d := by
  simp only [deps, List.mem_filterMap, List.mem_filter, beq_iff_eq]
  constructor
  · rintro ⟨e, ⟨he, hi⟩, hd⟩; exact ⟨e, he, hi, hd⟩
  · rintro ⟨e, he, hi, hd⟩; exact ⟨e, ⟨he, hi⟩, hd⟩

theorem hasEdge_iff {d : JobId} : db.hasEdge i d = true ↔ ⟨i, d⟩ ∈ db.edges := by
  simp only [hasEdge, List.any_eq_true, Bool.and_eq_true, beq_iff_eq]
  constructor
  · rintro ⟨⟨a, b⟩, he, rfl, rfl⟩; exact he
  · intro he; exact ⟨_, he, rfl, rfl⟩

theorem hasEdges_iff : db.hasEdges i = true ↔ ∃ e ∈ db.edges, e.job = i := by
  simp [hasEdges]

/-- `check_job_dependencies_met`, mode by mode. -/
theorem check_all (hj : db.job i = some j) (hm : j.dependencyMode = .all) :
    db.checkJobDependenciesMet i = true ↔ ∀ d ∈ db.deps i, d.status = .completed := by
  simp only [checkJobDependenciesMet, hj, Option.any_some, hm]
  split
  · next h0 => simp [List.eq_nil_of_length_eq_zero h0]
  · simp [List.countP_eq_length]

theorem check_any (hj : db.job i = some j) (hm : j.dependencyMode = .any) :
    db.checkJobDependenciesMet i = true ↔
      db.deps i = [] ∨ ∃ d ∈ db.deps i, d.status = .completed := by
  simp only [checkJobDependenciesMet, hj, Option.any_some, hm]
  split
  · next h0 => simp [List.eq_nil_of_length_eq_zero h0]
  · next h0 =>
    have hne : db.deps i ≠ [] := fun h => h0 (by rw [h]; rfl)
    simp [hne]

theorem check_mono (he : db'.edges = db.edges) (hsome : ∀ x d', db'.job x = some d' →
    ∃ d, db.job x = some d) (hc : ∀ x, db.completed x = true → db'.completed x = true)
    (hj : db.job i = some j) (hj' : db'.job i = some j')
    (hm : j'.dependencyMode = j.dependencyMode) (h : db.checkJobDependenciesMet i = true) :
    db'.checkJobDependenciesMet i = true := by
  have hback : ∀ d' ∈ db'.deps i, ∃ d ∈ db.deps i, db'.job d.id = some d' := by
    intro d' hd'
    obtain ⟨e, hem, hei, hd'⟩ := mem_deps.1 hd'
    obtain ⟨d, hd⟩ := hsome _ _ hd'
    exact ⟨d, mem_deps.2 ⟨e, he ▸ hem, hei, hd⟩, by rw [job_id hd]; exact hd'⟩
  cases hmode : j.dependencyMode with
  | all =>
    rw [check_all hj hmode] at h
    rw [check_all hj' (hm.trans hmode)]
    intro d' hd'
    obtain ⟨d, hd, hjd⟩ := hback d' hd'
    obtain ⟨e, -, -, hd₂⟩ := mem_deps.1 hd
    have := hc d.id (by rw [job_id hd₂]; exact (completed_of_job hd₂).2 (h d hd))
    exact (completed_of_job hjd).1 this
  | any =>
    rw [check_any hj hmode] at h
    rw [check_any hj' (hm.trans hmode)]
    rcases h with h | ⟨d, hd, hs⟩
    · left
      rw [List.eq_nil_iff_forall_not_mem]
      intro d' hd'
      obtain ⟨d, hd, -⟩ := hback d' hd'
      rw [h] at hd
      cases hd
    · right
      obtain ⟨e, hem, hei, hd⟩ := mem_deps.1 hd
      obtain ⟨d', hd', hs'⟩ := completed_iff.1 (hc _ ((completed_of_job hd).2 hs))
      exact ⟨d', mem_deps.2 ⟨e, he ▸ hem, hei, hd'⟩, hs'⟩

/-! ## Justified gates -/

/-- The gate of `j` may be open: the check says so, and no parent is overlooked. -/
def Justified (db : Db) (j : Job) : Prop :=
  db.checkJobDependenciesMet j.id = true ∧ (j.dependencyMode = .any ∨ db.hasEdges j.id = true ∨
    ∀ q r, j.parentJobId = some q → db.job q = some r → r.status = .completed)

/-- A row whose gate is kept, closed, or opened with reason. -/
structure GateRow (db' : Db) (j j' : Job) : Prop where
  id : j'.id = j.id
  mode : j'.dependencyMode = j.dependencyMode
  parent : j'.parentJobId = j.parentJobId
  gate : j'.dependenciesMet = j.dependenciesMet ∨ j'.dependenciesMet = some false ∨
    j'.dependenciesMet = some true ∧ db'.Justified j'

/-- From `db` to `db'` gates are opened with reason only, and edges are untouched. -/
structure Gated (db db' : Db) : Prop where
  edges : db'.edges = db.edges
  completed : ∀ i, db.completed i = true → db'.completed i = true
  row : ∀ i, Option.Rel (GateRow db') (db.job i) (db'.job i)

theorem GateRow.refl (db : Db) (j : Job) : GateRow db j j := ⟨rfl, rfl, rfl, .inl rfl⟩

theorem Gated.refl (db : Db) : Gated db db where
  edges := rfl
  completed _ h := h
  row i := by
    cases db.job i with
    | none => exact .none
    | some j => exact .some (.refl db j)

theorem Gated.job (h : Gated db db') (hj' : db'.job i = some j') :
    ∃ j, db.job i = some j ∧ GateRow db' j j' := by
  have hr := h.row i
  rw [hj'] at hr
  generalize ho : db.job i = o at hr
  cases hr with | some hr => exact ⟨_, rfl, hr⟩

theorem Gated.job' (h : Gated db db') (hj : db.job i = some j) :
    ∃ j', db'.job i = some j' ∧ GateRow db' j j' := by
  have hr := h.row i
  rw [hj] at hr
  generalize ho : db'.job i = o at hr
  cases hr with | some hr => exact ⟨_, rfl, hr⟩

theorem Gated.justified (h : Gated db db') (hj : db.job i = some j) (hj' : db'.job i = some j')
    (hr : GateRow db' j j') (hJ : db.Justified j) : db'.Justified j' := by
  obtain ⟨hcheck, hwhy⟩ := hJ
  refine ⟨?_, ?_⟩
  · rw [hr.id, job_id hj]
    rw [job_id hj] at hcheck
    refine check_mono h.edges (fun x d' hd' => ?_) h.completed hj hj' hr.mode hcheck
    obtain ⟨d, hd, -⟩ := h.job hd'
    exact ⟨d, hd⟩
  · rw [hr.id, hr.mode, hr.parent]
    rcases hwhy with hm | he | hp
    · exact .inl hm
    · exact .inr (.inl (by simpa only [hasEdges, h.edges] using he))
    · refine .inr (.inr fun q r' hq hr' => ?_)
      obtain ⟨r, hjr, -⟩ := h.job hr'
      exact (completed_of_job hr').1 (h.completed q ((completed_of_job hjr).2 (hp q r hq hjr)))

theorem Gated.trans (h : Gated db db') (h' : Gated db' db'') : Gated db db'' where
  edges := h'.edges.trans h.edges
  completed i hi := h'.completed i (h.completed i hi)
  row i := by
    cases hj : db.job i with
    | none =>
      have h₁ := h.row i
      have h₂ := h'.row i
      rw [hj] at h₁
      generalize db'.job i = b, db''.job i = c at h₁ h₂
      cases h₁; cases h₂
      exact .none
    | some j =>
      obtain ⟨j₁, hj₁, hr₁⟩ := h.job' hj
      obtain ⟨j₂, hj₂, hr₂⟩ := h'.job' hj₁
      rw [hj₂]
      refine .some ⟨hr₂.id.trans hr₁.id, hr₂.mode.trans hr₁.mode, hr₂.parent.trans hr₁.parent, ?_⟩
      rcases hr₂.gate with hg | hg | hg
      · rw [hg]
        rcases hr₁.gate with hg₁ | hg₁ | ⟨hg₁, hJ⟩
        · exact .inl hg₁
        · exact .inr (.inl hg₁)
        · exact .inr (.inr ⟨hg₁, h'.justified hj₁ hj₂ hr₂ hJ⟩)
      · exact .inr (.inl hg)
      · exact .inr (.inr hg)

theorem Gated.of_eq (hj : db'.jobs = db.jobs) (he : db'.edges = db.edges) : Gated db db' := by
  have hjob : db'.job = db.job := by funext i; simp only [Db.job, hj]
  refine ⟨he, fun i hi => by simpa only [Db.completed, hjob] using hi, fun i => ?_⟩
  rw [hjob]
  cases db.job i with
  | none => exact .none
  | some j => exact .some ⟨rfl, rfl, rfl, .inl rfl⟩

/-! ## Updates -/

/-- The assignment `f` neither completes `j` nor opens its gate without reason. -/
structure Assigns (db : Db) (f : Job → Job) (j : Job) : Prop where
  completed : (f j).status = .completed ↔ j.status = .completed
  mode : (f j).dependencyMode = j.dependencyMode
  parent : (f j).parentJobId = j.parentJobId
  gate : (f j).dependenciesMet = j.dependenciesMet ∨ (f j).dependenciesMet = some false ∨
    (f j).dependenciesMet = some true ∧ db.Justified j

theorem gated_setJobs (h : ∀ j, db.job j.id = some j → p j = true → db.Assigns f j) :
    Gated db (db.setJobs now p f) := by
  have hsome : ∀ x d', (db.setJobs now p f).job x = some d' → ∃ d, db.job x = some d := by
    intro x d' hd'
    rw [job_setJobs] at hd'
    obtain ⟨d, hd, -⟩ := Option.map_eq_some_iff.1 hd'
    exact ⟨d, hd⟩
  have hcomp : ∀ x, (db.setJobs now p f).completed x = db.completed x := by
    intro x
    cases hd : db.job x with
    | none => simp [Db.completed, job_setJobs, hd]
    | some d =>
      rw [Db.completed, job_setJobs_some hd, Db.completed, hd, Option.any_some, Option.any_some]
      split
      · next hp =>
        have := (h d (by rw [job_id hd]; exact hd) hp).completed
        rw [Bool.eq_iff_iff, beq_iff_eq, beq_iff_eq]
        exact this
      · rfl
  refine ⟨rfl, fun x hx => by rw [hcomp]; exact hx, fun i => ?_⟩
  rw [job_setJobs]
  cases hj : db.job i with
  | none => exact .none
  | some j =>
    refine .some ?_
    have hj' : (db.setJobs now p f).job i = some _ := job_setJobs_some hj
    dsimp only
    split
    · next hp =>
      rw [if_pos hp] at hj'
      have ha := h j (by rw [job_id hj]; exact hj) hp
      refine ⟨rfl, ha.mode, ha.parent, ?_⟩
      rcases ha.gate with hg | hg | ⟨hg, hcheck, hwhy⟩
      · exact .inl hg
      · exact .inr (.inl hg)
      · refine .inr (.inr ⟨hg, ?_, ?_⟩)
        · rw [job_id hj] at hcheck
          rw [Job.written_id, job_id hj]
          exact check_mono (show (db.setJobs now p f).edges = db.edges from rfl) hsome
            (fun x hx => by rw [hcomp]; exact hx) hj hj' ha.mode hcheck
        · rcases hwhy with hm | he | hq
          · exact .inl (ha.mode.trans hm)
          · exact .inr (.inl he)
          · refine .inr (.inr fun q r' hpar hr' => ?_)
            obtain ⟨r, hr⟩ := hsome q r' hr'
            have hpar : (f j).parentJobId = some q := hpar
            rw [ha.parent] at hpar
            rw [← completed_of_job hr', hcomp, completed_of_job hr]
            exact hq q r hpar hr
    · exact ⟨rfl, rfl, rfl, .inl rfl⟩

theorem gated_setStatus (hs : ∀ j, p j = true → (f j).status ≠ .completed)
    (h : ∀ j, db.job j.id = some j → p j = true → db.Assigns f j) :
    Gated db (db.setStatus now p f) := by
  have h₁ : Gated db (db.setJobs now p f) := gated_setJobs h
  exact h₁.trans (.of_eq (setStatus_jobs fun j _ hj => hs j hj) setStatus_edges)

theorem Assigns.quiet (h : j.status ≠ .completed) (h' : (f j).status ≠ .completed)
    (hm : (f j).dependencyMode = j.dependencyMode) (hp : (f j).parentJobId = j.parentJobId)
    (hg : (f j).dependenciesMet = j.dependenciesMet) : db.Assigns f j :=
  ⟨by simp [h, h'], hm, hp, .inl hg⟩

theorem Assigns.regate {m : Job → Bool} (h : m j = true → db.Justified j) :
    db.Assigns (fun j => { j with dependenciesMet := some (m j) }) j := by
  refine ⟨Iff.rfl, rfl, rfl, ?_⟩
  dsimp only
  cases hm : m j with
  | false => exact .inr (.inl rfl)
  | true => exact .inr (.inr ⟨rfl, h hm⟩)

theorem gated_complete (q : Presented) : Gated db (db.complete now q) := by
  set f : Job → Job := fun j => { j with status := .completed, completedAt := some now } with hf
  have ht := triggered_setStatus db now (·.heldBy now q) f
  have hrow : ∀ {x d}, db.job x = some d → ∃ m t, (db.complete now q).job x =
      some ((if d.heldBy now q then d.written now f else d).regate m t) ∧
      (m = d.dependenciesMet ∨ m = some ((db.complete now q).checkJobDependenciesMet x) ∧
        (db.complete now q).hasEdges x = true) := by
    intro x d hd
    obtain ⟨m, t, h, hm⟩ := ht.row x _ (job_setJobs_some hd)
    refine ⟨m, t, h, ?_⟩
    rcases hm with hm | ⟨hm, he⟩
    · left
      rw [hm]
      split <;> rfl
    · right
      refine ⟨?_, ?_⟩
      · rw [hm, ← checkJobDependenciesMet_congr ht.edges ht.checkView x]
        rfl
      · have hedges : (db.complete now q).edges = db.edges := ht.edges
        rw [hasEdges, hedges]
        exact he
  refine ⟨ht.edges, fun x hx => ?_, fun x => ?_⟩
  · obtain ⟨d, hd, hs⟩ := completed_iff.1 hx
    obtain ⟨m, t, h, -⟩ := hrow hd
    refine completed_iff.2 ⟨_, h, ?_⟩
    split
    · rfl
    · exact hs
  · cases hd : db.job x with
    | none =>
      rw [complete, ht.absent x (by rw [job_setJobs, hd]; rfl)]
      exact .none
    | some d =>
      obtain ⟨m, t, h, hm⟩ := hrow hd
      have hid := job_id h
      rw [h]
      have hid' := job_id hd
      refine .some ⟨?_, ?_, ?_, ?_⟩
      · rw [hid, hid']
      · split <;> rfl
      · split <;> rfl
      · rcases hm with hm | ⟨hm, he⟩
        · exact .inl hm
        · cases hc : (db.complete now q).checkJobDependenciesMet x with
          | false => rw [hc] at hm; exact .inr (.inl hm)
          | true =>
            rw [hc] at hm
            refine .inr (.inr ⟨hm, ?_, .inr (.inl ?_)⟩)
            · rw [hid]; exact hc
            · rw [hid]; exact he

/-! ## Statements -/

/-- Foreign keys and scopes: edges and parent links join existing rows of one
organization, and a workflow step has no parent. -/
structure Sound (db : Db) : Prop where
  edge : ∀ e ∈ db.edges, ∃ j d, db.job e.job = some j ∧ db.job e.dependsOn = some d ∧
    d.organizationId = j.organizationId
  parent : ∀ i j q, db.job i = some j → j.parentJobId = some q →
    ∃ r, db.job q = some r ∧ r.organizationId = j.organizationId
  workflow : ∀ i j, db.job i = some j → j.workflowId ≠ none → j.parentJobId = none

theorem Quiet.gated {A : Option OrgId} (h : Quiet A now db db') : Gated db db' := by
  have hlinks : ∀ {f : Job → Job} {j : Job}, (f j).links = j.links →
      (f j).dependencyMode = j.dependencyMode ∧ (f j).parentJobId = j.parentJobId ∧
        (f j).dependenciesMet = j.dependenciesMet := by
    intro f j hl
    simp only [Job.links, Prod.mk.injEq] at hl
    exact ⟨hl.2.2.2.1, hl.2.2.1, hl.2.2.2.2⟩
  induction h with
  | touch _ hs hf =>
    refine gated_setJobs fun j _ _ => ?_
    obtain ⟨hm, hp, hg⟩ := hlinks (hf j)
    exact ⟨by rw [hs], hm, hp, .inl hg⟩
  | settle hp hs hf =>
    refine gated_setStatus (fun j _ => hs j) fun j hj hpj => ?_
    obtain ⟨hm, hpar, hg⟩ := hlinks (hf j)
    exact .quiet (hp _ j hj hpj).1 (hs j) hm hpar hg
  | other hj he => exact .of_eq hj he
  | trans _ _ ih ih' => exact ih.trans ih'

theorem gated_recompute (h : ∀ j, db.job j.id = some j → p j = true →
    db.checkJobDependenciesMet j.id = true → db.Justified j) :
    Gated db (db.setJobs now p fun j =>
      { j with dependenciesMet := some (db.checkJobDependenciesMet j.id) }) :=
  gated_setJobs fun j hj hp => .regate (m := fun j => db.checkJobDependenciesMet j.id) (h j hj hp)

theorem gated_reopen (org : OrgId) (db : Db) (frontier : List JobId) :
    Gated db (db.setStatus now (db.reopens org frontier) (db.reopenRow now)) := by
  refine gated_setStatus (fun j _ => reopenRow_status_ne db now j) fun j hj hr => ⟨?_, rfl, rfl, ?_⟩
  · simp only [sweptAway_ne_completed (reopens_swept hr).1, reopenRow_status_ne db now j]
  · cases hm : (db.checkJobDependenciesMet j.id &&
        !(j.parentJobId.bind db.job).any (·.status != .completed)) with
    | false => exact .inr (.inl (by rw [reopenRow, hm]))
    | true =>
      rw [Bool.and_eq_true, Bool.not_eq_true'] at hm
      refine .inr (.inr ⟨by rw [reopenRow, hm.1, hm.2]; rfl, hm.1, .inr (.inr ?_)⟩)
      intro q r hq hr
      simpa [hq, hr] using hm.2

theorem gated_resetChildren (org : OrgId) (db : Db) (ids : List JobId) :
    Gated db (db.resetChildren now org ids) := by
  refine gated_setJobs fun j hj _ =>
    .regate (m := fun j => j.dependencyMode == .any && db.checkJobDependenciesMet j.id) fun hm => ?_
  rw [Bool.and_eq_true, beq_iff_eq] at hm
  exact ⟨hm.2, .inl hm.1⟩

theorem gated_retry (now : Time) (org : OrgId) : RetryRel now org Gated where
  refl := .refl
  trans _ _ _ := .trans
  revive hp := gated_setStatus (by simp) fun j _ hj =>
    .quiet (lost_ne_completed (hp j hj).1) (by simp) rfl rfl rfl
  letters _ _ := .of_eq rfl rfl
  children := gated_resetChildren org
  reopen := gated_reopen org
  workflows _ _ := .of_eq rfl rfl

theorem gated_retryWorkflow (S : db.Sound) (w : WorkflowId) (org : OrgId) :
    Gated db (db.retryWorkflow now w org) := by
  unfold retryWorkflow
  split
  · have h₁ : Gated db (db.setStatus now (workflowRetryable w org) db.resetRow) := by
      refine gated_setStatus (by simp) fun j hj hr => ?_
      simp only [workflowRetryable, Bool.and_eq_true, Bool.or_eq_true, beq_iff_eq] at hr
      have hs : j.status ≠ .completed := by
        rcases hr.2 with h | h
        · exact lost_ne_completed h
        · exact sweptAway_ne_completed h
      refine ⟨by simp [hs], rfl, rfl, ?_⟩
      cases hc : db.checkJobDependenciesMet j.id with
      | false => exact .inr (.inl (by rw [resetRow, hc]))
      | true =>
        refine .inr (.inr ⟨by rw [resetRow, hc], hc, .inr (.inr fun q r hq _ => ?_)⟩)
        rw [S.workflow _ j hj (by rw [hr.1.1]; simp)] at hq
        cases hq
    exact h₁.trans (.of_eq rfl rfl)
  · exact .refl db

theorem gated_cancelWorkflow (w : WorkflowId) (org : OrgId) :
    Gated db (db.cancelWorkflow now w org) := by
  unfold cancelWorkflow
  split
  · have h₁ : Gated db (db.setLiveWorkflow w fun x =>
        { x with status := .cancelled, completedAt := some now }) := .of_eq rfl rfl
    refine h₁.trans (gated_setStatus (by simp) fun j _ hj => .quiet ?_ (by simp) rfl rfl rfl)
    simp only [Bool.and_eq_true] at hj
    exact waiting_ne_completed hj.2
  · exact .refl db

end Db

def Stmt.shapes : Stmt → Bool
  | .createJob .. | .insertEdge .. | .createWorkflow .. | .addDependencies ..
  | .cleanupFinished .. | .cleanupFailed .. | .cleanupExpired .. | .purgeDlq .. | .deleteQueue .. =>
    true
  | _ => false

/-- **Every other statement opens gates with reason only.** The recompute of
`POST /jobs` needs to know that its edge is in place. -/
theorem Stmt.exec_gated (cfg : Config) (now : Time) {db : Db} {c : Stmt} (S : db.Sound)
    (hc : c.shapes = false) (hre : ∀ k org, c = .recomputeGate k org → ∀ j q,
      db.job k = some j → j.parentJobId = some q → db.hasEdges k = true) :
    db.Gated (c.exec cfg now db) := by
  cases hq : c.isQuiet with
  | true => exact (c.exec_quiet cfg now db hq).gated
  | false =>
    cases c with
    | complete q => exact Db.gated_complete q
    | recomputeChildren parent org =>
      refine Db.gated_recompute fun j hj hp hcheck => ⟨hcheck, .inr (.inr fun q r hq hr => ?_)⟩
      simp only [Bool.and_eq_true, beq_iff_eq, Bool.not_eq_true'] at hp
      obtain ⟨⟨⟨⟨hpar, ho⟩, -⟩, -⟩, hno⟩ := hp
      rw [hpar] at hq
      cases hq
      obtain ⟨r', hr', hor⟩ := S.parent _ j parent hj hpar
      rw [hr] at hr'
      cases hr'
      simpa [hr, hor.trans ho] using hno
    | recomputeCompletedParents =>
      refine Db.gated_recompute fun j hj hp hcheck => ⟨hcheck, .inr (.inr fun q r hq hr => ?_)⟩
      simp only [Db.staleGate, Bool.and_eq_true, Db.parentIs, hq, Option.bind_some, hr,
        Option.any_some, beq_iff_eq] at hp
      exact hp.1.2.2
    | unblockOrphans =>
      refine Db.gated_setJobs fun j hj hp => ⟨Iff.rfl, rfl, rfl, .inr (.inr ⟨rfl, ?_, ?_⟩)⟩
      all_goals
        simp only [Bool.and_eq_true, beq_iff_eq, Bool.not_eq_true'] at hp
      · -- no edge, nothing to wait for
        have hnil : db.deps j.id = [] := by
          rw [List.eq_nil_iff_forall_not_mem]
          intro d hd
          obtain ⟨e, he, hei, -⟩ := Db.mem_deps.1 hd
          have := Db.hasEdges_iff.2 ⟨e, he, hei⟩
          rw [hp.2] at this
          cases this
        simp [Db.checkJobDependenciesMet, hnil]
      · refine .inr (.inr fun q r hq _ => ?_)
        rw [hp.1.1.2] at hq
        cases hq
    | recomputeGate k org =>
      refine Db.gated_setJobs fun j hj hp =>
        .regate (m := fun _ => db.checkJobDependenciesMet k) fun hcheck => ?_
      simp only [Bool.and_eq_true, beq_iff_eq] at hp
      rw [hp.1] at hj
      refine ⟨by rw [hp.1]; exact hcheck, ?_⟩
      cases hq : j.parentJobId with
      | none => exact .inr (.inr fun q r h _ => by cases h)
      | some q => exact .inr (.inl (by rw [hp.1]; exact hre k org rfl j q hj hq))
    | cancelWorkflow w org => exact Db.gated_cancelWorkflow w org
    | retryJob k org => exact (Db.gated_retry now org).retryJob db k
    | retryDlq org pick => exact (Db.gated_retry now org).retryDlq db pick
    | retryWorkflow w org => exact Db.gated_retryWorkflow S w org
    | startWorkflows | terminateWorkflows | cleanupWorkflows => exact .of_eq rfl rfl
    | _ => first | exact Bool.noConfusion hq | exact Bool.noConfusion hc

end Spooled
