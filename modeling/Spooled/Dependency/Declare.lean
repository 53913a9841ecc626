import Spooled.Dependency.Cover

/-!
# Declaring dependencies

The statements that create rows and edges, `POST /jobs`, `POST /workflows` and
`add_dependencies`, keep foreign keys sound and the accounts of `Covered`: what
they declare for a job is what the job then waits for.
-/

namespace Spooled

open List

namespace Db

variable {D D' : JobId → List JobId} {E : JobId → Prop} {db db' : Db} {now : Time} {i k : JobId}
  {j j' : Job}

/-! ## Rows and edges that are added -/

/-- `db'` has all rows and edges of `db`; the gate and mode of a row may differ. -/
structure Extends (db db' : Db) : Prop where
  edges : ∀ e ∈ db.edges, e ∈ db'.edges
  row : ∀ i j, db.job i = some j → ∃ j', db'.job i = some j' ∧
    j'.organizationId = j.organizationId ∧ j'.parentJobId = j.parentJobId ∧
    j'.workflowId = j.workflowId

theorem Extends.of_job_eq (he : ∀ e ∈ db.edges, e ∈ db'.edges)
    (hj : ∀ i j, db.job i = some j → db'.job i = some j) : Extends db db' :=
  ⟨he, fun i j h => ⟨j, hj i j h, rfl, rfl, rfl⟩⟩

theorem Sound.extends (S : db.Sound) (h : Extends db db')
    (hedge : ∀ e ∈ db'.edges, e ∈ db.edges ∨ ∃ j d, db'.job e.job = some j ∧
      db'.job e.dependsOn = some d ∧ d.organizationId = j.organizationId)
    (hnew : ∀ i j, db.job i = none → db'.job i = some j → (∀ q, j.parentJobId = some q →
      ∃ r, db'.job q = some r ∧ r.organizationId = j.organizationId) ∧
      (j.workflowId ≠ none → j.parentJobId = none)) : db'.Sound where
  edge e he := by
    rcases hedge e he with he | he
    · obtain ⟨j, d, hj, hd, ho⟩ := S.edge e he
      obtain ⟨j', hj', hoj, -⟩ := h.row _ _ hj
      obtain ⟨d', hd', hod, -⟩ := h.row _ _ hd
      exact ⟨j', d', hj', hd', by rw [hoj, hod, ho]⟩
    · exact he
  parent i j' q hj' hq := by
    cases hj : db.job i with
    | none => exact (hnew i j' hj hj').1 q hq
    | some j =>
      obtain ⟨j₀, hj₀, ho, hp, -⟩ := h.row i j hj
      rw [hj'] at hj₀
      cases hj₀
      obtain ⟨r, hr, hor⟩ := S.parent i j q hj (by rw [← hp]; exact hq)
      obtain ⟨r', hr', hor', -⟩ := h.row _ _ hr
      exact ⟨r', hr', by rw [hor', hor, ho]⟩
  workflow i j' hj' hw := by
    cases hj : db.job i with
    | none => exact (hnew i j' hj hj').2 hw
    | some j =>
      obtain ⟨j₀, hj₀, -, hp, hw'⟩ := h.row i j hj
      rw [hj'] at hj₀
      cases hj₀
      rw [hp]
      exact S.workflow i j hj (by rw [← hw']; exact hw)

/-- Only the ids in `T` are touched: what is left to show is about them. -/
theorem Covered.extends (C : Covered D E db) (T : JobId → Prop)
    (hedges : ∀ e ∈ db.edges, e ∈ db'.edges)
    (hedge : ∀ e ∈ db'.edges, e ∈ db.edges ∧ ¬ T e.job ∨ T e.job ∧ e.dependsOn ∈ D' e.job)
    (hdone : ∀ i, db'.completed i = true → E i)
    (hrow : ∀ i, ¬ T i → db'.job i = db.job i ∧ D' i = D i)
    (hnew : ∀ i j, T i → db'.job i = some j → j.closed = false →
      db'.Accounts (D' i) E j ∧ (j.gateOpen = true → j.dependencyMode.Cleared (D' i) E)) :
    Covered D' E db' := by
  have hsame : ∀ i, ¬ T i → ∀ d, ⟨i, d⟩ ∈ db'.edges ↔ ⟨i, d⟩ ∈ db.edges := by
    refine fun i hT d => ⟨fun he => ?_, hedges _⟩
    rcases hedge _ he with ⟨he, -⟩ | ⟨h, -⟩
    · exact he
    · exact absurd h hT
  refine ⟨fun e he => ?_, hdone, fun i j hj hno hg => ?_, fun i j hj hno => ?_⟩
  · rcases hedge e he with ⟨he, hT⟩ | ⟨-, h⟩
    · rw [(hrow _ hT).2]; exact C.edge e he
    · exact h
  · by_cases hT : T i
    · exact (hnew i j hT hj hno).2 hg
    · obtain ⟨hjob, hD⟩ := hrow i hT
      rw [hjob] at hj
      rw [hD]
      exact C.gate i j hj hno hg
  · by_cases hT : T i
    · exact (hnew i j hT hj hno).1
    · obtain ⟨hjob, hD⟩ := hrow i hT
      rw [hjob] at hj
      have hid := job_id hj
      have hse := hsame i hT
      rw [hD]
      refine (C.accounts i j hj hno).mono rfl (fun _ => id) (fun d _ hw => .inr ?_) fun he => .inr ?_
      · refine hw.imp (fun h => ?_) fun ⟨h, hne⟩ => ⟨h, ?_⟩
        · rw [hid, hasEdge_iff] at h ⊢
          exact hedges _ h
        · rw [hid, Bool.eq_false_iff, ne_eq, hasEdges_iff] at hne ⊢
          rintro ⟨⟨_, d⟩, he, rfl⟩
          exact hne ⟨_, (hse d).1 he, rfl⟩
      · rw [hid, hasEdges_iff] at he ⊢
        obtain ⟨e, he, hej⟩ := he
        exact ⟨e, hedges e he, hej⟩

/-! ## `POST /jobs` -/

variable {met : Bool} {q : CreateRequest} {server : Int}

theorem job_createJob_ne (h : i ≠ k) :
    (db.createJob now server q k met).job i = db.job i := by
  unfold createJob
  split
  · rw [job_insertJob, if_neg]
    exact fun hc => h hc.1
  · rfl

theorem createJob_edges :
    (db.createJob now server q k met).edges = db.edges := by
  unfold createJob
  split <;> rfl

theorem job_createJob_self (hk : db.job k = none)
    (h : (db.createJob now server q k met).job k = some j) :
    j = db.newJob now server q k met ∧ ∀ p, q.parentJobId = some p → ∃ r, db.job p = some r := by
  unfold createJob at h
  split at h
  · next hpar =>
    rw [job_insertJob, if_pos ⟨rfl, hk⟩] at h
    refine ⟨(Option.some.inj h).symm, fun p hp => ?_⟩
    rw [hp, Option.all_some] at hpar
    exact Option.isSome_iff_exists.1 hpar
  · rw [hk] at h; cases h

theorem not_hasEdges_of_absent (S : db.Sound) (hk : db.job k = none) : db.hasEdges k = false := by
  rw [Bool.eq_false_iff, ne_eq, hasEdges_iff]
  rintro ⟨e, he, rfl⟩
  obtain ⟨j, -, hj, -⟩ := S.edge e he
  rw [hk] at hj
  cases hj

theorem extends_createJob (db : Db) (now : Time) (server : Int) (q : CreateRequest) (met : Bool)
    (hk : db.job k = none) : Extends db (db.createJob now server q k met) := by
  refine .of_job_eq (fun e he => by rw [createJob_edges]; exact he) fun i j hj => ?_
  rw [job_createJob_ne, hj]
  rintro rfl
  rw [hk] at hj
  cases hj

theorem Sound.createJob (S : db.Sound) (now : Time) (server : Int) (met : Bool)
    (hk : db.job k = none) (horg : ∀ p r, q.parentJobId = some p → db.job p = some r →
      r.organizationId = q.organizationId) : (db.createJob now server q k met).Sound := by
  have hext := extends_createJob db now server q met hk
  refine S.extends hext (fun e he => .inl (by rw [← createJob_edges]; exact he)) fun i j hi hj => ?_
  by_cases hik : i = k
  · subst hik
    obtain ⟨rfl, hpar⟩ := job_createJob_self hi hj
    refine ⟨fun p hp => ?_, fun h => absurd rfl h⟩
    obtain ⟨r, hr⟩ := hpar p hp
    obtain ⟨r', hr', ho, -⟩ := hext.row p r hr
    exact ⟨r', hr', ho.trans (horg p r hp hr)⟩
  · rw [job_createJob_ne hik, hi] at hj
    cases hj

theorem Covered.createJob (C : Covered D E db) (S : db.Sound) (now : Time) (server : Int)
    (hk : db.job k = none) (hD : ∀ i, i ≠ k → D' i = D i) (hDk : D' k = q.parentJobId.toList)
    (hmet : met = true → ∀ p, q.parentJobId = some p → E p) :
    Covered D' E (db.createJob now server q k met) := by
  have hnoEdge := not_hasEdges_of_absent S hk
  refine C.extends (· = k) (fun e he => by rw [createJob_edges]; exact he) (fun e he => ?_)
    (fun i hi => ?_) (fun i hi => ⟨job_createJob_ne hi, hD i hi⟩) ?_
  · rw [createJob_edges] at he
    refine .inl ⟨he, fun h => ?_⟩
    rw [hasEdges_iff.2 ⟨e, he, h⟩] at hnoEdge
    cases hnoEdge
  · by_cases hik : i = k
    · subst hik
      obtain ⟨j, hj, hs⟩ := completed_iff.1 hi
      obtain ⟨rfl, -⟩ := job_createJob_self hk hj
      exact absurd hs (waiting_ne_completed (by simp only [newJob]; split <;> rfl))
    · exact C.done i (by rwa [completed, job_createJob_ne hik] at hi)
  · rintro i j rfl hj -
    obtain ⟨rfl, -⟩ := job_createJob_self hk hj
    refine ⟨(accounts_all rfl).2 fun d hd => .inr (.inr ⟨?_, ?_⟩), fun hg => ?_⟩
    · rw [hDk, Option.mem_toList] at hd
      exact hd
    · rw [hasEdges, createJob_edges]
      exact hnoEdge
    · have hm : met = true := by simpa [Job.gateOpen, newJob] using hg
      intro d hd
      rw [hDk, Option.mem_toList] at hd
      exact hmet hm d hd

theorem Covered.insertEdge (C : Covered D E db) {d : JobId} (hD : d ∈ D i)
    (hpar : ∀ j q, db.job i = some j → j.parentJobId = some q → q = d) :
    Covered D E (db.insertEdge i d) := by
  unfold Db.insertEdge
  split
  · refine C.extends (· = i) (fun e he => mem_append_left _ he) (fun e he => ?_)
      (fun _ hx => C.done _ hx) (fun _ _ => ⟨rfl, rfl⟩) ?_
    · rcases mem_append.1 he with he | he
      · by_cases hi : e.job = i
        · exact .inr ⟨hi, C.edge e he⟩
        · exact .inl ⟨he, hi⟩
      · obtain rfl := mem_singleton.1 he
        exact .inr ⟨rfl, hD⟩
    · rintro i j rfl hj hno
      have hj : db.job i = some j := hj
      refine ⟨?_, C.gate i j hj hno⟩
      refine (C.accounts i j hj hno).mono rfl (fun _ => id) (fun q _ hw => .inr (.inl ?_))
        fun _ => .inr ?_
      · rw [hasEdge_iff, job_id hj]
        rcases hw with h | ⟨h, -⟩
        · rw [hasEdge_iff, job_id hj] at h
          exact mem_append_left _ h
        · rw [hpar j q hj h]
          exact mem_append_right _ (mem_singleton.2 rfl)
      · rw [hasEdges_iff, job_id hj]
        exact ⟨⟨i, d⟩, mem_append_right _ (mem_singleton.2 rfl), rfl⟩
  · exact C

theorem extends_insertEdge (db : Db) (i d : JobId) : Extends db (db.insertEdge i d) := by
  refine .of_job_eq (fun e he => ?_) fun k j hj => by rw [job_insertEdge]; exact hj
  unfold insertEdge
  split
  · exact mem_append_left _ he
  · exact he

theorem Sound.insertEdge (S : db.Sound) {d : JobId} (ho : ∀ j r, db.job i = some j →
    db.job d = some r → r.organizationId = j.organizationId) : (db.insertEdge i d).Sound := by
  refine S.extends (extends_insertEdge db i d) (fun e he => ?_) fun k j hk hj => ?_
  · simp only [job_insertEdge]
    unfold Db.insertEdge at he
    split at he
    · next hc =>
      rcases mem_append.1 he with he | he
      · exact .inl he
      · obtain rfl := mem_singleton.1 he
        simp only [Bool.and_eq_true, Option.isSome_iff_exists] at hc
        obtain ⟨⟨⟨⟨j, hj⟩, ⟨r, hr⟩⟩, -⟩, -⟩ := hc
        exact .inr ⟨j, r, hj, hr, ho j r hj hr⟩
    · exact .inl he
  · rw [job_insertEdge, hk] at hj
    cases hj

/-! ## `POST /workflows` -/

section Workflow

variable {server : Int} {org : OrgId} {w : WorkflowId} {base : JobId} {defs : List StepDef}

theorem mem_stepEdges {e : Edge} : e ∈ stepEdges base defs ↔
    ∃ d n m, (d, n) ∈ defs.zipIdx ∧ m ∈ d.dependsOn ∧ e = ⟨base + n, base + m⟩ := by
  simp only [stepEdges, mem_flatMap, mem_map, Prod.exists]
  constructor
  · rintro ⟨d, n, hd, m, hm, rfl⟩; exact ⟨d, n, m, hd, hm, rfl⟩
  · rintro ⟨d, n, m, hd, hm, rfl⟩; exact ⟨d, n, hd, m, hm, rfl⟩

theorem mem_stepEdges_of_mem {d : StepDef} {n : Nat} (hd : (d, n) ∈ defs.zipIdx) {x : JobId} :
    ⟨base + n, x⟩ ∈ stepEdges base defs ↔ ∃ m ∈ d.dependsOn, x = base + m := by
  rw [mem_stepEdges]
  constructor
  · rintro ⟨d', n', m, hd', hm, he⟩
    obtain ⟨hn, rfl⟩ := Edge.mk.inj he
    obtain rfl : n = n' := Nat.add_left_cancel hn
    rw [mk_mem_zipIdx_iff_getElem?] at hd hd'
    rw [hd] at hd'
    cases hd'
    exact ⟨m, hm, rfl⟩
  · rintro ⟨m, hm, rfl⟩
    exact ⟨d, n, m, hd, hm, rfl⟩

theorem job_createWorkflow (i : JobId) :
    (db.createWorkflow now server org w base defs).job i = db.job i ∨ db.job i = none ∧
      ∃ d n, (d, n) ∈ defs.zipIdx ∧ base + n = i ∧
        (db.createWorkflow now server org w base defs).job i =
          some (db.stepJob now server org w (base + n) d) := by
  rcases find_foldl_insert (defs.zipIdx.map fun x => db.stepJob now server org w (base + x.2) x.1)
    db.jobs i with h | ⟨hn, j, hj, hid, h⟩
  · exact .inl h
  · obtain ⟨⟨d, n⟩, hd, rfl⟩ := mem_map.1 hj
    exact .inr ⟨hn, d, n, hd, hid, h⟩

theorem isSome_foldl_insert {js : List Job} {t : Table JobId Job Job.id} (hj : j ∈ js) :
    ((js.foldl (fun t j => t.insert j) t).find j.id).isSome = true := by
  induction js generalizing t with
  | nil => cases hj
  | cons x js ih =>
    rw [foldl_cons]
    rcases mem_cons.1 hj with rfl | hj
    · have hins : ((t.insert j).find j.id).isSome = true := by
        rw [Table.find_insert]
        split
        · rfl
        · next hc => exact Option.isSome_iff_ne_none.2 fun hn => hc ⟨rfl, hn⟩
      rcases find_foldl_insert js (t.insert j) j.id with h | ⟨-, y, -, -, h⟩
      · rw [h]; exact hins
      · rw [h]; rfl
    · exact ih hj

theorem job_createWorkflow_step (hfresh : ∀ i, base ≤ i → db.job i = none) {d : StepDef} {n : Nat}
    (hd : (d, n) ∈ defs.zipIdx) : (db.createWorkflow now server org w base defs).job (base + n) =
      some (db.stepJob now server org w (base + n) d) := by
  have hsome : ((db.createWorkflow now server org w base defs).job (base + n)).isSome = true :=
    isSome_foldl_insert (j := db.stepJob now server org w (base + n) d)
      (mem_map.2 ⟨(d, n), hd, rfl⟩)
  rcases job_createWorkflow (base + n) with h | ⟨-, d', n', hd', hn, h⟩
  · rw [h, hfresh _ (Nat.le_add_right _ _)] at hsome
    cases hsome
  · obtain rfl : n' = n := Nat.add_left_cancel hn
    rw [mk_mem_zipIdx_iff_getElem?] at hd hd'
    rw [hd] at hd'
    cases hd'
    exact h

theorem createWorkflow_edges : (db.createWorkflow now server org w base defs).edges =
    db.edges ++ stepEdges base defs := rfl

theorem extends_createWorkflow (db : Db) (now : Time) (server : Int) (org : OrgId) (w : WorkflowId)
    (base : JobId) (defs : List StepDef) :
    Extends db (db.createWorkflow now server org w base defs) := by
  refine .of_job_eq (fun e he => mem_append_left _ he) fun i j hj => ?_
  rcases job_createWorkflow i with h | ⟨hn, -⟩
  · rw [h, hj]
  · rw [hn] at hj; cases hj

theorem Sound.createWorkflow (S : db.Sound) (now : Time) (server : Int)
    (hfresh : ∀ i, base ≤ i → db.job i = none)
    (hvalid : ∀ d ∈ defs, ∀ m ∈ d.dependsOn, m < defs.length) :
    (db.createWorkflow now server org w base defs).Sound := by
  refine S.extends (extends_createWorkflow db now server org w base defs) (fun e he => ?_)
    fun i j hn hj => ?_
  · rcases mem_append.1 he with he | he
    · exact .inl he
    · obtain ⟨d, n, m, hd, hm, rfl⟩ := mem_stepEdges.1 he
      have hlt := hvalid d (fst_mem_of_mem_zipIdx hd) m hm
      have hd' : (defs.get ⟨m, hlt⟩, m) ∈ defs.zipIdx := by
        rw [mk_mem_zipIdx_iff_getElem?]
        simp [hlt]
      exact .inr ⟨_, _, job_createWorkflow_step hfresh hd, job_createWorkflow_step hfresh hd', rfl⟩
  · rcases job_createWorkflow i with h | ⟨-, d, n, -, -, h⟩
    · rw [h, hn] at hj; cases hj
    · rw [h] at hj
      cases hj
      exact ⟨(fun q hq => by cases hq), fun _ => rfl⟩

theorem Covered.createWorkflow (C : Covered D E db) (S : db.Sound) (now : Time) (server : Int)
    (hfresh : ∀ i, base ≤ i → db.job i = none) (hD : ∀ i, i < base → D' i = D i)
    (hDnew : ∀ i x, base ≤ i → (x ∈ D' i ↔ ⟨i, x⟩ ∈ stepEdges base defs)) :
    Covered D' E (db.createWorkflow now server org w base defs) := by
  have hjob : ∀ i, ¬ base ≤ i →
      (db.createWorkflow now server org w base defs).job i = db.job i := by
    refine fun i hi => (job_createWorkflow i).resolve_right ?_
    rintro ⟨-, d, n, -, rfl, -⟩
    exact hi (Nat.le_add_right _ _)
  -- a row with an id in the new range is a step
  have hstep : ∀ i j, base ≤ i → (db.createWorkflow now server org w base defs).job i = some j →
      ∃ d n, (d, n) ∈ defs.zipIdx ∧ base + n = i ∧ j = db.stepJob now server org w (base + n) d := by
    intro i j hi hj
    rcases job_createWorkflow i with h | ⟨-, d, n, hd, hn, h⟩
    · rw [h, hfresh i hi] at hj; cases hj
    · rw [h] at hj; exact ⟨d, n, hd, hn, (Option.some.inj hj).symm⟩
  refine C.extends (base ≤ ·) (fun e he => mem_append_left _ he) (fun e he => ?_)
    (fun i hi => ?_) (fun i hi => ⟨hjob i hi, hD i (not_le.1 hi)⟩) ?_
  · rcases mem_append.1 he with he | he
    · refine .inl ⟨he, fun hle => ?_⟩
      obtain ⟨j, -, hj, -⟩ := S.edge e he
      rw [hfresh _ hle] at hj
      cases hj
    · obtain ⟨d, n, m, hd, hm, rfl⟩ := mem_stepEdges.1 he
      exact .inr ⟨Nat.le_add_right _ _, (hDnew _ _ (Nat.le_add_right _ _)).2 he⟩
  · by_cases hle : base ≤ i
    · obtain ⟨j, hj, hs⟩ := completed_iff.1 hi
      obtain ⟨d, n, -, -, rfl⟩ := hstep i j hle hj
      cases hs
    · exact C.done i (by rwa [completed, hjob i hle] at hi)
  · intro i j hle hj _
    obtain ⟨d, n, hd, rfl, rfl⟩ := hstep i j hle hj
    have hmem : ∀ x, x ∈ D' (base + n) ↔ ∃ m ∈ d.dependsOn, x = base + m := fun x =>
      (hDnew _ x hle).trans (mem_stepEdges_of_mem hd)
    have hedge : ∀ x ∈ D' (base + n),
        ⟨base + n, x⟩ ∈ (db.createWorkflow now server org w base defs).edges := fun x hx =>
      mem_append_right _ ((hDnew _ x hle).1 hx)
    constructor
    · cases hm : d.dependencyMode with
      | all => exact (accounts_all hm).2 fun x hx => .inr (.inl (hasEdge_iff.2 (hedge x hx)))
      | any =>
        rw [accounts_any hm]
        cases hl : D' (base + n) with
        | nil => exact .inl rfl
        | cons x xs =>
          exact .inr (.inr (hasEdges_iff.2 ⟨_, hedge x (by rw [hl]; exact mem_cons_self), rfl⟩))
    · intro hg
      have hempty : d.dependsOn = [] := by simpa [Job.gateOpen, stepJob] using hg
      have hnil : D' (base + n) = [] := by
        rw [eq_nil_iff_forall_not_mem]
        intro x hx
        obtain ⟨m, hm, -⟩ := (hmem x).1 hx
        rw [hempty] at hm
        cases hm
      rw [hnil]
      cases (db.stepJob now server org w (base + n) d).dependencyMode with
      | all => exact fun x hx => by cases hx
      | any => exact .inl rfl

end Workflow

/-! ## `add_dependencies` -/

section AddDependencies

variable {org : OrgId} {ds : List JobId} {mode : Option DependencyMode}

theorem foldl_insertEdge_edges (db : Db) (ds : List JobId) (hi : (db.job i).isSome = true)
    (hds : ∀ d ∈ ds, (db.job d).isSome = true ∧ i ≠ d) :
    ∃ es, (ds.foldl (fun db d => db.insertEdge i d) db).edges = db.edges ++ es ∧
      (∀ e ∈ es, e.job = i ∧ e.dependsOn ∈ ds) ∧
      ∀ d ∈ ds, ⟨i, d⟩ ∈ (ds.foldl (fun db d => db.insertEdge i d) db).edges := by
  induction ds generalizing db with
  | nil => exact ⟨[], by simp⟩
  | cons d ds ih =>
    have hstep : ∃ es, (db.insertEdge i d).edges = db.edges ++ es ∧ (∀ e ∈ es, e = ⟨i, d⟩) ∧
        ⟨i, d⟩ ∈ (db.insertEdge i d).edges := by
      obtain ⟨hd, hne⟩ := hds d mem_cons_self
      unfold Db.insertEdge
      split
      · exact ⟨[⟨i, d⟩], rfl, by simp, by simp⟩
      · next hc =>
        refine ⟨[], (append_nil _).symm, by simp, ?_⟩
        simpa [hi, hd, hne, hasEdge_iff] using hc
    obtain ⟨es, hes, hform, hmem⟩ := hstep
    obtain ⟨es', hes', hform', hmem'⟩ := ih (db.insertEdge i d)
      (by rw [job_insertEdge]; exact hi) fun x hx => by
        rw [job_insertEdge]
        exact hds x (mem_cons_of_mem _ hx)
    refine ⟨es ++ es', ?_, ?_, ?_⟩
    · rw [foldl_cons, hes', hes, append_assoc]
    · intro e he
      rcases mem_append.1 he with he | he
      · rw [hform e he]; exact ⟨rfl, mem_cons_self⟩
      · exact ⟨(hform' e he).1, mem_cons_of_mem _ (hform' e he).2⟩
    · intro x hx
      rw [foldl_cons]
      rcases mem_cons.1 hx with rfl | hx
      · rw [hes']
        exact mem_append_left _ hmem
      · exact hmem' x hx

theorem mayAddDependencies_iff : db.mayAddDependencies org i ds = true ↔
    (∃ j, db.job i = some j ∧ j.organizationId = org) ∧ ∀ d ∈ ds,
      (∃ r, db.job d = some r ∧ r.organizationId = org) ∧ i ≠ d ∧ db.wouldCreateCycle i d = false := by
  simp only [mayAddDependencies, Bool.and_eq_true, Option.any_eq_true, all_eq_true, beq_iff_eq,
    bne_iff_ne, Bool.not_eq_true', and_assoc, ne_comm]

/-- What `add_dependencies` does: nothing, because it is refused or all edges are
there, or it adds edges, sets the mode and recomputes the gate of the job. -/
theorem addDependencies_cases (db : Db) (now : Time) (org : OrgId) (i : JobId) (ds : List JobId)
    (mode : Option DependencyMode) : db.addDependencies now org i ds mode = db ∧
      (db.mayAddDependencies org i ds = true → ∀ d ∈ ds, ⟨i, d⟩ ∈ db.edges) ∨
    db.mayAddDependencies org i ds = true ∧ ∃ es j, es ≠ [] ∧ (∀ e ∈ es, e.job = i ∧ e.dependsOn ∈ ds) ∧
      db.job i = some j ∧ (db.addDependencies now org i ds mode).edges = db.edges ++ es ∧
      (∀ d ∈ ds, ⟨i, d⟩ ∈ (db.addDependencies now org i ds mode).edges) ∧
      (∀ k, k ≠ i → (db.addDependencies now org i ds mode).job k = db.job k) ∧
      (db.addDependencies now org i ds mode).job i = some { j with
        dependencyMode := mode.getD j.dependencyMode
        dependenciesMet := some ((db.addDependencies now org i ds mode).checkJobDependenciesMet i)
        updatedAt := now } := by
  cases hmay : db.mayAddDependencies org i ds with
  | false => exact .inl ⟨by rw [addDependencies, hmay]; rfl, fun h => by cases h⟩
  | true =>
    obtain ⟨⟨j, hj, ho⟩, hds⟩ := mayAddDependencies_iff.1 hmay
    obtain ⟨es, hes, hform, hmem⟩ := foldl_insertEdge_edges db ds (by rw [hj]; rfl) fun d hd => by
      obtain ⟨⟨r, hr, -⟩, hne, -⟩ := hds d hd
      exact ⟨by rw [hr]; rfl, hne⟩
    have hjobs := foldl_insertEdge_jobs i ds db
    set linked := ds.foldl (fun db d => db.insertEdge i d) db with hlinked
    have hjob : ∀ k, linked.job k = db.job k := fun k => by simp only [job, hjobs]
    by_cases hlen : linked.edges.length = db.edges.length
    · left
      have hnil : es = [] := by
        rw [hes, length_append] at hlen
        exact eq_nil_of_length_eq_zero (by omega)
      refine ⟨by rw [addDependencies, hmay]; simp only [if_true, ← hlinked, hlen], fun _ d hd => ?_⟩
      have := hmem d hd
      rwa [hes, hnil, append_nil] at this
    · right
      set mine := fun j : Job => j.id == i && j.organizationId == org with hmine
      set db₁ := linked.setJobs now mine fun j =>
        { j with dependencyMode := mode.getD j.dependencyMode } with hdb₁
      have hres : db.addDependencies now org i ds mode =
          db₁.setJobs now mine fun j =>
            { j with dependenciesMet := some (db₁.checkJobDependenciesMet i) } := by
        rw [addDependencies, hmay]
        simp only [if_true, ← hlinked, hlen, if_false, ← hmine, ← hdb₁]
      rw [hres]
      have hmineI : mine j = true := by simp [hmine, job_id hj, ho]
      have hmineW : mine (j.written now fun j =>
          { j with dependencyMode := mode.getD j.dependencyMode }) = true := hmineI
      have hother : ∀ k, k ≠ i → db₁.job k = db.job k := by
        intro k hk
        rw [hdb₁, job_setJobs, hjob]
        cases hjk : db.job k with
        | none => rfl
        | some x => simp [hmine, job_id hjk, hk]
      have hself : db₁.job i = some (j.written now fun j =>
          { j with dependencyMode := mode.getD j.dependencyMode }) := by
        rw [hdb₁, job_setJobs_some ((hjob i).trans hj), if_pos hmineI]
      refine ⟨rfl, es, j, fun h => hlen (by rw [hes, h, append_nil]), hform, hj, hes, hmem,
        fun k hk => ?_, ?_⟩
      · rw [job_setJobs, hother k hk]
        cases hjk : db.job k with
        | none => rfl
        | some x => simp [hmine, job_id hjk, hk]
      · have hview : ∀ k, (db₁.setJobs now mine fun j =>
            { j with dependenciesMet := some (db₁.checkJobDependenciesMet i) }).checkView k =
            db₁.checkView k := by
          intro k
          simp only [checkView, job_setJobs, Option.map_map]
          congr 1
          funext x
          simp only [Function.comp_apply]
          split <;> rfl
        rw [checkJobDependenciesMet_congr setJobs_edges hview, job_setJobs_some hself, if_pos hmineW]
        rfl

/-- The call does not turn an any-join into an all-join, and does not give a
child edges while its uncompleted parent is not among them. -/
def addSafe (db : Db) (i : JobId) (mode : Option DependencyMode) : Bool :=
  (db.job i).all fun j => !(j.dependencyMode == .any && mode == some .all) &&
    j.parentJobId.all fun q => db.hasEdge i q || db.completed q

theorem extends_addDependencies (db : Db) (now : Time) (org : OrgId) (i : JobId) (ds : List JobId)
    (mode : Option DependencyMode) : Extends db (db.addDependencies now org i ds mode) := by
  rcases addDependencies_cases db now org i ds mode with
    ⟨h, -⟩ | ⟨-, es, j, -, -, hj, hes, -, hother, hself⟩
  · rw [h]
    exact .of_job_eq (fun _ => id) fun _ _ => id
  · refine ⟨fun e he => by rw [hes]; exact mem_append_left _ he, fun k x hx => ?_⟩
    by_cases hk : k = i
    · subst hk
      rw [hj] at hx
      cases hx
      exact ⟨_, hself, rfl, rfl, rfl⟩
    · exact ⟨x, by rw [hother k hk, hx], rfl, rfl, rfl⟩

theorem Sound.addDependencies (S : db.Sound) (now : Time) (org : OrgId) (i : JobId)
    (ds : List JobId) (mode : Option DependencyMode) :
    (db.addDependencies now org i ds mode).Sound := by
  have hext := extends_addDependencies db now org i ds mode
  rcases addDependencies_cases db now org i ds mode with
    ⟨h, -⟩ | ⟨hmay, es, j, -, hform, hj, hes, -, hother, hself⟩
  · rw [h]; exact S
  · obtain ⟨⟨j₀, hj₀, ho⟩, hds⟩ := mayAddDependencies_iff.1 hmay
    refine S.extends hext (fun e he => ?_) fun k x hk hx => ?_
    · rw [hes] at he
      rcases mem_append.1 he with he | he
      · exact .inl he
      · obtain ⟨rfl, hd⟩ := hform e he
        obtain ⟨⟨r, hr, hor⟩, -⟩ := hds _ hd
        obtain ⟨j', hj', hoj, -⟩ := hext.row _ _ hj₀
        obtain ⟨r', hr', hor', -⟩ := hext.row _ _ hr
        exact .inr ⟨j', r', hj', hr', by rw [hor', hor, hoj, ho]⟩
    · have hki : k ≠ i := by rintro rfl; rw [hj] at hk; cases hk
      rw [hother k hki, hk] at hx
      cases hx

theorem Covered.addDependencies (C : Covered D E db) (S : db.Sound) (now : Time) (org : OrgId)
    {ds : List JobId} {mode : Option DependencyMode} (hs : db.addSafe i mode = true)
    (hD : ∀ k, k ≠ i → D' k = D k)
    (hDi : D' i = if db.mayAddDependencies org i ds then ds ++ D i else D i) :
    Covered D' E (db.addDependencies now org i ds mode) := by
  have S' := S.addDependencies now org i ds mode
  rcases addDependencies_cases db now org i ds mode with
    ⟨h, hold⟩ | ⟨hmay, es, j, hne, hform, hj, hes, hmem, hother, hself⟩
  · -- nothing new is declared
    rw [h]
    have hset : ∀ k d, d ∈ D' k ↔ d ∈ D k := by
      intro k d
      by_cases hk : k = i
      · subst hk
        rw [hDi]
        split
        · next hmay => exact mem_append.trans ⟨fun h =>
            h.elim (fun h => C.edge _ (hold hmay d h)) id, .inr⟩
        · rfl
      · rw [hD k hk]
    have hnil : ∀ k, D' k = [] ↔ D k = [] := by
      simp only [eq_nil_iff_forall_not_mem, hset, implies_true]
    refine ⟨fun e he => (hset _ _).2 (C.edge e he), C.done, fun k x hx hno hg => ?_,
      fun k x hx hno => ?_⟩
    · have := C.gate k x hx hno hg
      cases hm : x.dependencyMode <;> rw [hm] at this <;>
        simpa only [DependencyMode.Cleared, hset, hnil] using this
    · have := C.accounts k x hx hno
      simpa only [Accounts, hset, hnil] using this
  · rw [hmay, if_pos rfl] at hDi
    set db' := db.addDependencies now org i ds mode with hdb'
    obtain ⟨e₀, he₀⟩ := exists_mem_of_ne_nil es hne
    have hedges : db'.hasEdges i = true :=
      hasEdges_iff.2 ⟨e₀, by rw [hes]; exact mem_append_right _ he₀, (hform e₀ he₀).1⟩
    have hedge : ∀ e ∈ db'.edges, e.dependsOn ∈ D' e.job := by
      intro e he
      rw [hes] at he
      by_cases hi : e.job = i
      · rw [hi, hDi]
        rcases mem_append.1 he with he | he
        · exact mem_append_right _ (hi ▸ C.edge e he)
        · exact mem_append_left _ (hform e he).2
      · rw [hD _ hi]
        rcases mem_append.1 he with he | he
        · exact C.edge e he
        · exact absurd (hform e he).1 hi
    have hdone : ∀ k, db'.completed k = true → E k := by
      intro k hk
      refine C.done k ?_
      by_cases hki : k = i
      · subst hki
        rw [completed_of_job hself] at hk
        exact (completed_of_job hj).2 hk
      · rwa [completed, hother k hki] at hk
    refine C.extends (· = i) (fun e he => by rw [hes]; exact mem_append_left _ he)
      (fun e he => ?_) hdone (fun k hk => ⟨hother k hk, hD k hk⟩) ?_
    · by_cases hi : e.job = i
      · exact .inr ⟨hi, hedge e he⟩
      · rw [hes] at he
        rcases mem_append.1 he with he | he
        · exact .inl ⟨he, hi⟩
        · exact absurd (hform e he).1 hi
    · rintro k j' rfl hj' hno
      rw [hself] at hj'
      obtain rfl := Option.some.inj hj'
      have hid : j.id = k := job_id hj
      -- the new dependencies have their edges, the old ones keep what they had
      have hacc : db'.Accounts (D' k) E { j with
          dependencyMode := mode.getD j.dependencyMode
          dependenciesMet := some (db'.checkJobDependenciesMet k)
          updatedAt := now } := by
        simp only [addSafe, hj, Option.all_some, Bool.and_eq_true, Bool.not_eq_true'] at hs
        cases hm : mode.getD j.dependencyMode with
        | any => exact (accounts_any rfl).2 (.inr (.inr (by rw [← hid] at hedges; exact hedges)))
        | all =>
          have hall : j.dependencyMode = .all := by
            cases mode with
            | none => exact hm
            | some m =>
              obtain rfl : m = .all := hm
              cases hjm : j.dependencyMode with
              | all => rfl
              | any => simp [hjm] at hs
          have hold := (accounts_all hall).1 (C.accounts k j hj hno)
          refine (accounts_all rfl).2 fun d hd => ?_
          have hnew : ⟨k, d⟩ ∈ db'.edges → db'.Awaits { j with
              dependencyMode := .all
              dependenciesMet := some (db'.checkJobDependenciesMet k)
              updatedAt := now } d := fun h => .inl (hasEdge_iff.2 (by
            rw [show Job.id _ = k from hid]
            exact h))
          rw [hDi] at hd
          rcases mem_append.1 hd with hd | hd
          · exact .inr (hnew (hmem d hd))
          · rcases hold d hd with h | h | ⟨hpar, hno'⟩
            · exact .inl h
            · rw [hid, hasEdge_iff] at h
              exact .inr (hnew (by rw [hes]; exact mem_append_left _ h))
            · have := hs.2
              rw [hpar, Option.all_some, Bool.or_eq_true] at this
              rcases this with h | h
              · rw [hid, hasEdges_of_hasEdge h] at hno'
                cases hno'
              · exact .inl (C.done d h)
      refine ⟨hacc, fun hg => ?_⟩
      refine cleared_of_justified S' hedge hdone hself hacc ⟨?_, .inr (.inl ?_)⟩
      · rw [show Job.id _ = k from hid]
        simpa [Job.gateOpen] using hg
      · rw [show Job.id _ = k from hid]
        exact hedges

end AddDependencies

end Db

end Spooled
