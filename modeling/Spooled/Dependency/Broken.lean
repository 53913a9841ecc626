import Spooled.Dependency.Safety

/-!
# Failed dependencies and what they take along

The cancel predicates of the dependency sweep and the conditions of
`reopen_cancelled_dependents`, read as statements about which jobs are broken
over edges and parent links that neither a sweep nor a retry changes. More
broken jobs make more jobs fail, fewer make more jobs ready. A cascade
(dead-lettering and sweeps) only breaks more jobs, so that every job it
cancelled keeps a reason.
-/

namespace Spooled

open Relation

/-- The fields of a row that neither a sweep nor a retry assigns. -/
structure Job.SameLinks (j j' : Job) : Prop extends Job.SameJob j j' where
  parentJobId : j'.parentJobId = j.parentJobId
  dependencyMode : j'.dependencyMode = j.dependencyMode

theorem Job.SameLinks.refl (j : Job) : j.SameLinks j := ⟨⟨rfl, rfl, rfl, rfl⟩, rfl, rfl⟩

theorem Job.SameLinks.symm {j j' : Job} (h : j.SameLinks j') : j'.SameLinks j :=
  ⟨⟨h.id.symm, h.organizationId.symm, h.queueName.symm, h.workflowId.symm⟩,
    h.parentJobId.symm, h.dependencyMode.symm⟩

theorem Job.SameLinks.trans {j j' j'' : Job} (h : j.SameLinks j') (h' : j'.SameLinks j'') :
    j.SameLinks j'' :=
  ⟨⟨h'.id.trans h.id, h'.organizationId.trans h.organizationId, h'.queueName.trans h.queueName,
    h'.workflowId.trans h.workflowId⟩, h'.parentJobId.trans h.parentJobId,
    h'.dependencyMode.trans h.dependencyMode⟩

theorem Job.SameLinks.written {now : Time} {f : Job → Job} {j : Job} (h : j.SameLinks (f j)) :
    j.SameLinks (j.written now f) :=
  ⟨⟨rfl, h.organizationId, h.queueName, h.workflowId⟩, h.parentJobId, h.dependencyMode⟩

namespace Db

variable {db db' db'' : Db} {now : Time} {i : JobId} {j j' : Job} {p : Job → Bool} {f : Job → Job}

/-- `i` waits for `d`, by an edge or as its child. -/
def DependsOn (db : Db) (i d : JobId) : Prop :=
  db.hasEdge i d = true ∨ ∃ j, db.job i = some j ∧ j.parentJobId = some d

/-- The job failed, was dead-lettered or was cancelled. -/
def brokenAt (db : Db) (i : JobId) : Bool := (db.job i).any (·.status.broken)

/-- A cancel predicate of the sweep holds, apart from status and gate. -/
def fails (db : Db) (j : Job) : Bool := db.parentFails j || db.edgesFail j

theorem brokenAt_of_job (hj : db.job i = some j) : db.brokenAt i = j.status.broken := by
  simp [brokenAt, hj]

/-! ## The cancel predicates by links -/

theorem mem_deps_edge {d : Job} :
    d ∈ db.deps i ↔ db.hasEdge i d.id = true ∧ db.job d.id = some d := by
  rw [mem_deps]
  constructor
  · rintro ⟨e, he, rfl, hd⟩
    rw [job_id hd]
    exact ⟨hasEdge_iff.2 he, hd⟩
  · rintro ⟨he, hd⟩
    exact ⟨_, hasEdge_iff.1 he, rfl, hd⟩

theorem hasEdges_iff_exists : db.hasEdges i = true ↔ ∃ d, db.hasEdge i d = true := by
  rw [hasEdges_iff]
  constructor
  · rintro ⟨e, he, rfl⟩; exact ⟨e.dependsOn, hasEdge_iff.2 he⟩
  · rintro ⟨d, hd⟩; exact ⟨_, hasEdge_iff.1 hd, rfl⟩

theorem Sound.dep (S : db.Sound) (hj : db.job i = some j) {d : JobId} (he : db.hasEdge i d = true) :
    ∃ x, db.job d = some x ∧ x ∈ db.deps i ∧ x.organizationId = j.organizationId := by
  obtain ⟨j₀, x, hj₀, hx, ho⟩ := S.edge _ (hasEdge_iff.1 he)
  obtain rfl : j = j₀ := Option.some.inj (hj.symm.trans hj₀)
  exact ⟨x, hx, mem_deps_edge.2 ⟨by rw [job_id hx]; exact he, by rw [job_id hx]; exact hx⟩, ho⟩

theorem Sound.org_of_dependsOn (S : db.Sound) {d : JobId} {x : Job} (h : db.DependsOn i d)
    (hj : db.job i = some j) (hx : db.job d = some x) : x.organizationId = j.organizationId := by
  rcases h with he | ⟨j₀, hj₀, hq⟩
  · obtain ⟨y, hy, -, ho⟩ := S.dep hj he
    rw [Option.some.inj (hx.symm.trans hy)]
    exact ho
  · obtain rfl : j = j₀ := Option.some.inj (hj.symm.trans hj₀)
    obtain ⟨y, hy, ho⟩ := S.parent i j d hj hq
    rw [Option.some.inj (hx.symm.trans hy)]
    exact ho

theorem Sound.org_of_transGen (S : db.Sound) {d : JobId} {x : Job} (h : TransGen db.DependsOn i d)
    (hj : db.job i = some j) (hx : db.job d = some x) : x.organizationId = j.organizationId := by
  induction h generalizing x with
  | single h => exact S.org_of_dependsOn h hj hx
  | tail _ h ih =>
    obtain ⟨y, hy⟩ : ∃ y, db.job _ = some y := by
      rcases h with he | ⟨y, hy, -⟩
      · obtain ⟨y, -, hy, -⟩ := S.edge _ (hasEdge_iff.1 he)
        exact ⟨y, hy⟩
      · exact ⟨y, hy⟩
    rw [S.org_of_dependsOn h hy hx, ih hy]

theorem Sound.liveAlternative_iff (S : db.Sound) (hj : db.job i = some j) {gone : JobId → Bool} :
    db.liveAlternative gone j = true ↔
      ∃ d, db.hasEdge i d = true ∧ gone d = false ∧ db.brokenAt d = false := by
  simp only [liveAlternative, List.any_eq_true, Bool.and_eq_true, Bool.not_eq_true', beq_iff_eq,
    job_id hj]
  constructor
  · rintro ⟨d, hd, ⟨hg, -⟩, hb⟩
    obtain ⟨he, hd⟩ := mem_deps_edge.1 hd
    exact ⟨d.id, he, hg, by rw [brokenAt_of_job hd]; exact hb⟩
  · rintro ⟨d, he, hg, hb⟩
    obtain ⟨x, hx, hmem, ho⟩ := S.dep hj he
    exact ⟨x, hmem, ⟨by rw [job_id hx]; exact hg, ho⟩, by rw [← brokenAt_of_job hx]; exact hb⟩

/-- The parent failed and, in mode `any`, so did every other dependency. -/
theorem Sound.parentFails_iff (S : db.Sound) (hj : db.job i = some j) :
    db.parentFails j = true ↔ ∃ q, j.parentJobId = some q ∧ db.brokenAt q = true ∧
      (j.dependencyMode = .any → ∀ d, db.hasEdge i d = true → d ≠ q → db.brokenAt d = true) := by
  cases hq : j.parentJobId with
  | none => simp [parentFails, parentIs, hq]
  | some q =>
    obtain ⟨r, hr, ho⟩ := S.parent i j q hj hq
    simp only [parentFails, parentIs, hq, Option.bind_some, hr, Option.any_some, ho, beq_self_eq_true,
      Bool.true_and, Bool.and_eq_true, Bool.or_eq_true, bne_iff_ne, Bool.not_eq_true',
      brokenAt_of_job hr, Option.some.injEq, exists_eq_left']
    refine and_congr_right fun _ => ?_
    rw [← Bool.not_eq_true, S.liveAlternative_iff hj]
    simp only [beq_eq_false_iff_ne, ne_eq, Option.some.injEq, not_exists, not_and,
      Bool.not_eq_false, ← imp_iff_not_or]
    exact ⟨fun h hm d he hd => h hm d he (Ne.symm hd), fun h hm d he hd => h hm d he (Ne.symm hd)⟩

/-- Mode `any`: every dependency failed. Mode `all`: one did. -/
theorem Sound.edgesFail_iff (S : db.Sound) (hj : db.job i = some j) :
    db.edgesFail j = true ↔ db.hasEdges i = true ∧
      (j.dependencyMode = .any → ∀ d, db.hasEdge i d = true → db.brokenAt d = true) ∧
      (j.dependencyMode = .all → ∃ d, db.hasEdge i d = true ∧ db.brokenAt d = true) := by
  simp only [edgesFail, job_id hj, Bool.and_eq_true]
  refine and_congr_right fun _ => ?_
  cases hm : j.dependencyMode with
  | any =>
    rw [if_pos (by rfl), Bool.not_eq_true', ← Bool.not_eq_true, S.liveAlternative_iff hj]
    constructor
    · intro h
      refine ⟨fun _ d he => ?_, fun h => by cases h⟩
      by_contra hb
      exact h ⟨d, he, rfl, Bool.eq_false_iff.2 hb⟩
    · rintro ⟨h, -⟩ ⟨d, he, -, hb⟩
      rw [h rfl d he] at hb
      cases hb
  | all =>
    rw [if_neg (by simp), List.any_eq_true]
    constructor
    · rintro ⟨d, hd, h⟩
      obtain ⟨he, hd⟩ := mem_deps_edge.1 hd
      rw [Bool.and_eq_true] at h
      exact ⟨fun h => (by cases h), fun _ => ⟨d.id, he, by rw [brokenAt_of_job hd]; exact h.2⟩⟩
    · rintro ⟨-, h⟩
      obtain ⟨d, he, hb⟩ := h rfl
      obtain ⟨x, hx, hmem, ho⟩ := S.dep hj he
      rw [brokenAt_of_job hx] at hb
      exact ⟨x, hmem, by simp [ho, hb]⟩

/-- Nothing broken holds the row back, as `reopen_cancelled_dependents` reads it: unlike the
sweep it wants the parent unbroken in mode `any` too. -/
structure Ready (db : Db) (j : Job) : Prop where
  parent : ∀ q, j.parentJobId = some q → db.brokenAt q = false
  any : j.dependencyMode = .any → ∃ d, db.hasEdge j.id d = true ∧ db.brokenAt d = false
  all : j.dependencyMode = .all → ∀ d, db.hasEdge j.id d = true → db.brokenAt d = false

theorem Ready.not_fails (h : db.Ready j) (S : db.Sound) (hj : db.job i = some j) :
    db.fails j = false := by
  rw [fails, Bool.or_eq_false_iff]
  constructor
  · rw [← Bool.not_eq_true, S.parentFails_iff hj]
    rintro ⟨q, hq, hb, -⟩
    rw [h.parent q hq] at hb
    cases hb
  · rw [← Bool.not_eq_true, S.edgesFail_iff hj]
    rintro ⟨-, hany, hall⟩
    cases hm : j.dependencyMode with
    | any =>
      obtain ⟨d, he, hb⟩ := h.any hm
      rw [job_id hj] at he
      rw [hany hm d he] at hb
      cases hb
    | all =>
      obtain ⟨d, he, hb⟩ := hall hm
      rw [h.all hm d (by rw [job_id hj]; exact he)] at hb
      cases hb

/-- The converse, with what mode `any` asks for in addition. -/
theorem ready_of_not_fails (S : db.Sound) (hj : db.job i = some j) (h : db.fails j = false)
    (hany : j.dependencyMode = .any →
      db.hasEdges i = true ∧ ∀ q, j.parentJobId = some q → db.brokenAt q = false) : db.Ready j := by
  rw [fails, Bool.or_eq_false_iff, ← Bool.not_eq_true, ← Bool.not_eq_true, S.parentFails_iff hj,
    S.edgesFail_iff hj] at h
  obtain ⟨hp, he⟩ := h
  refine ⟨fun q hq => ?_, fun hm => ?_, fun hm d hd => ?_⟩
  · cases hm : j.dependencyMode with
    | any => exact (hany hm).2 q hq
    | all =>
      by_contra hb
      exact hp ⟨q, hq, Bool.not_eq_false _ |>.mp hb, fun h => by rw [hm] at h; cases h⟩
  · by_contra hno
    refine he ⟨(hany hm).1, fun _ d hd => ?_, fun h => by rw [hm] at h; cases h⟩
    by_contra hb
    exact hno ⟨d, by rw [job_id hj]; exact hd, Bool.eq_false_iff.2 hb⟩
  · rw [job_id hj] at hd
    by_contra hb
    exact he ⟨hasEdges_iff_exists.2 ⟨d, hd⟩, fun h => by (rw [hm] at h; cases h),
      fun _ => ⟨d, hd, Bool.not_eq_false _ |>.mp hb⟩⟩

theorem Sound.reopens_iff (S : db.Sound) (hj : db.job i = some j) {org : OrgId}
    {frontier : List JobId} : db.reopens org frontier j = true ↔
      j.organizationId = org ∧ sweptAway j = true ∧ (∃ d ∈ frontier, db.DependsOn i d) ∧
        db.workflowIs .cancelled j = false ∧ db.Ready j := by
  have hlink : (j.parentJobId.any (· ∈ frontier) ||
      db.edges.any fun e => e.job == j.id && decide (e.dependsOn ∈ frontier)) = true ↔
      ∃ d ∈ frontier, db.DependsOn i d := by
    simp only [Bool.or_eq_true, Option.any_eq_true, decide_eq_true_eq, List.any_eq_true,
      Bool.and_eq_true, beq_iff_eq, DependsOn, hj, job_id hj, hasEdge_iff]
    constructor
    · rintro (⟨q, hq, hf⟩ | ⟨⟨a, b⟩, he, rfl, hf⟩)
      · exact ⟨q, hf, .inr ⟨j, rfl, hq⟩⟩
      · exact ⟨b, hf, .inl he⟩
    · rintro ⟨d, hf, he | ⟨j₀, hj₀, hq⟩⟩
      · exact .inr ⟨_, he, rfl, hf⟩
      · exact .inl ⟨d, by rw [Option.some.inj hj₀]; exact hq, hf⟩
  have hparent : (!(j.parentJobId.bind db.job).any (·.status.broken)) = true ↔
      ∀ q, j.parentJobId = some q → db.brokenAt q = false := by
    cases hq : j.parentJobId with
    | none => simp
    | some q => simp [brokenAt]
  have hmode : (if j.dependencyMode == .any then (db.deps j.id).any fun d => !d.status.broken
      else !(db.deps j.id).any (·.status.broken)) = true ↔
      (j.dependencyMode = .any → ∃ d, db.hasEdge j.id d = true ∧ db.brokenAt d = false) ∧
      (j.dependencyMode = .all → ∀ d, db.hasEdge j.id d = true → db.brokenAt d = false) := by
    rw [job_id hj]
    cases hm : j.dependencyMode with
    | any =>
      simp only [beq_self_eq_true, if_true, List.any_eq_true, Bool.not_eq_true', true_implies,
        reduceCtorEq, false_implies, and_true]
      constructor
      · rintro ⟨d, hd, hb⟩
        obtain ⟨he, hd⟩ := mem_deps_edge.1 hd
        exact ⟨d.id, he, by rw [brokenAt_of_job hd]; exact hb⟩
      · rintro ⟨d, he, hb⟩
        obtain ⟨x, hx, hmem, -⟩ := S.dep hj he
        exact ⟨x, hmem, by rw [← brokenAt_of_job hx]; exact hb⟩
    | all =>
      simp only [reduceCtorEq, false_implies, true_implies, true_and, beq_iff_eq, if_false,
        Bool.not_eq_true', List.any_eq_false, Bool.not_eq_true]
      constructor
      · intro h d he
        obtain ⟨x, hx, hmem, -⟩ := S.dep hj he
        rw [brokenAt_of_job hx]
        exact h x hmem
      · intro h d hd
        obtain ⟨he, hd⟩ := mem_deps_edge.1 hd
        rw [← brokenAt_of_job hd]
        exact h d.id he
  unfold reopens
  simp only [Bool.and_eq_true]
  rw [hmode, hparent, hlink, beq_iff_eq, Bool.not_eq_true']
  constructor
  · rintro ⟨⟨⟨⟨⟨ho, hs⟩, hl⟩, hw⟩, hp⟩, hany, hall⟩
    exact ⟨ho, hs, hl, hw, hp, hany, hall⟩
  · rintro ⟨ho, hs, hl, hw, hr⟩
    exact ⟨⟨⟨⟨⟨ho, hs⟩, hl⟩, hw⟩, hr.parent⟩, hr.any, hr.all⟩

/-! ## The graph stays -/

/-- The same jobs with the same links, in whatever states. -/
structure SameGraph (db db' : Db) : Prop where
  edges : db'.edges = db.edges
  row : ∀ i, Option.Rel Job.SameLinks (db.job i) (db'.job i)

namespace SameGraph

theorem refl (db : Db) : SameGraph db db where
  edges := rfl
  row i := by
    cases db.job i with
    | none => exact .none
    | some j => exact .some (.refl j)

theorem trans {db'' : Db} (h : SameGraph db db') (h' : SameGraph db' db'') :
    SameGraph db db'' where
  edges := h'.edges.trans h.edges
  row i := by
    have h₁ := h.row i
    have h₂ := h'.row i
    generalize db.job i = a at h₁ ⊢
    generalize db'.job i = b at h₁ h₂
    generalize db''.job i = c at h₂ ⊢
    cases h₁ with
    | none => cases h₂; exact .none
    | some hl => cases h₂ with | some hl' => exact .some (hl.trans hl')

theorem of_rows (he : db'.edges = db.edges)
    (hrow : ∀ i, db'.job i = (db.job i).map fun j => if p j then j.written now f else j)
    (hf : ∀ j, p j = true → j.SameLinks (f j)) : SameGraph db db' where
  edges := he
  row i := by
    rw [hrow]
    cases db.job i with
    | none => exact .none
    | some j =>
      refine .some ?_
      dsimp only
      split
      · next hp => exact (hf j hp).written
      · exact .refl j

theorem symm (h : SameGraph db db') : SameGraph db' db where
  edges := h.edges.symm
  row i := by
    have hr := h.row i
    generalize db.job i = a at hr ⊢
    generalize db'.job i = b at hr ⊢
    cases hr with
    | none => exact .none
    | some hl => exact .some hl.symm

theorem job (h : SameGraph db db') (hj : db.job i = some j) :
    ∃ j', db'.job i = some j' ∧ j.SameLinks j' := by
  have hr := h.row i
  rw [hj] at hr
  generalize db'.job i = b at hr
  cases hr with | some hl => exact ⟨_, rfl, hl⟩

theorem sameLinks (h : SameGraph db db') (hj : db.job i = some j) (hj' : db'.job i = some j') :
    j.SameLinks j' := by
  obtain ⟨x, hx, hl⟩ := h.job hj
  rw [Option.some.inj (hj'.symm.trans hx)]
  exact hl

theorem hasEdge (h : SameGraph db db') (i d : JobId) : db'.hasEdge i d = db.hasEdge i d := by
  simp only [Db.hasEdge, h.edges]

theorem dependsOn (h : SameGraph db db') {i d : JobId} (hd : db.DependsOn i d) :
    db'.DependsOn i d := by
  rcases hd with he | ⟨j, hj, hq⟩
  · exact .inl (by rw [h.hasEdge]; exact he)
  · obtain ⟨j', hj', hl⟩ := h.job hj
    exact .inr ⟨j', hj', hl.parentJobId.trans hq⟩

theorem sound (h : SameGraph db db') (S : db.Sound) : db'.Sound where
  edge e he := by
    rw [h.edges] at he
    obtain ⟨j, d, hj, hd, ho⟩ := S.edge e he
    obtain ⟨j', hj', hl⟩ := h.job hj
    obtain ⟨d', hd', hl'⟩ := h.job hd
    exact ⟨j', d', hj', hd', by rw [hl'.organizationId, hl.organizationId, ho]⟩
  parent i j' q hj' hq := by
    obtain ⟨j, hj, hl⟩ := h.symm.job hj'
    obtain ⟨r, hr, ho⟩ := S.parent i j q hj (hl.parentJobId.trans hq)
    obtain ⟨r', hr', hl'⟩ := h.job hr
    exact ⟨r', hr', by rw [hl'.organizationId, ho, hl.organizationId]⟩
  workflow i j' hj' hw := by
    obtain ⟨j, hj, hl⟩ := h.symm.job hj'
    rw [← hl.parentJobId]
    exact S.workflow i j hj (by rw [hl.workflowId]; exact hw)

theorem fails_mono (h : SameGraph db db') (S : db.Sound)
    (hb : ∀ d, db.brokenAt d = true → db'.brokenAt d = true) (hj : db.job i = some j)
    (hj' : db'.job i = some j') (hf : db.fails j = true) : db'.fails j' = true := by
  have S' := h.sound S
  have hl := h.sameLinks hj hj'
  rw [fails, Bool.or_eq_true] at hf ⊢
  rcases hf with hf | hf
  · obtain ⟨q, hq, hbq, hany⟩ := (S.parentFails_iff hj).1 hf
    refine .inl ((S'.parentFails_iff hj').2 ⟨q, hl.parentJobId.trans hq, hb q hbq, ?_⟩)
    intro hm d he hne
    rw [h.hasEdge] at he
    exact hb d (hany (hl.dependencyMode.symm.trans hm) d he hne)
  · obtain ⟨hedges, hany, hall⟩ := (S.edgesFail_iff hj).1 hf
    refine .inr ((S'.edgesFail_iff hj').2 ⟨?_, fun hm d he => ?_, fun hm => ?_⟩)
    · rw [hasEdges, h.edges]; exact hedges
    · rw [h.hasEdge] at he
      exact hb d (hany (hl.dependencyMode.symm.trans hm) d he)
    · obtain ⟨d, he, hd⟩ := hall (hl.dependencyMode.symm.trans hm)
      exact ⟨d, by rw [h.hasEdge]; exact he, hb d hd⟩

theorem ready (h : SameGraph db db') (hb : ∀ d, db'.brokenAt d = true → db.brokenAt d = true)
    (hl : j.SameLinks j') (hr : db.Ready j) : db'.Ready j' := by
  have hb' : ∀ d, db.brokenAt d = false → db'.brokenAt d = false := by
    intro d hd
    by_contra hne
    rw [hb d (Bool.not_eq_false _ |>.mp hne)] at hd
    cases hd
  refine ⟨fun q hq => hb' q (hr.parent q (hl.parentJobId.symm.trans hq)), fun hm => ?_,
    fun hm d he => ?_⟩
  · obtain ⟨d, he, hd⟩ := hr.any (hl.dependencyMode.symm.trans hm)
    exact ⟨d, by rw [h.hasEdge, hl.id]; exact he, hb' d hd⟩
  · rw [h.hasEdge, hl.id] at he
    exact hb' d (hr.all (hl.dependencyMode.symm.trans hm) d he)

theorem ready_of_links (h : SameGraph db db') (hj : db.job i = some j)
    (hb : ∀ d, db.DependsOn i d → db'.brokenAt d = db.brokenAt d) (hr : db'.Ready j) :
    db.Ready j := by
  have he : ∀ d, db'.hasEdge j.id d = true → db.DependsOn i d := fun d he =>
    .inl (by rw [← h.hasEdge, ← job_id hj]; exact he)
  refine ⟨fun q hq => ?_, fun hm => ?_, fun hm d hd => ?_⟩
  · rw [← hb q (.inr ⟨j, hj, hq⟩)]
    exact hr.parent q hq
  · obtain ⟨d, hd, hbd⟩ := hr.any hm
    exact ⟨d, by rw [← h.hasEdge]; exact hd, by rw [← hb d (he d hd)]; exact hbd⟩
  · rw [← h.hasEdge] at hd
    rw [← hb d (he d hd)]
    exact hr.all hm d hd

end SameGraph

/-! ## The cascade -/

def Fallen (db : Db) : Prop :=
  ∀ i j, db.job i = some j → sweptAway j = true → db.fails j = true

/-- The same graph with more broken jobs, and only hopeless ones newly cancelled for it. -/
structure Worsens (db db' : Db) : Prop extends SameGraph db db' where
  broken : ∀ d, db.brokenAt d = true → db'.brokenAt d = true
  swept : ∀ i j j', db.job i = some j → db'.job i = some j' → sweptAway j' = true →
    sweptAway j = true ∨ db.fails j = true

theorem Worsens.fallen (h : Worsens db db') (S : db.Sound) (F : db.Fallen) : db'.Fallen := by
  intro i j' hj' hs
  obtain ⟨j, hj, -⟩ := h.symm.job hj'
  refine h.fails_mono S h.broken hj hj' ?_
  rcases h.swept i j j' hj hj' hs with hs | hf
  · exact F i j hj hs
  · exact hf

theorem worsens_of_rows (he : db'.edges = db.edges)
    (hrow : ∀ i, db'.job i = (db.job i).map fun j => if p j then j.written now f else j)
    (hf : ∀ j, p j = true → j.SameLinks (f j) ∧
      (j.status.broken = true → (f j).status.broken = true) ∧
      (sweptAway (f j) = true → sweptAway j = true ∨ db.fails j = true)) : Worsens db db' where
  toSameGraph := .of_rows he hrow fun j hp => (hf j hp).1
  broken d hd := by
    obtain ⟨j, hj, hb⟩ := (Option.any_eq_true _ _).1 hd
    rw [brokenAt, hrow, hj, Option.map_some, Option.any_some]
    split
    · next hp => exact (hf j hp).2.1 hb
    · exact hb
  swept i j j' hj hj' hs := by
    rw [hrow, hj, Option.map_some, Option.some.injEq] at hj'
    split at hj'
    · next hp =>
      subst hj'
      exact (hf j hp).2.2 hs
    · rw [hj']; exact .inl hs

theorem worsens_setStatus (hs : ∀ j, p j = true → (f j).status ≠ .completed)
    (hf : ∀ j, p j = true → j.SameLinks (f j) ∧
      (j.status.broken = true → (f j).status.broken = true) ∧
      (sweptAway (f j) = true → sweptAway j = true ∨ db.fails j = true)) :
    Worsens db (db.setStatus now p f) :=
  worsens_of_rows setStatus_edges (job_setStatus fun j _ => hs j) hf

theorem worsens_regate {m : Job → Option Bool} :
    Worsens db (db.setJobs now p fun j => { j with dependenciesMet := m j }) :=
  worsens_of_rows rfl job_setJobs fun _ _ => ⟨⟨⟨rfl, rfl, rfl, rfl⟩, rfl, rfl⟩, id, .inl⟩

theorem worsens_of_eq (hj : db'.jobs = db.jobs) (he : db'.edges = db.edges) : Worsens db db' := by
  have hjob : ∀ i, db'.job i = db.job i := fun i => by rw [job, hj]; rfl
  have hrow : ∀ i, db'.job i =
      (db.job i).map fun j => if (fun _ : Job => false) j then j.written 0 id else j := by
    intro i
    rw [hjob]
    cases db.job i <;> rfl
  exact worsens_of_rows he hrow fun _ hp => by cases hp

theorem worsens_cancelWhere {reason : String}
    (hp : ∀ j, p j = true → db.fails j = true) : Worsens db (db.cancelWhere now reason p) :=
  worsens_setStatus (by simp) fun j hj => ⟨⟨⟨rfl, rfl, rfl, rfl⟩, rfl, rfl⟩, fun _ => rfl,
    fun _ => .inr (hp j hj)⟩

theorem worsens_deadletterWhere {error : String} :
    Worsens db (db.deadletterWhere now error p) := by
  have h₁ : Worsens db (db.setStatus now p (deadletterRow error)) :=
    worsens_setStatus (by simp) fun j _ => ⟨⟨⟨rfl, rfl, rfl, rfl⟩, rfl, rfl⟩, fun _ => rfl,
      fun h => by cases h⟩
  exact ⟨⟨h₁.edges, h₁.row⟩, h₁.broken, h₁.swept⟩

end Db

/-- The dead-lettering of jobs and the statements of the dependency sweep. -/
def Stmt.cascades : Stmt → Bool
  | .failWrite .. | .failGrpc .. | .deadLetterOversized .. => true
  | .deadletterExpiredLeases | .deadletterOfflineWorkers => true
  | .recomputeCompletedParents | .cancelParentFailed | .cancelDependencyFailed => true
  | .unblockOrphans | .startWorkflows | .terminateWorkflows => true
  | _ => false

def Cascade (cfg : Config) (db db' : Db) : Prop :=
  ∃ (now : Time) (c : Stmt), c.cascades = true ∧ db' = c.exec cfg now db

theorem Cascade.step {cfg : Config} {db db' : Db} (h : Cascade cfg db db') (S : db.Sound)
    (F : db.Fallen) : db'.Sound ∧ db'.Fallen := by
  obtain ⟨now, c, hc, rfl⟩ := h
  have keep : ∀ {db db' : Db}, db.Worsens db' → db.Sound ∧ db.Fallen → db'.Sound ∧ db'.Fallen :=
    fun hw h => ⟨hw.sound h.1, hw.fallen h.1 h.2⟩
  cases c with
  | failWrite q read error jitter =>
    refine keep ?_ ⟨S, F⟩
    show db.Worsens (db.failWrite now q read error jitter)
    unfold Db.failWrite
    split
    · refine Db.worsens_setStatus (by simp) fun j hj => ⟨⟨⟨rfl, rfl, rfl, rfl⟩, rfl, rfl⟩, ?_, ?_⟩
      · rw [Db.heldBy_processing hj]; exact fun h => by cases h
      · exact fun h => by cases h
    · exact Db.worsens_deadletterWhere
  | failGrpc q retry error =>
    have h₁ : db.Worsens (db.setStatus now (·.heldBy now q) fun j =>
        if Db.grpcDeadletters retry j then Db.deadletterRow error j
        else Db.rescheduleRow error (j.retryCount + 1)
          (now + secs (Db.backoffSecs j.retryCount)) j) := by
      refine Db.worsens_setStatus (fun j _ => by split <;> simp) fun j hj => ?_
      split
      · exact ⟨⟨⟨rfl, rfl, rfl, rfl⟩, rfl, rfl⟩, fun _ => rfl, fun h => by cases h⟩
      · refine ⟨⟨⟨rfl, rfl, rfl, rfl⟩, rfl, rfl⟩, ?_, fun h => by cases h⟩
        rw [Db.heldBy_processing hj]; exact fun h => by cases h
    have h₂ := keep h₁ ⟨S, F⟩
    generalize hd : db.setStatus now _ _ = d at h₂
    have h₃ : d.Worsens (db.failGrpc now q retry error) := by
      subst hd
      exact Db.worsens_of_eq rfl rfl
    exact keep h₃ h₂
  | deadLetterOversized i org lease reason =>
    have h₁ : db.Worsens (db.setJobs now (Db.claimedUnder i org lease) fun j =>
        { j with leaseExpiresAt := some now }) :=
      Db.worsens_of_rows rfl Db.job_setJobs fun j _ => ⟨⟨⟨rfl, rfl, rfl, rfl⟩, rfl, rfl⟩, id, .inl⟩
    exact keep Db.worsens_deadletterWhere (keep h₁ ⟨S, F⟩)
  | deadletterExpiredLeases | deadletterOfflineWorkers =>
    exact keep Db.worsens_deadletterWhere ⟨S, F⟩
  | recomputeCompletedParents | unblockOrphans => exact keep Db.worsens_regate ⟨S, F⟩
  | cancelParentFailed =>
    refine keep (Db.worsens_cancelWhere fun j hj => ?_) ⟨S, F⟩
    simp only [Db.parentDooms, Bool.and_eq_true] at hj
    simp [Db.fails, hj.2]
  | cancelDependencyFailed =>
    refine keep (Db.worsens_cancelWhere fun j hj => ?_) ⟨S, F⟩
    simp only [Db.edgesDoom, Bool.and_eq_true] at hj
    simp [Db.fails, hj.2]
  | startWorkflows =>
    have h : db.Worsens (db.startWorkflows now) := Db.worsens_of_eq rfl rfl
    exact keep h ⟨S, F⟩
  | terminateWorkflows =>
    have h : db.Worsens (db.terminateWorkflows now) := Db.worsens_of_eq rfl rfl
    exact keep h ⟨S, F⟩
  | _ => cases hc

theorem Cascade.run {cfg : Config} {db db' : Db} (h : ReflTransGen (Cascade cfg) db db')
    (S : db.Sound) (F : db.Fallen) : db'.Sound ∧ db'.Fallen := by
  induction h with
  | refl => exact ⟨S, F⟩
  | tail _ h ih => exact h.step ih.1 ih.2

end Spooled
