import Spooled.Dependency.Gate

/-!
# What an open gate stands for

The gate is computed from the edges that still exist, the promise made to the
client is about all dependencies ever declared. `Covered D E db` connects the
two: with `D i` the dependencies declared for job `i` and `E` the jobs that
ever completed, every job that can still run accounts for each of its declared
dependencies, and an open gate means that enough of them completed. Statements
that only reopen gates with reason keep it, deletes keep it if no row that may
run again loses a dependency unnoticed.
-/

namespace Spooled

/-! ## Declared dependencies -/

/-- A job of this mode may run, `ds` being its dependencies and `E` those that completed. -/
def DependencyMode.Cleared (ds : List JobId) (E : JobId → Prop) : DependencyMode → Prop
  | .all => ∀ d ∈ ds, E d
  | .any => ds = [] ∨ ∃ d ∈ ds, E d

theorem DependencyMode.Cleared.mono {ds : List JobId} {E E' : JobId → Prop} {m : DependencyMode}
    (hE : ∀ d, E d → E' d) (h : m.Cleared ds E) : m.Cleared ds E' := by
  cases m with
  | all => exact fun d hd => hE d (h d hd)
  | any => exact h.imp_right fun ⟨d, hd, he⟩ => ⟨d, hd, hE d he⟩

namespace Db

/-- The tables still make `j` wait for `d`: by an edge, or by the parent link
of a job that has no edge. -/
def Awaits (db : Db) (j : Job) (d : JobId) : Prop :=
  db.hasEdge j.id d = true ∨ j.parentJobId = some d ∧ db.hasEdges j.id = false

/-- What `j` was declared to wait for has completed or is still awaited. -/
def Accounts (db : Db) (ds : List JobId) (E : JobId → Prop) (j : Job) : Prop :=
  match j.dependencyMode with
  | .all => ∀ d ∈ ds, E d ∨ db.Awaits j d
  | .any => ds = [] ∨ (∃ d ∈ ds, E d) ∨ db.hasEdges j.id = true

structure Covered (D : JobId → List JobId) (E : JobId → Prop) (db : Db) : Prop where
  edge : ∀ e ∈ db.edges, e.dependsOn ∈ D e.job
  done : ∀ i, db.completed i = true → E i
  gate : ∀ i j, db.job i = some j → j.closed = false → j.gateOpen = true →
    j.dependencyMode.Cleared (D i) E
  accounts : ∀ i j, db.job i = some j → j.closed = false → db.Accounts (D i) E j

variable {D D' : JobId → List JobId} {E E' : JobId → Prop} {db db' : Db} {now : Time} {i : JobId}
  {j j' : Job} {p : Job → Bool}

theorem accounts_all {ds : List JobId} (hm : j.dependencyMode = .all) :
    db.Accounts ds E j ↔ ∀ d ∈ ds, E d ∨ db.Awaits j d := by
  simp only [Accounts, hm]

theorem accounts_any {ds : List JobId} (hm : j.dependencyMode = .any) :
    db.Accounts ds E j ↔ ds = [] ∨ (∃ d ∈ ds, E d) ∨ db.hasEdges j.id = true := by
  simp only [Accounts, hm]

theorem Accounts.mono {ds : List JobId} (hm : j'.dependencyMode = j.dependencyMode)
    (hE : ∀ d, E d → E' d) (hw : ∀ d ∈ ds, db.Awaits j d → E' d ∨ db'.Awaits j' d)
    (he : db.hasEdges j.id = true → (∃ d ∈ ds, E' d) ∨ db'.hasEdges j'.id = true)
    (h : db.Accounts ds E j) : db'.Accounts ds E' j' := by
  cases hmode : j.dependencyMode with
  | all =>
    rw [accounts_all hmode] at h
    rw [accounts_all (hm.trans hmode)]
    intro d hd
    rcases h d hd with h | h
    · exact .inl (hE d h)
    · exact hw d hd h
  | any =>
    rw [accounts_any hmode] at h
    rw [accounts_any (hm.trans hmode)]
    rcases h with h | ⟨d, hd, h⟩ | h
    · exact .inl h
    · exact .inr (.inl ⟨d, hd, hE d h⟩)
    · exact .inr (he h)

/-- **A justified gate is an honest one.** -/
theorem cleared_of_justified (S : db.Sound) (hedge : ∀ e ∈ db.edges, e.dependsOn ∈ D e.job)
    (hdone : ∀ x, db.completed x = true → E x) (hj : db.job i = some j)
    (ha : db.Accounts (D i) E j) (hJ : db.Justified j) : j.dependencyMode.Cleared (D i) E := by
  have hid := job_id hj
  obtain ⟨hcheck, hwhy⟩ := hJ
  rw [hid] at hcheck hwhy
  -- an edge joins existing rows
  have hdep : ∀ d, ⟨i, d⟩ ∈ db.edges → ∃ r ∈ db.deps i, db.job d = some r := by
    intro d he
    obtain ⟨-, r, -, hr, -⟩ := S.edge _ he
    exact ⟨r, mem_deps.2 ⟨_, he, rfl, hr⟩, hr⟩
  cases hm : j.dependencyMode with
  | all =>
    rw [check_all hj hm] at hcheck
    rw [accounts_all hm] at ha
    intro d hd
    rcases ha d hd with h | h | ⟨hpar, hno⟩
    · exact h
    · rw [hid] at h
      obtain ⟨r, hr, hrow⟩ := hdep d (hasEdge_iff.1 h)
      exact hdone d ((completed_of_job hrow).2 (hcheck r hr))
    · rcases hwhy with h | h | h
      · rw [hm] at h; cases h
      · rw [hid, h] at hno; cases hno
      · obtain ⟨r, hr, -⟩ := S.parent i j d hj hpar
        exact hdone d ((completed_of_job hr).2 (h d r hpar hr))
  | any =>
    rw [check_any hj hm] at hcheck
    rw [accounts_any hm] at ha
    rcases ha with h | h | h
    · exact .inl h
    · exact .inr h
    · right
      rw [hid] at h
      obtain ⟨e, he, rfl⟩ := hasEdges_iff.1 h
      rcases hcheck with hnil | ⟨r, hr, hs⟩
      · obtain ⟨r, hr, -⟩ := hdep e.dependsOn he
        rw [hnil] at hr
        cases hr
      · obtain ⟨e', he', hej, hrow⟩ := mem_deps.1 hr
        exact ⟨e'.dependsOn, hej ▸ hedge e' he', hdone _ ((completed_of_job hrow).2 hs)⟩

/-! ## Statements that keep rows and edges -/

theorem Sound.gated (S : db.Sound) (g : Gated db db')
    (hs : ∀ i j j', db.job i = some j → db'.job i = some j' → j.SameJob j') : db'.Sound where
  edge e he := by
    rw [g.edges] at he
    obtain ⟨j, d, hj, hd, ho⟩ := S.edge e he
    obtain ⟨j', hj', -⟩ := g.job' hj
    obtain ⟨d', hd', -⟩ := g.job' hd
    refine ⟨j', d', hj', hd', ?_⟩
    rw [(hs _ _ _ hj hj').organizationId, (hs _ _ _ hd hd').organizationId, ho]
  parent i j' q hj' hq := by
    obtain ⟨j, hj, hr⟩ := g.job hj'
    rw [hr.parent] at hq
    obtain ⟨r, hrow, ho⟩ := S.parent i j q hj hq
    obtain ⟨r', hr', -⟩ := g.job' hrow
    exact ⟨r', hr', by
      rw [(hs _ _ _ hrow hr').organizationId, (hs _ _ _ hj hj').organizationId, ho]⟩
  workflow i j' hj' hw := by
    obtain ⟨j, hj, hr⟩ := g.job hj'
    rw [hr.parent]
    exact S.workflow i j hj (by rw [← (hs _ _ _ hj hj').workflowId]; exact hw)

theorem Covered.gated (C : Covered D E db) (S' : db'.Sound) (g : Gated db db')
    (hE : ∀ d, E d → E' d) (hdone : ∀ i, db'.completed i = true → E' i)
    (hcl : ∀ i j j', db.job i = some j → db'.job i = some j' → j.closed = true → j'.closed = true) :
    Covered D E' db' := by
  have hedge : ∀ e ∈ db'.edges, e.dependsOn ∈ D e.job := fun e he => C.edge e (g.edges ▸ he)
  have hopen : ∀ {i j j'}, db.job i = some j → db'.job i = some j' → j'.closed = false →
      j.closed = false := fun hj hj' h =>
    Bool.eq_false_iff.2 fun hc => by rw [hcl _ _ _ hj hj' hc] at h; cases h
  have hacc : ∀ i j', db'.job i = some j' → j'.closed = false → db'.Accounts (D i) E' j' := by
    intro i j' hj' hno
    obtain ⟨j, hj, hr⟩ := g.job hj'
    refine (C.accounts i j hj (hopen hj hj' hno)).mono hr.mode hE (fun d _ hw => .inr ?_)
      fun he => .inr ?_
    · simpa only [Awaits, hasEdge, hasEdges, g.edges, hr.id, hr.parent] using hw
    · simpa only [hasEdges, g.edges, hr.id] using he
  refine ⟨hedge, hdone, fun i j' hj' hno hgate => ?_, hacc⟩
  obtain ⟨j, hj, hr⟩ := g.job hj'
  rcases hr.gate with hg | hg | ⟨-, hJ⟩
  · rw [hr.mode]
    refine (C.gate i j hj (hopen hj hj' hno) ?_).mono hE
    rwa [Job.gateOpen, hg] at hgate
  · rw [Job.gateOpen, hg] at hgate
    cases hgate
  · exact cleared_of_justified S' hedge hdone hj' (hacc i j' hj' hno) hJ

/-! ## Deletes -/

theorem not_mem_dependencyCancelReasons {l : List Char} {e : String} (hl : l <:+ e.toList)
    (h : ∀ r ∈ dependencyCancelReasons, ¬ l <:+ r.toList) : e ∉ dependencyCancelReasons :=
  fun he => h e he hl

theorem deletedReason_not_mem (d : JobId) : deletedReason d ∉ dependencyCancelReasons :=
  not_mem_dependencyCancelReasons ⟨_, String.toList_append.symm⟩ (by decide)

theorem dependencyExpiredReason_not_mem (d : JobId) :
    dependencyExpiredReason d ∉ dependencyCancelReasons :=
  not_mem_dependencyCancelReasons ⟨_, String.toList_append.symm⟩ (by decide)

theorem closed_cancelRow {e : Option String} (h : ∀ r, e = some r → r ∉ dependencyCancelReasons) :
    (cancelRow now e j).closed = true := by
  refine Job.closed_iff.2 (.inr ⟨rfl, ?_⟩)
  cases e with
  | none => rfl
  | some r => simp [sweptAway, cancelRow, h r rfl]

/-- `j` waits, by an edge or as a child, for a row that `p` deletes before it completed. -/
def loses (db : Db) (p : Job → Bool) (j : Job) : Bool :=
  (db.deps j.id ++ (j.parentJobId.bind db.job).toList).any fun d => p d && d.status != .completed

/-- `j` bears the loss: the delete trigger looks at it, its gate is open, it
runs no more, or it is an any-join with another dependency. -/
def bears (db : Db) (p : Job → Bool) (j : Job) : Bool :=
  j.status.waiting || j.dependenciesMet == some true || j.closed ||
    (j.dependencyMode == .any && (db.deps j.id).any fun d => !p d)

/-- Every row that stays and loses a dependency bears it. -/
def deleteSafe (db : Db) (p : Job → Bool) : Bool :=
  db.jobs.rows.all fun j => p j || !db.loses p j || db.bears p j

/-- A row after a delete is the row before, less its deleted parent, or it was
waiting and is cancelled. It is kept waiting behind a closed gate only if it
is an any-join with a dependency that stays. -/
theorem job_deleteJobs (h : (db.deleteJobs now p).job i = some j') : ∃ j t, db.job i = some j ∧
    p j = false ∧
    let par := j.parentJobId.filter fun d => !db.deleted p d
    (j' = reparent par t j ∧ ∀ r, db.job r.id = some r → p r = true →
        (j.parentJobId = some r.id ∨ db.hasEdge i r.id = true) →
        r.organizationId = j.organizationId → r.status ≠ .completed → j.status.waiting = true →
        j.gateNotTrue = true → j.dependencyMode = .any ∧ ∃ d ∈ db.deps i, p d = false) ∨
    (∃ r, j' = reparent par t (cancelRow now (some (deletedReason r)) j)) ∧
      j.status.waiting = true := by
  cases hj : db.job i with
  | none => rw [job_deleteJobs_absent hj] at h; cases h
  | some j =>
    cases hp : p j with
    | true => rw [job_deleteJobs_deleted hj hp] at h; cases h
    | false =>
      have hid := job_id hj
      have hpar : (j.parentJobId.filter fun d => decide (d ∉ (db.jobs.rows.filter p).map Job.id)) =
          j.parentJobId.filter fun d => !db.deleted p d := by
        congr 1
        funext d
        simp only [mem_ids_iff_deleted, Bool.not_eq_true, Bool.decide_eq_false]
      obtain ⟨t, ⟨hj', hk⟩ | ⟨old, -, hb, hj'⟩⟩ :=
        (deleting_deleteJobs db now p).row i j (job_withoutRows_kept hj hp)
      · rw [h, hpar] at hj'
        refine ⟨j, t, rfl, hp, .inl ⟨Option.some.inj hj', fun r hr hpr hlink ho hs hw hg => ?_⟩⟩
        have hblocked : (db.withoutRows p).blockedOn r j = true := by
          simp only [blockedOn, Bool.and_eq_true, Bool.or_eq_true, beq_iff_eq, bne_iff_ne]
          exact ⟨⟨⟨⟨by rw [hid]; exact hlink, ho.symm⟩, hw⟩, hg⟩, hs⟩
        obtain ⟨hm, hl⟩ := hk r (List.mem_filter.2 ⟨job_mem hr, hpr⟩) hblocked
        obtain ⟨d, hd, -⟩ := List.any_eq_true.1 hl
        obtain ⟨e, he, hej, hd⟩ := mem_deps.1 hd
        rw [job_withoutRows] at hd
        obtain ⟨hd, hpd⟩ := Option.filter_eq_some_iff.1 hd
        exact ⟨hm, d, mem_deps.2 ⟨e, he, hej.trans hid, hd⟩, by simpa using hpd⟩
      · rw [h, hpar] at hj'
        simp only [blockedOn, Bool.and_eq_true] at hb
        exact ⟨j, t, rfl, hp, .inr ⟨⟨_, Option.some.inj hj'⟩, hb.1.1.2⟩⟩

theorem deleted_of_job {d : JobId} {r : Job} (hr : db.job d = some r) : db.deleted p d = p r := by
  rw [deleted, hr]; rfl

theorem mem_deleteJobs_edges {e : Edge} : e ∈ (db.deleteJobs now p).edges ↔
    e ∈ db.edges ∧ db.deleted p e.job = false ∧ db.deleted p e.dependsOn = false := by
  simp [deleteJobs_edges]

theorem Sound.deleteJobs (S : db.Sound) (now : Time) (p : Job → Bool) : (db.deleteJobs now p).Sound := by
  have hkept : ∀ {i j}, db.job i = some j → p j = false → ∃ j',
      (db.deleteJobs now p).job i = some j' ∧ j'.organizationId = j.organizationId := by
    intro i j hj hp
    obtain ⟨t, ⟨h, -⟩ | ⟨old, -, -, h⟩⟩ :=
      (deleting_deleteJobs db now p).row i j (job_withoutRows_kept hj hp)
    · exact ⟨_, h, rfl⟩
    · exact ⟨_, h, rfl⟩
  refine ⟨fun e he => ?_, fun i j' q hj' hq => ?_, fun i j' hj' hw => ?_⟩
  · obtain ⟨he, hej, hed⟩ := mem_deleteJobs_edges.1 he
    obtain ⟨j, d, hj, hd, ho⟩ := S.edge e he
    rw [deleted_of_job hj] at hej
    rw [deleted_of_job hd] at hed
    obtain ⟨j', hj', hoj⟩ := hkept hj hej
    obtain ⟨d', hd', hod⟩ := hkept hd hed
    exact ⟨j', d', hj', hd', by rw [hoj, hod, ho]⟩
  · obtain ⟨j, t, hj, -, h⟩ := job_deleteJobs hj'
    have hpar : (j.parentJobId.filter fun d => !db.deleted p d) = some q ∧
        j'.organizationId = j.organizationId := by
      rcases h with ⟨rfl, -⟩ | ⟨⟨r, rfl⟩, -⟩ <;> exact ⟨hq, rfl⟩
    obtain ⟨hq, hdel⟩ := Option.filter_eq_some_iff.1 hpar.1
    obtain ⟨r, hr, ho⟩ := S.parent i j q hj hq
    rw [deleted_of_job hr] at hdel
    obtain ⟨r', hr', hor⟩ := hkept hr (by simpa using hdel)
    exact ⟨r', hr', by rw [hor, ho, hpar.2]⟩
  · obtain ⟨j, t, hj, -, h⟩ := job_deleteJobs hj'
    have hpar : j'.parentJobId = j.parentJobId.filter (fun d => !db.deleted p d) ∧
        j'.workflowId = j.workflowId := by
      rcases h with ⟨rfl, -⟩ | ⟨⟨r, rfl⟩, -⟩ <;> exact ⟨rfl, rfl⟩
    rw [hpar.1, S.workflow i j hj (by rw [← hpar.2]; exact hw)]
    rfl

/-- A job that runs again and loses `d` has what it needs, or keeps another dependency. -/
theorem Covered.bears_loss (C : Covered D E db) (S : db.Sound) (hs : db.deleteSafe p = true)
    (hj : db.job i = some j) (hp : p j = false) (hno : j.closed = false) {r : Job}
    (hr : db.job r.id = some r) (hpr : p r = true)
    (hlink : j.parentJobId = some r.id ∨ db.hasEdge i r.id = true) (hc : r.status ≠ .completed)
    (hk : r.organizationId = j.organizationId → j.status.waiting = true → j.gateNotTrue = true →
      j.dependencyMode = .any ∧ ∃ d ∈ db.deps i, p d = false) :
    j.dependencyMode.Cleared (D i) E ∨ j.dependencyMode = .any ∧ ∃ d ∈ db.deps i, p d = false := by
  have hid := job_id hj
  have hloses : db.loses p j = true := by
    refine List.any_eq_true.2 ⟨r, List.mem_append.2 ?_, by simp [hpr, hc]⟩
    rcases hlink with h | h
    · exact .inr (by simp [h, hr])
    · exact .inl (mem_deps.2 ⟨_, hasEdge_iff.1 h, hid.symm, hr⟩)
  have ho : r.organizationId = j.organizationId := by
    rcases hlink with h | h
    · obtain ⟨r', hr', ho⟩ := S.parent i j _ hj h
      rw [hr] at hr'; cases hr'
      exact ho
    · obtain ⟨j', r', hj', hr', ho⟩ := S.edge _ (hasEdge_iff.1 h)
      rw [hj] at hj'; rw [hr] at hr'
      cases hj'; cases hr'
      exact ho
  have hopen : j.gateNotTrue = false → j.dependencyMode.Cleared (D i) E := fun hg =>
    C.gate i j hj hno (by simp_all [Job.gateNotTrue, Job.gateOpen])
  have hb := List.all_eq_true.1 hs j (job_mem hj)
  simp only [hp, hloses, Bool.false_or, Bool.not_true, bears, hno, Bool.or_false, Bool.or_eq_true,
    Bool.and_eq_true, beq_iff_eq, List.any_eq_true, Bool.not_eq_true', hid] at hb
  rcases hb with (hw | hg) | hb
  · cases hg : j.gateNotTrue with
    | false => exact .inl (hopen hg)
    | true => exact .inr (hk ho hw hg)
  · exact .inl (hopen (by simp [Job.gateNotTrue, hg]))
  · exact .inr hb

theorem Covered.deleteJobs (C : Covered D E db) (S : db.Sound) (now : Time)
    (hs : db.deleteSafe p = true) : Covered D E (db.deleteJobs now p) := by
  -- the rows that can still run are those before the delete, less a deleted parent
  have hrow : ∀ {i j'}, (db.deleteJobs now p).job i = some j' → j'.closed = false → ∃ j t,
      db.job i = some j ∧ p j = false ∧ j.closed = false ∧
      j' = reparent (j.parentJobId.filter fun d => !db.deleted p d) t j ∧
      ∀ r, db.job r.id = some r → p r = true →
        (j.parentJobId = some r.id ∨ db.hasEdge i r.id = true) → r.status ≠ .completed →
        j.dependencyMode.Cleared (D i) E ∨
          j.dependencyMode = .any ∧ ∃ d ∈ db.deps i, p d = false := by
    intro i j' hj' hno
    obtain ⟨j, t, hj, hp, ⟨rfl, hk⟩ | ⟨⟨r, rfl⟩, -⟩⟩ := job_deleteJobs hj'
    · refine ⟨j, t, hj, hp, hno, rfl, fun r hr hpr hlink hc => ?_⟩
      exact C.bears_loss S hs hj hp hno hr hpr hlink hc fun ho hw hg => hk r hr hpr hlink ho hc hw hg
    · have hcl : (cancelRow now (some (deletedReason r)) j).closed = true :=
        closed_cancelRow (by rintro _ ⟨⟩; exact deletedReason_not_mem r)
      rw [show (reparent _ t (cancelRow now (some (deletedReason r)) j)).closed = _ from hcl] at hno
      cases hno
  refine ⟨fun e he => C.edge e (mem_deleteJobs_edges.1 he).1, fun i hi => ?_, ?_, ?_⟩
  · obtain ⟨j', hj', hc⟩ := completed_iff.1 hi
    obtain ⟨j, t, hj, -, ⟨rfl, -⟩ | ⟨⟨r, rfl⟩, -⟩⟩ := job_deleteJobs hj'
    · exact C.done i (completed_iff.2 ⟨j, hj, hc⟩)
    · cases hc
  · intro i j' hj' hno hg
    obtain ⟨j, t, hj, -, hno, rfl, -⟩ := hrow hj' hno
    exact C.gate i j hj hno hg
  · intro i j' hj' hno
    obtain ⟨j, t, hj, hp, hno, rfl, hloss⟩ := hrow hj' hno
    have hid := job_id hj
    have hdj : db.deleted p i = false := by rw [deleted_of_job hj]; exact hp
    -- edges to rows that stay, stay
    have hkeep : ∀ d r, db.job d = some r → p r = false → ⟨i, d⟩ ∈ db.edges →
        ⟨i, d⟩ ∈ (db.deleteJobs now p).edges := fun d r hr hpr he =>
      mem_deleteJobs_edges.2 ⟨he, hdj, by rw [deleted_of_job hr]; exact hpr⟩
    have hother : (∃ d ∈ db.deps i, p d = false) → (db.deleteJobs now p).hasEdges i = true := by
      rintro ⟨d, hd, hpd⟩
      obtain ⟨e, he, rfl, hr⟩ := mem_deps.1 hd
      exact hasEdges_iff.2 ⟨e, hkeep _ d hr hpd he, rfl⟩
    -- a lost dependency is made up for
    have hlost : ∀ r, db.job r.id = some r → p r = true →
        (j.parentJobId = some r.id ∨ db.hasEdge i r.id = true) → r.id ∈ D i →
        E r.id ∨ j.dependencyMode = .any ∧
          (D i = [] ∨ (∃ d ∈ D i, E d) ∨ (db.deleteJobs now p).hasEdges i = true) := by
      intro r hr hpr hlink hD
      by_cases hc : r.status = .completed
      · exact .inl (C.done _ ((completed_of_job hr).2 hc))
      · rcases hloss r hr hpr hlink hc with h | ⟨hm, h⟩
        · cases hm : j.dependencyMode with
          | all => rw [hm] at h; exact .inl (h _ hD)
          | any =>
            rw [hm] at h
            exact .inr ⟨rfl, h.imp_right .inl⟩
        · exact .inr ⟨hm, .inr (.inr (hother h))⟩
    have hacc := C.accounts i j hj hno
    cases hm : j.dependencyMode with
    | all =>
      rw [accounts_all hm] at hacc
      refine (accounts_all (show (reparent _ t j).dependencyMode = .all from hm)).2 fun d hd => ?_
      rcases hacc d hd with h | h | ⟨hpar, hne⟩
      · exact .inl h
      · rw [hid] at h
        obtain ⟨-, r, -, hr, -⟩ := S.edge _ (hasEdge_iff.1 h)
        obtain rfl : r.id = d := job_id hr
        cases hpr : p r with
        | false =>
          refine .inr (.inl (hasEdge_iff.2 ?_))
          rw [show (reparent _ t j).id = i from hid]
          exact hkeep _ r hr hpr (hasEdge_iff.1 h)
        | true =>
          rcases hlost r hr hpr (.inr h) hd with h | ⟨hm', -⟩
          · exact .inl h
          · rw [hm] at hm'; cases hm'
      · obtain ⟨r, hr, -⟩ := S.parent i j d hj hpar
        obtain rfl : r.id = d := job_id hr
        cases hpr : p r with
        | false =>
          refine .inr (.inr ⟨?_, ?_⟩)
          · simp [reparent, hpar, Option.filter_some, deleted_of_job hr, hpr]
          · rw [Bool.eq_false_iff]
            intro he
            obtain ⟨e, he, hej⟩ := hasEdges_iff.1 he
            have := hasEdges_iff.2 ⟨e, (mem_deleteJobs_edges.1 he).1, hej⟩
            rw [show (reparent _ t j).id = j.id from rfl, hne] at this
            cases this
        | true =>
          rcases hlost r hr hpr (.inl hpar) hd with h | ⟨hm', -⟩
          · exact .inl h
          · rw [hm] at hm'; cases hm'
    | any =>
      rw [accounts_any hm] at hacc
      rw [accounts_any (show (reparent _ t j).dependencyMode = .any from hm),
        show (reparent _ t j).id = i from hid]
      rcases hacc with h | h | h
      · exact .inl h
      · exact .inr (.inl h)
      · rw [hid] at h
        obtain ⟨e, he, rfl⟩ := hasEdges_iff.1 h
        obtain ⟨-, r, -, hr, -⟩ := S.edge e he
        cases hpr : p r with
        | false => exact .inr (.inr (hasEdges_iff.2 ⟨e, hkeep _ r hr hpr he, rfl⟩))
        | true =>
          have hrid := job_id hr
          have hD := C.edge e he
          have hedge := hasEdge_iff.2 (show ⟨e.job, e.dependsOn⟩ ∈ db.edges from he)
          rw [← hrid] at hr hD hedge
          rcases hlost r hr hpr (.inr hedge) hD with h | ⟨-, h⟩
          · exact .inr (.inl ⟨_, hD, h⟩)
          · exact h

/-! ## The expiry sweep -/

/-- The row is kept as it is, or it was waiting and is cancelled for good. -/
inductive Withdrawn (now : Time) (j : Job) : Job → Prop
  | kept : Withdrawn now j j
  | cancelled (e : Option String) : j.status.waiting = true →
      (∀ r, e = some r → r ∉ dependencyCancelReasons) →
      Withdrawn now j (j.written now (cancelRow now e))

theorem Withdrawn.trans {j₁ j₂ j₃ : Job} (h : Withdrawn now j₁ j₂) (h' : Withdrawn now j₂ j₃) :
    Withdrawn now j₁ j₃ := by
  cases h with
  | kept => exact h'
  | cancelled e hw he =>
    cases h' with
    | kept => exact .cancelled e hw he
    | cancelled _ hw' => cases hw'

theorem Withdrawn.sameJob (h : Withdrawn now j j') : j.SameJob j' := by
  cases h <;> exact ⟨rfl, rfl, rfl, rfl⟩

theorem Withdrawn.closed (h : Withdrawn now j j') (hc : j.closed = true) : j'.closed = true := by
  cases h with
  | kept => exact hc
  | cancelled e hw => rw [Job.not_closed_of_waiting hw] at hc; cases hc

theorem Withdrawn.completed_iff (h : Withdrawn now j j') :
    j'.status = .completed ↔ j.status = .completed := by
  cases h with
  | kept => rfl
  | cancelled e hw => simp [waiting_ne_completed hw]

/-- Rows are kept or withdrawn, edges are untouched. -/
structure Withdraws (now : Time) (db db' : Db) : Prop where
  edges : db'.edges = db.edges
  row : ∀ i, Option.Rel (Withdrawn now) (db.job i) (db'.job i)

theorem Withdraws.job (h : Withdraws now db db') (hj' : db'.job i = some j') :
    ∃ j, db.job i = some j ∧ Withdrawn now j j' := by
  have hr := h.row i
  rw [hj'] at hr
  generalize ho : db.job i = o at hr
  cases hr with | some hr => exact ⟨_, rfl, hr⟩

theorem Withdraws.job' (h : Withdraws now db db') (hj : db.job i = some j) :
    ∃ j', db'.job i = some j' ∧ Withdrawn now j j' := by
  have hr := h.row i
  rw [hj] at hr
  generalize ho : db'.job i = o at hr
  cases hr with | some hr => exact ⟨_, rfl, hr⟩

theorem withdraws_setStatus {f : Job → Job} {e : Job → Option String}
    (hf : ∀ j, f j = cancelRow now (e j) j) (hw : ∀ j, p j = true → j.status.waiting = true)
    (he : ∀ j r, e j = some r → r ∉ dependencyCancelReasons) :
    Withdraws now db (db.setStatus now p f) := by
  refine ⟨setStatus_edges, fun i => ?_⟩
  rw [job_setStatus fun j _ _ => by simp [hf]]
  cases db.job i with
  | none => exact .none
  | some j =>
    refine .some ?_
    dsimp only
    split
    · next hp =>
      rw [show j.written now f = j.written now (cancelRow now (e j)) by simp only [Job.written, hf]]
      exact .cancelled (e j) (hw j hp) (he j)
    · exact .kept

theorem Withdraws.trans {db'' : Db} (h : Withdraws now db db') (h' : Withdraws now db' db'') :
    Withdraws now db db'' := by
  refine ⟨h'.edges.trans h.edges, fun i => ?_⟩
  have h₁ := h.row i
  have h₂ := h'.row i
  generalize db.job i = a, db'.job i = b, db''.job i = c at h₁ h₂
  cases h₁ with
  | none => cases h₂; exact .none
  | some h₁ => cases h₂ with | some h₂ => exact .some (h₁.trans h₂)

theorem Withdraws.completed (h : Withdraws now db db') (i : JobId) :
    db'.completed i = db.completed i := by
  have hr := h.row i
  simp only [Db.completed]
  generalize db.job i = a, db'.job i = b at hr
  cases hr with
  | none => rfl
  | some hr =>
    rw [Option.any_some, Option.any_some, Bool.eq_iff_iff, beq_iff_eq, beq_iff_eq]
    exact hr.completed_iff

theorem Withdraws.gated (h : Withdraws now db db') : Gated db db' := by
  refine ⟨h.edges, fun i hi => by rw [h.completed]; exact hi, fun i => ?_⟩
  have hr := h.row i
  generalize db.job i = a, db'.job i = b at hr
  cases hr with
  | none => exact .none
  | some hr => cases hr <;> exact .some ⟨rfl, rfl, rfl, .inl rfl⟩

theorem Withdraws.deleteSafe (h : Withdraws now db db') {g : JobId → Bool}
    (hs : db.deleteSafe (fun j => g j.id) = true) : db'.deleteSafe (fun j => g j.id) = true := by
  rw [Db.deleteSafe, List.all_eq_true] at hs ⊢
  intro j' hm
  obtain ⟨j, hj, hw⟩ := h.job (job_of_mem hm)
  have hid := hw.sameJob.id
  have hj₀ := hs j (job_mem hj)
  simp only [Bool.or_eq_true, Bool.not_eq_true', hid] at hj₀ ⊢
  have hpar : j'.parentJobId = j.parentJobId := by cases hw <;> rfl
  rcases hj₀ with (hg | hno) | hb
  · exact .inl (.inl hg)
  · left; right
    rw [Bool.eq_false_iff] at hno ⊢
    intro hl
    obtain ⟨d', hd', hcond⟩ := List.any_eq_true.1 hl
    -- a dependency row after the cancels stands for one before
    have hback : ∃ d ∈ db.deps j.id ++ (j.parentJobId.bind db.job).toList, Withdrawn now d d' := by
      rcases List.mem_append.1 hd' with hd' | hd'
      · obtain ⟨e, he, hej, hd'⟩ := mem_deps.1 hd'
        obtain ⟨d, hd, hwd⟩ := h.job hd'
        exact ⟨d, List.mem_append_left _ (mem_deps.2 ⟨e, h.edges ▸ he, hej.trans hid, hd⟩), hwd⟩
      · rw [hpar, Option.mem_toList, Option.bind_eq_some_iff] at hd'
        obtain ⟨q, hq, hd'⟩ := hd'
        obtain ⟨d, hd, hwd⟩ := h.job hd'
        exact ⟨d, List.mem_append_right _ (by simp [hq, hd]), hwd⟩
    obtain ⟨d, hd, hwd⟩ := hback
    refine hno (List.any_eq_true.2 ⟨d, hd, ?_⟩)
    simp only [Bool.and_eq_true, bne_iff_ne, ne_eq, hwd.sameJob.id, hwd.completed_iff] at hcond ⊢
    exact hcond
  · right
    cases hw with
    | cancelled e hwait he =>
      have : (j.written now (cancelRow now e)).closed = true :=
        show (cancelRow now e j).closed = true from closed_cancelRow he
      simp [bears, this]
    | kept =>
      simp only [bears, Bool.or_eq_true, Bool.and_eq_true, List.any_eq_true] at hb ⊢
      refine hb.imp_right fun ⟨hm, d, hd, hg⟩ => ⟨hm, ?_⟩
      obtain ⟨e, he, hej, hd⟩ := mem_deps.1 hd
      obtain ⟨d', hd', hwd⟩ := h.job' hd
      exact ⟨d', mem_deps.2 ⟨e, h.edges ▸ he, hej, hd'⟩, by rw [hwd.sameJob.id]; exact hg⟩

/-- The tables after the cancels of the expiry sweep, before its delete. -/
def beforeExpiry (db : Db) (now : Time) (pick : JobId → Bool) : Db :=
  (db.cancelExpiredChildren now (db.expires now pick)).cancelExpiredDependents now
    (db.expires now pick)

theorem withdraws_beforeExpiry (db : Db) (now : Time) (pick : JobId → Bool) :
    Withdraws now db (db.beforeExpiry now pick) := by
  have h₁ : Withdraws now db (db.cancelExpiredChildren now (db.expires now pick)) := by
    refine withdraws_setStatus (e := fun _ => some parentExpiredReason) (fun _ => rfl)
      (fun j hj => ?_) ?_
    · simp only [Bool.and_eq_true] at hj
      exact blockedBy_waiting hj.2
    · rintro j _ ⟨⟩
      decide
  refine h₁.trans (withdraws_setStatus (fun _ => rfl) (fun j hj => ?_) ?_)
  · simp only [Bool.and_eq_true] at hj
    exact blockedBy_waiting hj.1
  · intro j r hr
    obtain ⟨d, -, rfl⟩ := Option.map_eq_some_iff.1 hr
    exact dependencyExpiredReason_not_mem d

theorem cleanupExpired_jobs (pick : JobId → Bool) : (db.cleanupExpired now pick).jobs =
    ((db.beforeExpiry now pick).deleteJobs now fun j => db.expires now pick j.id).jobs := rfl

theorem cleanupExpired_edges (pick : JobId → Bool) : (db.cleanupExpired now pick).edges =
    ((db.beforeExpiry now pick).deleteJobs now fun j => db.expires now pick j.id).edges := rfl

theorem Sound.of_eq (S : db.Sound) (hj : db'.jobs = db.jobs) (he : db'.edges = db.edges) :
    db'.Sound := by
  have hjob : db'.job = db.job := by funext i; simp only [Db.job, hj]
  exact ⟨by rw [he, hjob]; exact S.edge, by rw [hjob]; exact S.parent, by rw [hjob]; exact S.workflow⟩

theorem Covered.of_eq (C : Covered D E db) (hj : db'.jobs = db.jobs) (he : db'.edges = db.edges) :
    Covered D E db' := by
  have hjob : db'.job = db.job := by funext i; simp only [Db.job, hj]
  refine ⟨by rw [he]; exact C.edge, ?_, by rw [hjob]; exact C.gate, ?_⟩
  · simpa only [Db.completed, hjob] using C.done
  · simpa only [Accounts, Awaits, hasEdge, hasEdges, hjob, he] using C.accounts

theorem Sound.beforeExpiry (S : db.Sound) (now : Time) (pick : JobId → Bool) :
    (db.beforeExpiry now pick).Sound := by
  have h := withdraws_beforeExpiry db now pick
  refine S.gated h.gated fun i j j' hj hj' => ?_
  obtain ⟨j₀, hj₀, hw⟩ := h.job hj'
  rw [hj] at hj₀
  cases hj₀
  exact hw.sameJob

theorem Sound.cleanupExpired (S : db.Sound) (now : Time) (pick : JobId → Bool) :
    (db.cleanupExpired now pick).Sound :=
  ((S.beforeExpiry now pick).deleteJobs now _).of_eq (cleanupExpired_jobs pick)
    (cleanupExpired_edges pick)

theorem Covered.cleanupExpired (C : Covered D E db) (S : db.Sound) (now : Time)
    (pick : JobId → Bool) (hs : db.deleteSafe (fun j => db.expires now pick j.id) = true) :
    Covered D E (db.cleanupExpired now pick) := by
  have h := withdraws_beforeExpiry db now pick
  have S' := S.beforeExpiry now pick
  have C' : Covered D E (db.beforeExpiry now pick) := by
    refine C.gated S' h.gated (fun _ => id) (fun i hi => C.done i (by rw [← h.completed]; exact hi)) ?_
    intro i j j' hj hj' hc
    obtain ⟨j₀, hj₀, hw⟩ := h.job hj'
    rw [hj] at hj₀
    cases hj₀
    exact hw.closed hc
  exact (C'.deleteJobs S' now (h.deleteSafe hs)).of_eq (cleanupExpired_jobs pick)
    (cleanupExpired_edges pick)

end Db

end Spooled
