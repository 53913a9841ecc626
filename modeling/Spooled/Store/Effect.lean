import Spooled.Store.Api

/-!
# What the write statements do to a row

Specification lemmas for `setJobs`, `setStatus` and `deleteJobs`, read off by
primary key. The triggers of a status update write only gates (of jobs) and
progress (of workflows): a row after `setStatus` is the assigned row up to
`Job.regate`, and the gate it ends with is either the assigned one or the
answer of `check_job_dependencies_met` after the update.
-/

namespace Spooled

open List

def Job.regate (j : Job) (m : Option Bool) (t : Time) : Job :=
  { j with dependenciesMet := m, updatedAt := t }

section Written

variable {now : Time} {f : Job → Job} {j : Job}

@[simp] theorem Job.written_id : (j.written now f).id = j.id := rfl
@[simp] theorem Job.written_status : (j.written now f).status = (f j).status := rfl
@[simp] theorem Job.written_workflowId : (j.written now f).workflowId = (f j).workflowId := rfl

end Written

namespace Db

variable {db : Db} {now : Time} {p : Job → Bool} {f : Job → Job} {i : JobId} {j : Job}

theorem job_id (h : db.job i = some j) : j.id = i := Table.key_of_find h

theorem job_mem (h : db.job i = some j) : j ∈ db.jobs.rows := Table.mem_of_find h

theorem job_of_mem (h : j ∈ db.jobs.rows) : db.job j.id = some j := Table.find_key h

/-! ## The status each kind of assignment sets -/

section Rows

variable {error : String} {e : Option String} {n : Int} {t : Time}

@[simp] theorem cancelRow_status : (cancelRow now e j).status = .cancelled := rfl
@[simp] theorem rescheduleRow_status : (rescheduleRow error n t j).status = .scheduled := rfl
@[simp] theorem deadletterRow_status : (deadletterRow error j).status = .deadletter := rfl
@[simp] theorem releaseRow_status : (releaseRow error j).status = .pending := rfl
@[simp] theorem reviveRow_status : (reviveRow j).status = .pending := rfl
@[simp] theorem resetRow_status : (db.resetRow j).status = .pending := rfl
@[simp] theorem clearLease_status : (clearLease j).status = j.status := rfl
@[simp] theorem claimRow_status {w : WorkerId} {l : LeaseId} {k : Nat} :
    (claimRow now w l k t j).status = .processing := rfl

end Rows

/-! ## `setJobs` -/

@[simp] theorem setJobs_edges : (db.setJobs now p f).edges = db.edges := rfl
@[simp] theorem setJobs_workflows : (db.setJobs now p f).workflows = db.workflows := rfl
@[simp] theorem setJobs_deadLetters : (db.setJobs now p f).deadLetters = db.deadLetters := rfl
@[simp] theorem setJobs_workers : (db.setJobs now p f).workers = db.workers := rfl
@[simp] theorem setJobs_queueConfig : (db.setJobs now p f).queueConfig = db.queueConfig := rfl

theorem job_setJobs (i : JobId) : (db.setJobs now p f).job i =
    (db.job i).map fun j => if p j then j.written now f else j :=
  Table.find_update db.jobs p (Job.written now f) (fun _ => rfl) i

theorem job_setJobs_none : (db.setJobs now p f).job i = none ↔ db.job i = none := by
  rw [job_setJobs, Option.map_eq_none_iff]

theorem job_setJobs_some (h : db.job i = some j) :
    (db.setJobs now p f).job i = some (if p j then j.written now f else j) := by
  rw [job_setJobs, h]; rfl

/-! ## The gate function reads edges, completion and modes -/

/-- What `check_job_dependencies_met` reads of a row. -/
def checkView (db : Db) (i : JobId) : Option (Bool × DependencyMode) :=
  (db.job i).map fun j => (j.status == .completed, j.dependencyMode)

variable {d : JobId} {db db' : Db} {done : List Job} {old : Job}

theorem deps_map_congr (he : db'.edges = db.edges)
    (hv : ∀ i, db'.checkView i = db.checkView i) (i : JobId) :
    (db'.deps i).map (·.status == .completed) = (db.deps i).map (·.status == .completed) := by
  have key : ∀ d : Db, (d.deps i).map (·.status == .completed) =
      (d.edges.filter (·.job == i)).filterMap fun e => (d.checkView e.dependsOn).map (·.1) := by
    intro d
    simp only [deps, map_filterMap, checkView, Option.map_map]
    rfl
  rw [key, key, he]
  simp only [hv]

theorem checkJobDependenciesMet_congr (he : db'.edges = db.edges)
    (hv : ∀ i, db'.checkView i = db.checkView i) (i : JobId) :
    db'.checkJobDependenciesMet i = db.checkJobDependenciesMet i := by
  have hl : (db'.deps i).length = (db.deps i).length := by
    simpa using congrArg List.length (deps_map_congr he hv i)
  have hany : (db'.deps i).any (·.status == .completed) =
      (db.deps i).any (·.status == .completed) := by
    simpa [any_map, Function.comp_def] using
      congrArg (fun l => l.any id) (deps_map_congr he hv i)
  have hcount : (db'.deps i).countP (·.status == .completed) =
      (db.deps i).countP (·.status == .completed) := by
    simpa [countP_map, Function.comp_def] using
      congrArg (fun l => l.countP id) (deps_map_congr he hv i)
  have hmode : (db'.job i).any (·.dependencyMode == .any) =
      (db.job i).any (·.dependencyMode == .any) := by
    have := hv i
    simp only [checkView] at this
    cases h' : db'.job i <;> cases h : db.job i <;> simp_all
  simp only [checkJobDependenciesMet, hl, hany, hcount, hmode]

/-! ## The status triggers -/

/-- `db'` is `db` after some triggers: only gates and workflow progress differ,
and a rewritten gate carries the answer of the gate function for a job that
has edges. -/
structure Triggered (db db' : Db) : Prop where
  edges : db'.edges = db.edges
  deadLetters : db'.deadLetters = db.deadLetters
  workers : db'.workers = db.workers
  queueConfig : db'.queueConfig = db.queueConfig
  absent : ∀ i, db.job i = none → db'.job i = none
  row : ∀ i j, db.job i = some j → ∃ m t, db'.job i = some (j.regate m t) ∧
    (m = j.dependenciesMet ∨ m = some (db.checkJobDependenciesMet i) ∧ db.hasEdges i)

theorem Triggered.refl (db : Db) : Triggered db db where
  edges := rfl
  deadLetters := rfl
  workers := rfl
  queueConfig := rfl
  absent _ h := h
  row _ j h := ⟨j.dependenciesMet, j.updatedAt, h, .inl rfl⟩

theorem Triggered.checkView (h : Triggered db db') (i : JobId) :
    db'.checkView i = db.checkView i := by
  cases hj : db.job i with
  | none => simp [Db.checkView, hj, h.absent i hj]
  | some j =>
    obtain ⟨m, t, hj', -⟩ := h.row i j hj
    simp [Db.checkView, hj, hj', Job.regate]

theorem hasEdges_of_hasEdge (h : db.hasEdge i d = true) : db.hasEdges i = true := by
  simp only [hasEdge, hasEdges, any_eq_true, Bool.and_eq_true] at h ⊢
  obtain ⟨e, he, hi, -⟩ := h
  exact ⟨e, he, hi⟩

theorem Triggered.updateDependentJobs (h : Triggered db db') (d : JobId) :
    Triggered db (db'.updateDependentJobs now d) where
  edges := h.edges
  deadLetters := h.deadLetters
  workers := h.workers
  queueConfig := h.queueConfig
  absent i hi := job_setJobs_none.2 (h.absent i hi)
  row i j hj := by
    obtain ⟨m, t, hj', hm⟩ := h.row i j hj
    have hid : (j.regate m t).id = i := job_id hj'
    have hc := checkJobDependenciesMet_congr h.edges h.checkView i
    by_cases hd : db'.hasEdge i d = true
    · refine ⟨some (db.checkJobDependenciesMet i), now, ?_, .inr ⟨rfl, ?_⟩⟩
      · rw [Db.updateDependentJobs, job_setJobs_some hj', hid, if_pos hd]
        simp only [Job.written, hid, hc]
        subst hid; rfl
      · have := hasEdges_of_hasEdge hd
        simpa only [hasEdges, h.edges] using this
    · refine ⟨m, t, ?_, hm⟩
      rw [Db.updateDependentJobs, job_setJobs_some hj', hid, if_neg hd]

theorem Triggered.updateWorkflowProgress (h : Triggered db db') (w : WorkflowId) :
    Triggered db (db'.updateWorkflowProgress now w) :=
  ⟨h.edges, h.deadLetters, h.workers, h.queueConfig, h.absent, h.row⟩

/-- **The rule for a status update.** The rows are written first. Then the triggers of each of them
recompute the gates behind it, if it is completed now, and the progress of its workflow, if it is
at rest. -/
theorem setStatus_rule {P : Db → Prop} (hset : P (db.setJobs now p f))
    (hgate : ∀ d j, db.job j.id = some j → p j = true → (f j).status = .completed → P d →
      P (d.updateDependentJobs now j.id))
    (hprogress : ∀ d j w, db.job j.id = some j → p j = true → (f j).workflowId = some w →
      (f j).status.active = false → P d → P (d.updateWorkflowProgress now w)) :
    P (db.setStatus now p f) := by
  suffices ∀ (rows : List Job), (∀ r ∈ rows, r ∈ db.jobs.rows.filter p) → ∀ d, P d →
      P (rows.foldl (fun d' j => d'.fireStatus now j (j.written now f)) d) from
    this _ (fun _ => id) _ hset
  intro rows
  induction rows with
  | nil => exact fun _ _ h => h
  | cons r rows ih =>
    intro hrows d hd
    obtain ⟨hmem, hpr⟩ := mem_filter.1 (hrows r mem_cons_self)
    refine ih (fun x hx => hrows x (mem_cons_of_mem _ hx)) _ ?_
    have h₁ : P (if (r.written now f).status == .completed && r.status != .completed
        then d.updateDependentJobs now (r.written now f).id else d) := by
      split
      · next hc => exact hgate d r (job_of_mem hmem) hpr (beq_iff_eq.1 (Bool.and_eq_true_iff.1 hc).1) hd
      · exact hd
    unfold fireStatus
    dsimp only
    split
    · next w hw =>
      split
      · exact h₁
      · next hrest => exact hprogress _ r w (job_of_mem hmem) hpr hw (Bool.eq_false_iff.2 hrest) h₁
    · exact h₁

/-- **The triggers of a status update rewrite gates and progress, nothing else.** -/
theorem triggered_setStatus (db : Db) (now : Time) (p : Job → Bool) (f : Job → Job) :
    Triggered (db.setJobs now p f) (db.setStatus now p f) :=
  setStatus_rule (.refl _) (fun _ j _ _ _ h => h.updateDependentJobs j.id)
    fun _ _ w _ _ _ _ h => h.updateWorkflowProgress w

@[simp] theorem setStatus_edges : (db.setStatus now p f).edges = db.edges :=
  (triggered_setStatus db now p f).edges
@[simp] theorem setStatus_deadLetters : (db.setStatus now p f).deadLetters = db.deadLetters :=
  (triggered_setStatus db now p f).deadLetters
@[simp] theorem setStatus_workers : (db.setStatus now p f).workers = db.workers :=
  (triggered_setStatus db now p f).workers
@[simp] theorem setStatus_queueConfig : (db.setStatus now p f).queueConfig = db.queueConfig :=
  (triggered_setStatus db now p f).queueConfig

theorem status_setStatus (h : db.job i = some j) (hp : p j = true) :
    ∃ j', (db.setStatus now p f).job i = some j' ∧ j'.status = (f j).status := by
  obtain ⟨m, t, h', -⟩ := (triggered_setStatus db now p f).row i _ (job_setJobs_some h)
  rw [if_pos hp] at h'
  exact ⟨_, h', rfl⟩

theorem setStatus_jobs (hp : ∀ j ∈ db.jobs.rows, p j = true → (f j).status ≠ .completed) :
    (db.setStatus now p f).jobs = (db.setJobs now p f).jobs :=
  setStatus_rule (P := fun d => d.jobs = (db.setJobs now p f).jobs) rfl
    (fun _ j hj hpj hc _ => absurd hc (hp j (job_mem hj) hpj)) fun _ _ _ _ _ _ _ h => h

theorem job_setStatus (hp : ∀ j ∈ db.jobs.rows, p j = true → (f j).status ≠ .completed)
    (i : JobId) : (db.setStatus now p f).job i =
      (db.job i).map fun j => if p j then j.written now f else j := by
  rw [← job_setJobs]
  simp only [job, setStatus_jobs hp]

/-! ## Deletes -/

/-- `d` is one of the deleted rows. -/
def deleted (db : Db) (p : Job → Bool) (d : JobId) : Bool := (db.job d).any p

def reparent (par : Option JobId) (t : Time) (j : Job) : Job :=
  { j with parentJobId := par, updatedAt := t }

/-- The delete trigger cancels `j` because of the deleted row `old`, unless `j`
is an any-join with a dependency outside `old` that can still complete. -/
def blockedOn (db : Db) (old j : Job) : Bool :=
  (j.parentJobId == some old.id || db.hasEdge j.id old.id) &&
    j.organizationId == old.organizationId && j.status.waiting && j.gateNotTrue &&
    old.status != .completed

theorem dropReferences_edges : (db.dropReferences now d).edges =
    db.edges.filter fun e => e.job != d && e.dependsOn != d := rfl

theorem job_dropReferences (d i : JobId) : (db.dropReferences now d).job i =
    (db.job i).map fun j =>
      if j.parentJobId == some d then j.written now fun j => { j with parentJobId := none }
      else j :=
  job_setJobs i

theorem job_cancelBlocked (old : Job) (i : JobId) : (db.cancelBlocked now old p).job i =
    (db.job i).map fun j =>
      if p j && j.organizationId == old.organizationId && j.status.waiting && j.gateNotTrue &&
          (j.dependencyMode != .any || !db.liveAlternative (· == old.id) j)
      then j.written now (cancelRow now (some (deletedReason old.id))) else j :=
  job_setStatus (fun _ _ _ => by simp) i

@[simp] theorem cancelBlocked_edges :
    (db.cancelBlocked now old p).edges = db.edges := setStatus_edges

@[simp] theorem cancelBlockedDependents_edges :
    (db.cancelBlockedDependentsOfDeletedJob now old).edges = db.edges := by
  unfold cancelBlockedDependentsOfDeletedJob
  split
  · rfl
  · simp

/-- Rows of `db'` are rows of `db`, possibly broken since. -/
structure Shrinks (db db' : Db) : Prop where
  edges : ∀ e ∈ db'.edges, e ∈ db.edges
  row : ∀ i j', db'.job i = some j' → ∃ j, db.job i = some j ∧
    j'.organizationId = j.organizationId ∧ (j.status.broken = true → j'.status.broken = true)

theorem Shrinks.liveAlternative (h : Shrinks db db') {gone : JobId → Bool} {j j' : Job}
    (hid : j'.id = j.id) (ho : j'.organizationId = j.organizationId)
    (hl : db'.liveAlternative gone j' = true) : db.liveAlternative gone j = true := by
  simp only [Db.liveAlternative, any_eq_true, deps, mem_filterMap, mem_filter] at hl ⊢
  obtain ⟨d', ⟨e, ⟨he, hej⟩, hd'⟩, hcond⟩ := hl
  obtain ⟨d, hd, hdo, hb⟩ := h.row _ _ hd'
  refine ⟨d, ⟨e, ⟨h.edges e he, by rw [← hid]; exact hej⟩, hd⟩, ?_⟩
  rw [job_id hd'] at hcond
  rw [job_id hd]
  simp only [Bool.and_eq_true, Bool.not_eq_true', beq_iff_eq] at hcond ⊢
  obtain ⟨⟨hg, horg⟩, hs⟩ := hcond
  refine ⟨⟨hg, by rw [← hdo, horg, ho]⟩, ?_⟩
  cases hbr : d.status.broken with
  | false => rfl
  | true => rw [hb hbr] at hs; exact hs

theorem shrinks_cancelBlocked (db : Db) (now : Time) (old : Job) (p : Job → Bool) :
    Shrinks db (db.cancelBlocked now old p) where
  edges e he := by simpa using he
  row i j' hj' := by
    rw [job_cancelBlocked] at hj'
    obtain ⟨j, hj, rfl⟩ := Option.map_eq_some_iff.1 hj'
    refine ⟨j, hj, ?_, ?_⟩
    · split <;> rfl
    · split
      · intro _; rfl
      · exact id

/-- The waiting, gated rows of `p` that one `UPDATE` of the trigger looks at. -/
def candidate (old : Job) (p : Job → Bool) (j : Job) : Bool :=
  p j && j.organizationId == old.organizationId && j.status.waiting && j.gateNotTrue

theorem cancelBlocked_cases (now : Time) (p : Job → Bool) (old : Job) (h : db.job i = some j) :
    (db.cancelBlocked now old p).job i = some j ∧ (candidate old p j = true →
      j.dependencyMode = .any ∧ db.liveAlternative (· == old.id) j = true) ∨
    candidate old p j = true ∧
      (db.cancelBlocked now old p).job i =
        some (j.written now (cancelRow now (some (deletedReason old.id)))) := by
  rw [job_cancelBlocked, h, Option.map_some, ← candidate]
  cases hq : candidate old p j with
  | false => simp
  | true =>
    by_cases hm : j.dependencyMode = .any ∧ db.liveAlternative (· == old.id) j = true
    · exact .inl ⟨by simp [hm.1, hm.2], fun _ => hm⟩
    · refine .inr ⟨rfl, ?_⟩
      rw [if_pos]
      simp only [Bool.true_and, Bool.or_eq_true, bne_iff_ne, Bool.not_eq_true']
      by_cases ha : j.dependencyMode = .any
      · exact .inr (by simpa [ha] using hm)
      · exact .inl ha

theorem blockedOn_iff (old : Job) (hc : old.status ≠ .completed) : db.blockedOn old j = true ↔
    candidate old (fun j => j.parentJobId == some old.id) j = true ∨
      candidate old (fun j => db.hasEdge j.id old.id) j = true := by
  simp only [blockedOn, candidate, Bool.and_eq_true, Bool.or_eq_true, bne_iff_ne]
  tauto

theorem job_cancelBlockedDependents (now : Time) (old : Job) (h : db.job i = some j) :
    (db.cancelBlockedDependentsOfDeletedJob now old).job i = some j ∧
      (db.blockedOn old j = true →
        j.dependencyMode = .any ∧ db.liveAlternative (· == old.id) j = true) ∨
    db.blockedOn old j = true ∧ (db.cancelBlockedDependentsOfDeletedJob now old).job i =
      some (j.written now (cancelRow now (some (deletedReason old.id)))) := by
  unfold cancelBlockedDependentsOfDeletedJob
  by_cases hc : old.status = .completed
  · rw [if_pos (by simp [hc])]
    exact .inl ⟨h, by simp [blockedOn, hc]⟩
  rw [if_neg (by simpa using hc), blockedOn_iff old hc]
  set db₁ := db.cancelBlocked now old fun j => j.parentJobId == some old.id with hdb₁
  have hedge : ∀ j : Job, db₁.hasEdge j.id old.id = db.hasEdge j.id old.id := by
    intro j; simp only [hasEdge, hdb₁, cancelBlocked_edges]
  simp only [hedge]
  rcases cancelBlocked_cases now (fun j => j.parentJobId == some old.id) old h with
    ⟨h₁, hk₁⟩ | ⟨hq, h₁⟩
  · rcases cancelBlocked_cases now (fun j => db.hasEdge j.id old.id) old h₁ with
      ⟨h₂, hk₂⟩ | ⟨hq, h₂⟩
    · refine .inl ⟨h₂, ?_⟩
      rintro (hq | hq)
      · exact hk₁ hq
      · obtain ⟨ha, hl⟩ := hk₂ hq
        exact ⟨ha, (shrinks_cancelBlocked db now old _).liveAlternative rfl rfl hl⟩
    · exact .inr ⟨.inr hq, h₂⟩
  · -- the first update already cancelled the row, so the second skips it
    rcases cancelBlocked_cases now (fun j => db.hasEdge j.id old.id) old h₁ with
      ⟨h₂, -⟩ | ⟨hq', -⟩
    · exact .inr ⟨.inl hq, h₂⟩
    · simp [candidate, cancelRow, Status.waiting] at hq'

/-- The state of a delete after what follows the rows `done`, started from
`db` (which no longer has the deleted rows). -/
structure Deleting (now : Time) (db : Db) (done : List Job) (db' : Db) : Prop where
  edges : db'.edges = db.edges.filter fun e =>
    decide (e.job ∉ done.map Job.id) && decide (e.dependsOn ∉ done.map Job.id)
  absent : ∀ i, db.job i = none → db'.job i = none
  /-- A row loses its parent to the delete; it is kept, and then each deleted
  row it was blocked on left it a live alternative, or it is cancelled. -/
  row : ∀ i j, db.job i = some j → ∃ t,
    let par := j.parentJobId.filter fun d => decide (d ∉ done.map Job.id)
    db'.job i = some (reparent par t j) ∧ (∀ old ∈ done, db.blockedOn old j = true →
        j.dependencyMode = .any ∧ db.liveAlternative (· == old.id) j = true) ∨
    ∃ old ∈ done, db.blockedOn old j = true ∧
      db'.job i = some (reparent par t (cancelRow now (some (deletedReason old.id)) j))

theorem Deleting.start (now : Time) (db : Db) : Deleting now db [] db where
  edges := by simp
  absent _ h := h
  row i j h := by
    refine ⟨j.updatedAt, .inl ⟨?_, by simp⟩⟩
    have hpar : (j.parentJobId.filter fun _ => true) = j.parentJobId := by
      cases j.parentJobId <;> rfl
    simpa [reparent, hpar] using h

theorem Deleting.shrinks (h : Deleting now db done db') :
    Shrinks db db' where
  edges e he := by
    rw [h.edges] at he
    exact (mem_filter.1 he).1
  row i j' hj' := by
    cases hj : db.job i with
    | none => rw [h.absent i hj] at hj'; cases hj'
    | some j =>
      refine ⟨j, rfl, ?_⟩
      obtain ⟨t, ⟨hj'', -⟩ | ⟨old, -, -, hj''⟩⟩ := h.row i j hj
      · rw [hj''] at hj'; cases hj'
        exact ⟨rfl, id⟩
      · rw [hj''] at hj'; cases hj'
        exact ⟨rfl, fun _ => rfl⟩

theorem Deleting.hasEdge (h : Deleting now db done db')
    {i : JobId} (hi : i ∉ done.map Job.id) (hd : d ∉ done.map Job.id) :
    db'.hasEdge i d = db.hasEdge i d := by
  simp only [Db.hasEdge, h.edges, any_filter]
  refine any_congr rfl fun e => ?_
  by_cases he : e.job = i ∧ e.dependsOn = d
  · simp [he.1, he.2, hi, hd]
  · simp only [not_and] at he
    by_cases h1 : e.job = i
    · simp [he h1]
    · simp [h1]

theorem filter_parent_append (par : Option JobId) (ids : List JobId) (o : JobId) :
    (par.filter fun d => decide (d ∉ ids ++ [o])) =
      if (par.filter fun d => decide (d ∉ ids)) == some o then none
      else par.filter fun d => decide (d ∉ ids) := by
  cases par with
  | none => rfl
  | some d =>
    by_cases h : d ∈ ids
    · simp [Option.filter_some, h]
    · by_cases h' : d = o
      · simp [Option.filter_some, h']
      · simp [Option.filter_some, h, h']

theorem filter_parent_eq {par : Option JobId} {ids : List JobId} {o : JobId} (ho : o ∉ ids) :
    ((par.filter fun d => decide (d ∉ ids)) == some o) = (par == some o) := by
  cases par with
  | none => rfl
  | some d =>
    by_cases hd : d ∈ ids
    · have : d ≠ o := fun e => ho (e ▸ hd)
      simp [Option.filter_some, hd, this]
    · simp [Option.filter_some, hd]

theorem job_dropReferences_reparent (now : Time) (d : JobId) {par : Option JobId} {t : Time}
    (h : db.job i = some (reparent par t j)) : ∃ t',
    (db.dropReferences now d).job i =
      some (reparent (if par == some d then none else par) t' j) := by
  rw [job_dropReferences, h, Option.map_some]
  by_cases hp : par = some d
  · exact ⟨now, by simp [reparent, hp, Job.written]⟩
  · exact ⟨t, by simp [reparent, hp]⟩

theorem Deleting.blockedOn (h : Deleting now db done db') {t : Time} (hi : j.id ∉ done.map Job.id)
    (ho : old.id ∉ done.map Job.id) :
    db'.blockedOn old (reparent (j.parentJobId.filter fun d => decide (d ∉ done.map Job.id)) t j) =
      db.blockedOn old j := by
  simp only [Db.blockedOn, reparent, h.hasEdge hi ho, Job.gateNotTrue, filter_parent_eq ho]

theorem not_mem_ids (hdone : ∀ o ∈ done, db.job o.id = none)
    (h : db.job i = some j) : i ∉ done.map Job.id := by
  intro hi
  obtain ⟨o, ho, rfl⟩ := mem_map.1 hi
  rw [hdone o ho] at h
  cases h

theorem Deleting.step (h : Deleting now db done db')
    (hdone : ∀ o ∈ done ++ [old], db.job o.id = none) (hold : old.id ∉ done.map Job.id) :
    Deleting now db (done ++ [old]) (afterDelete now db' old) where
  edges := by
    simp only [afterDelete, dropReferences_edges, cancelBlockedDependents_edges, h.edges,
      filter_filter, map_append, map_cons, map_nil]
    refine filter_congr fun e _ => ?_
    by_cases h₁ : e.job ∈ done.map Job.id <;> by_cases h₂ : e.dependsOn ∈ done.map Job.id <;>
      by_cases h₃ : e.job = old.id <;> by_cases h₄ : e.dependsOn = old.id <;>
      simp_all
  absent i hi := by
    have hn : (db'.cancelBlockedDependentsOfDeletedJob now old).job i = none := by
      unfold cancelBlockedDependentsOfDeletedJob
      split
      · exact h.absent i hi
      · simp [job_cancelBlocked, h.absent i hi]
    simp [afterDelete, job_dropReferences, hn]
  row i j hj := by
    have hid := job_id hj
    have hi : j.id ∉ done.map Job.id := by
      rw [hid]; exact not_mem_ids (fun o ho => hdone o (mem_append_left _ ho)) hj
    simp only [map_append, map_cons, map_nil, filter_parent_append]
    obtain ⟨t, ⟨hj', hk⟩ | ⟨o, ho, hb, hj'⟩⟩ := h.row i j hj
    · rcases job_cancelBlockedDependents now old hj' with ⟨h₂, hk₂⟩ | ⟨hb, h₂⟩
      · obtain ⟨t', h₃⟩ := job_dropReferences_reparent now old.id h₂
        refine ⟨t', .inl ⟨h₃, ?_⟩⟩
        intro o ho hb
        rcases mem_append.1 ho with ho | ho
        · exact hk o ho hb
        · obtain rfl := mem_singleton.1 ho
          obtain ⟨ha, hl⟩ := hk₂ (by rw [h.blockedOn hi hold]; exact hb)
          exact ⟨ha, h.shrinks.liveAlternative rfl rfl hl⟩
      · rw [h.blockedOn hi hold] at hb
        have h₂' : (db'.cancelBlockedDependentsOfDeletedJob now old).job i = some (reparent
            (j.parentJobId.filter fun d => decide (d ∉ done.map Job.id)) now
            (cancelRow now (some (deletedReason old.id)) j)) := h₂
        obtain ⟨t', h₃⟩ := job_dropReferences_reparent now old.id h₂'
        exact ⟨t', .inr ⟨old, by simp, hb, h₃⟩⟩
    · rcases job_cancelBlockedDependents now old hj' with ⟨h₂, -⟩ | ⟨hb', -⟩
      · obtain ⟨t', h₃⟩ := job_dropReferences_reparent now old.id h₂
        exact ⟨t', .inr ⟨o, mem_append_left _ ho, hb, h₃⟩⟩
      · -- a cancelled row is not waiting, so no later call blocks it again
        simp [Db.blockedOn, reparent, cancelRow, Status.waiting] at hb'

/-- The tables right after the rows are gone, before the trigger runs. -/
def withoutRows (db : Db) (p : Job → Bool) : Db := { db with jobs := db.jobs.delete p }

theorem job_withoutRows (i : JobId) : (db.withoutRows p).job i = (db.job i).filter fun j => !p j :=
  Table.find_delete db.jobs p i

theorem job_withoutRows_of_mem (hj : j ∈ db.jobs.rows.filter p) :
    (db.withoutRows p).job j.id = none := by
  obtain ⟨hm, hp⟩ := mem_filter.1 hj
  rw [job_withoutRows, job_of_mem hm, Option.filter_some, hp]; rfl

theorem job_withoutRows_kept (h : db.job i = some j) (hp : p j = false) :
    (db.withoutRows p).job i = some j := by
  rw [job_withoutRows, h, Option.filter_some, hp]; rfl

/-- **What a `DELETE FROM jobs` does**, its trigger and key actions included. -/
theorem deleting_deleteJobs (db : Db) (now : Time) (p : Job → Bool) :
    Deleting now (db.withoutRows p) (db.jobs.rows.filter p) (db.deleteJobs now p) := by
  have hnodup : ((db.jobs.rows.filter p).map Job.id).Nodup :=
    db.jobs.nodup.sublist (filter_sublist.map _)
  have hgone : ∀ o ∈ db.jobs.rows.filter p, (db.withoutRows p).job o.id = none :=
    fun o ho => job_withoutRows_of_mem ho
  unfold deleteJobs
  rw [← withoutRows]
  generalize db.jobs.rows.filter p = rows at hnodup hgone
  -- the rows already handled are a first segment of the deleted ones
  suffices ∀ rest done d, done ++ rest = rows → Deleting now (db.withoutRows p) done d →
      Deleting now (db.withoutRows p) rows (rest.foldl (afterDelete now) d) from
    this rows [] _ rfl (.start now _)
  intro rest
  induction rest with
  | nil => intro done d hd h; rw [← hd, append_nil]; exact h
  | cons old rest ih =>
    intro done d hd h
    have hd' : (done ++ [old]) ++ rest = rows := by simpa using hd
    refine ih (done ++ [old]) _ hd' (h.step ?_ ?_)
    · intro o ho
      exact hgone o (hd' ▸ mem_append_left _ ho)
    · rw [← hd, map_append, map_cons] at hnodup
      intro hmem
      exact (nodup_append.1 hnodup).2.2 _ hmem _ mem_cons_self rfl

theorem mem_ids_iff_deleted :
    d ∈ (db.jobs.rows.filter p).map Job.id ↔ db.deleted p d = true := by
  simp only [mem_map, mem_filter, deleted, Option.any_eq_true]
  constructor
  · rintro ⟨j, ⟨hm, hp⟩, rfl⟩
    exact ⟨j, job_of_mem hm, hp⟩
  · rintro ⟨j, hj, hp⟩
    exact ⟨j, ⟨job_mem hj, hp⟩, job_id hj⟩

theorem deleteJobs_edges : (db.deleteJobs now p).edges =
    db.edges.filter fun e => !db.deleted p e.job && !db.deleted p e.dependsOn := by
  rw [(deleting_deleteJobs db now p).edges]
  refine filter_congr fun e _ => ?_
  simp only [mem_ids_iff_deleted, Bool.not_eq_true, Bool.decide_eq_false]

theorem job_deleteJobs_absent (h : db.job i = none) : (db.deleteJobs now p).job i = none :=
  (deleting_deleteJobs db now p).absent i (by rw [job_withoutRows, h]; rfl)

theorem job_deleteJobs_deleted (h : db.job i = some j) (hp : p j = true) :
    (db.deleteJobs now p).job i = none :=
  (deleting_deleteJobs db now p).absent i (by rw [job_withoutRows, h, Option.filter_some, hp]; rfl)

/-! ## Rules for deletes and re-opened levels -/

theorem deleteJobs_rel {R : Db → Db → Prop} (hrefl : ∀ d, R d d)
    (htrans : ∀ a b c, R a b → R b c → R a c) (hdel : R db (db.withoutRows p))
    (hcancel : ∀ d q e, (∀ j, q j = true → j.status.waiting = true) →
      R d (d.setStatus now q (cancelRow now e)))
    (hdrop : ∀ d i, R d (d.dropReferences now i)) : R db (db.deleteJobs now p) := by
  have hblocked : ∀ d old q, R d (cancelBlocked d now old q) := by
    refine fun d old q => hcancel d _ _ fun j hj => ?_
    simp only [Bool.and_eq_true] at hj
    exact hj.1.1.2
  have hafter : ∀ d old, R d (afterDelete now d old) := by
    intro d old
    refine htrans _ (d.cancelBlockedDependentsOfDeletedJob now old) _ ?_ (hdrop _ _)
    unfold cancelBlockedDependentsOfDeletedJob
    split
    · exact hrefl d
    · exact htrans _ _ _ (hblocked d old _) (hblocked _ old _)
  unfold deleteJobs
  rw [← withoutRows]
  generalize db.jobs.rows.filter p = rows
  suffices ∀ d, R db d → R db (rows.foldl (afterDelete now) d) from this _ hdel
  induction rows with
  | nil => exact fun _ h => h
  | cons r rows ih => exact fun d h => ih _ (htrans _ _ _ h (hafter d r))

theorem reopenLevels_rel {R : Db → Db → Prop} (org : OrgId) (hrefl : ∀ d, R d d)
    (htrans : ∀ a b c, R a b → R b c → R a c)
    (hreopen : ∀ d frontier, R d (d.setStatus now (d.reopens org frontier) (d.reopenRow now)))
    (n : Nat) (db : Db) (frontier : List JobId) : R db (reopenLevels now org n db frontier).1 := by
  induction n generalizing db frontier with
  | zero => exact hrefl db
  | succ n ih =>
    unfold reopenLevels
    split
    · exact hrefl db
    · exact htrans _ _ _ (hreopen db frontier) (ih _ _)

/-! ## What the write statements leave alone -/

/-- `db'` differs from `db` in jobs, edges and workflows at most. -/
structure Frame (db db' : Db) : Prop where
  deadLetters : db'.deadLetters = db.deadLetters
  workers : db'.workers = db.workers
  queueConfig : db'.queueConfig = db.queueConfig

theorem Frame.refl (db : Db) : Frame db db := ⟨rfl, rfl, rfl⟩

theorem Frame.trans {db'' : Db} (h : Frame db db') (h' : Frame db' db'') : Frame db db'' :=
  ⟨h'.deadLetters.trans h.deadLetters, h'.workers.trans h.workers,
    h'.queueConfig.trans h.queueConfig⟩

theorem frame_setJobs (db : Db) (now : Time) (p : Job → Bool) (f : Job → Job) :
    Frame db (db.setJobs now p f) := ⟨rfl, rfl, rfl⟩

theorem frame_setStatus (db : Db) (now : Time) (p : Job → Bool) (f : Job → Job) :
    Frame db (db.setStatus now p f) :=
  have h := triggered_setStatus db now p f
  ⟨h.deadLetters, h.workers, h.queueConfig⟩

theorem frame_deleteJobs (db : Db) (now : Time) (p : Job → Bool) :
    Frame db (db.deleteJobs now p) :=
  deleteJobs_rel Frame.refl (fun _ _ _ => Frame.trans) ⟨rfl, rfl, rfl⟩
    (fun d q _ _ => frame_setStatus d now q _) fun _ _ => ⟨rfl, rfl, rfl⟩

theorem frame_reopenAround (db : Db) (now : Time) (org : OrgId) (retried : List JobId) :
    Frame db (db.reopenAround now org retried) := by
  have h₁ := reopenLevels_rel org Frame.refl (fun _ _ _ => Frame.trans)
    (fun d _ => frame_setStatus d now _ _) maxReopenDepth db retried
  exact h₁.trans ⟨rfl, rfl, rfl⟩

theorem frame_insertEdge (db : Db) (i d : JobId) : Frame db (db.insertEdge i d) := by
  unfold insertEdge
  split <;> exact ⟨rfl, rfl, rfl⟩

theorem frame_addDependencies (db : Db) (now : Time) (org : OrgId) (i : JobId) (ds : List JobId)
    (mode : Option DependencyMode) : Frame db (db.addDependencies now org i ds mode) := by
  have hfold : ∀ d : Db, Frame db d →
      Frame db (ds.foldl (fun db d => db.insertEdge i d) d) := by
    induction ds with
    | nil => exact fun _ h => h
    | cons x ds ih => exact fun d h => ih _ (h.trans (frame_insertEdge d i x))
  unfold addDependencies
  split
  · dsimp only
    split
    · exact .refl db
    · exact (hfold db (.refl db)).trans ⟨rfl, rfl, rfl⟩
  · exact .refl db

theorem frame_cancelWorkflow (db : Db) (now : Time) (w : WorkflowId) (org : OrgId) :
    Frame db (db.cancelWorkflow now w org) := by
  unfold cancelWorkflow
  split
  · have h₁ : Frame db (db.setLiveWorkflow w fun x =>
        { x with status := .cancelled, completedAt := some now }) := ⟨rfl, rfl, rfl⟩
    exact h₁.trans (frame_setStatus _ _ _ _)
  · exact .refl db

theorem frame_retryWorkflow (db : Db) (now : Time) (w : WorkflowId) (org : OrgId) :
    Frame db (db.retryWorkflow now w org) := by
  unfold retryWorkflow
  split
  · exact (frame_setStatus _ _ _ _).trans ⟨rfl, rfl, rfl⟩
  · exact .refl db

theorem frame_cleanupExpired (db : Db) (now : Time) (pick : JobId → Bool) :
    Frame db (db.cleanupExpired now pick) :=
  ((frame_setStatus _ _ _ _).trans (frame_setStatus _ _ _ _)).trans
    ((frame_deleteJobs _ _ _).trans ⟨rfl, rfl, rfl⟩)

theorem frame_createJob (db : Db) (now : Time) (server : Int) (q : CreateRequest) (i : JobId)
    (met : Bool) : Frame db (db.createJob now server q i met) := by
  unfold createJob
  split <;> exact ⟨rfl, rfl, rfl⟩

end Db

end Spooled
