import Spooled.Dependency.Broken

/-!
# Re-opening what the dependency sweep cancelled

A retry revives one job and re-opens, level by level, the jobs that were
cancelled because of it. The levels only mend rows: what is re-opened is ready
and stays so, and a job that is ready and yet left behind is
`maxReopenDepth + 1` links away from the retried one.
-/

namespace Spooled

open List

open Relation

namespace Db

variable {db db' db'' : Db} {now : Time} {i : JobId} {j j' : Job} {p : Job → Bool} {f : Job → Job}
  {org : OrgId}

/-! ## Levels -/

theorem waiting_not_broken {st : Status} (h : st.waiting = true) : st.broken = false := by
  cases st <;> first | rfl | cases h

theorem waiting_active {st : Status} (h : st.waiting = true) : st.active = true := by
  cases st <;> first | rfl | cases h

/-- What a retry does to the table: the same graph, each row left alone or revived. -/
structure Lifts (db db' : Db) : Prop extends SameGraph db db' where
  status : ∀ i j j', db.job i = some j → db'.job i = some j' →
    j' = j ∨ j.status.broken = true ∧ j'.status.waiting = true

theorem Lifts.refl (db : Db) : Lifts db db where
  toSameGraph := .refl db
  status _ _ _ hj hj' := .inl (Option.some.inj (hj'.symm.trans hj))

theorem Lifts.trans (h : Lifts db db') (h' : Lifts db' db'') : Lifts db db'' where
  toSameGraph := h.toSameGraph.trans h'.toSameGraph
  status i j j'' hj hj'' := by
    obtain ⟨j', hj', -⟩ := h.job hj
    rcases h.status i j j' hj hj' with rfl | ⟨hb, hw⟩
    · exact h'.status i j' j'' hj' hj''
    · rcases h'.status i j' j'' hj' hj'' with rfl | ⟨hb', -⟩
      · exact .inr ⟨hb, hw⟩
      · rw [waiting_not_broken hw] at hb'
        cases hb'

theorem Lifts.broken (h : Lifts db db') (d : JobId) (hd : db'.brokenAt d = true) :
    db.brokenAt d = true := by
  obtain ⟨x', hx', hb⟩ := (Option.any_eq_true _ _).1 hd
  obtain ⟨x, hx, -⟩ := h.symm.job hx'
  rw [brokenAt_of_job hx]
  rcases h.status d x x' hx hx' with rfl | ⟨hb', -⟩
  · exact hb
  · exact hb'

theorem lifts_setStatus (hf : ∀ j, p j = true → j.SameLinks (f j) ∧ j.status.broken = true ∧
    (f j).status.waiting = true) : Lifts db (db.setStatus now p f) := by
  have hrow : ∀ i, (db.setStatus now p f).job i =
      (db.job i).map fun j => if p j then j.written now f else j :=
    job_setStatus fun j _ hj => waiting_ne_completed (hf j hj).2.2
  refine ⟨.of_rows setStatus_edges hrow fun j hp => (hf j hp).1, fun i j j' hj hj' => ?_⟩
  rw [hrow, hj, Option.map_some, Option.some.injEq] at hj'
  split at hj'
  · next hp =>
    subst hj'
    exact .inr (hf j hp).2
  · exact .inl hj'.symm

theorem setStatus_workflows (hf : ∀ j, p j = true → (f j).status.waiting = true) :
    (db.setStatus now p f).workflows = db.workflows := by
  refine setStatus_rule (P := fun d => d.workflows = db.workflows) rfl (fun _ _ _ _ _ h => h)
    fun d j w _ hp _ hrest _ => ?_
  rw [waiting_active (hf j hp)] at hrest
  cases hrest

theorem reopenRow_waiting : (db.reopenRow now j).status.waiting = true := by
  simp only [reopenRow]
  split <;> rfl

theorem sweptAway_broken (h : sweptAway j = true) : j.status.broken = true := by
  simp only [sweptAway, Bool.and_eq_true, beq_iff_eq] at h
  rw [h.1]; rfl

theorem not_waiting_of_sweptAway (h : sweptAway j = true) : j.status.waiting = false := by
  by_contra hw
  have hb := sweptAway_broken h
  rw [waiting_not_broken (Bool.not_eq_false _ |>.mp hw)] at hb
  cases hb

theorem workflowIs_congr (h : db'.workflows = db.workflows) {st : WorkflowStatus} (x : Job) :
    db'.workflowIs st x = db.workflowIs st x := by
  have hw : db'.workflow = db.workflow := by
    funext w
    rw [workflow, h]
    rfl
  rw [workflowIs, hw]
  rfl

def reopenLevel (db : Db) (now : Time) (org : OrgId) (frontier : List JobId) : Db :=
  db.setStatus now (db.reopens org frontier) (db.reopenRow now)

theorem lifts_reopenLevel (db : Db) (now : Time) (org : OrgId) (frontier : List JobId) :
    Lifts db (db.reopenLevel now org frontier) := by
  refine lifts_setStatus fun j hj => ⟨⟨⟨rfl, rfl, rfl, rfl⟩, rfl, rfl⟩, ?_, reopenRow_waiting⟩
  simp only [reopens, Bool.and_eq_true] at hj
  exact sweptAway_broken hj.1.1.1.1.2

theorem reopenLevel_workflows (db : Db) (now : Time) (org : OrgId) (frontier : List JobId) :
    (db.reopenLevel now org frontier).workflows = db.workflows :=
  setStatus_workflows fun _ _ => reopenRow_waiting

theorem job_reopenLevel (db : Db) (now : Time) (org : OrgId) (frontier : List JobId) (i : JobId) :
    (db.reopenLevel now org frontier).job i = (db.job i).map fun j =>
      if db.reopens org frontier j then j.written now (db.reopenRow now) else j :=
  job_setStatus (fun _ _ _ => waiting_ne_completed reopenRow_waiting) i

def reopenedBy (db : Db) (org : OrgId) (frontier : List JobId) : List JobId :=
  (db.jobs.rows.filter (db.reopens org frontier)).map (·.id)

variable {frontier : List JobId} {m n : Nat} {r : JobId}

theorem mem_reopenedBy : i ∈ db.reopenedBy org frontier ↔
    ∃ j, db.job i = some j ∧ db.reopens org frontier j = true := by
  simp only [reopenedBy, mem_map, mem_filter]
  constructor
  · rintro ⟨j, ⟨hj, hr⟩, rfl⟩; exact ⟨j, job_of_mem hj, hr⟩
  · rintro ⟨j, hj, hr⟩; exact ⟨j, ⟨job_mem hj, hr⟩, job_id hj⟩

theorem Sound.walk_of_reopenedBy (S : db.Sound) {d : JobId}
    (hwalk : ∀ d ∈ frontier, Walk db.DependsOn m d r) (hd : d ∈ db.reopenedBy org frontier) :
    Walk db.DependsOn (m + 1) d r := by
  obtain ⟨x, hx, hrx⟩ := mem_reopenedBy.1 hd
  obtain ⟨-, -, ⟨e, he, hdep⟩, -⟩ := (S.reopens_iff hx).1 hrx
  exact .cons hdep (hwalk e he)

theorem job_reopenLevel_of_not (now : Time)
    (hr : db.reopens org frontier j = false) (hj : db.job i = some j) :
    (db.reopenLevel now org frontier).job i = some j := by
  rw [job_reopenLevel, hj, Option.map_some, hr]
  rfl

theorem reopenLevels_succ (n : Nat) (db : Db) (frontier : List JobId) :
    (reopenLevels now org (n + 1) db frontier).1 = if frontier.isEmpty then db else
      (reopenLevels now org n (db.reopenLevel now org frontier) (db.reopenedBy org frontier)).1 := by
  rw [reopenLevels]
  split <;> rfl

theorem lifts_reopenLevels (now : Time) (org : OrgId) (n : Nat) (db : Db) (frontier : List JobId) :
    Lifts db (reopenLevels now org n db frontier).1 :=
  reopenLevels_rel org Lifts.refl (fun _ _ _ => Lifts.trans)
    (fun d frontier => lifts_reopenLevel d now org frontier) n db frontier

/-- **Re-opened jobs are ready**, and stay so while the levels go on. -/
theorem reopenLevels_ready (S : db.Sound)
    (hj : db.job i = some j) (hj' : (reopenLevels now org n db frontier).1.job i = some j')
    (hne : j' ≠ j) : (reopenLevels now org n db frontier).1.Ready j' := by
  have hstill : db.job i ≠ some j' := fun h => hne (Option.some.inj (h.symm.trans hj))
  induction n generalizing db frontier with
  | zero => exact absurd hj' hstill
  | succ n ih =>
    rw [reopenLevels_succ] at hj' ⊢
    split at hj'
    · exact absurd hj' hstill
    · next hne =>
      rw [if_neg hne]
      have hl := lifts_reopenLevel db now org frontier
      cases hr : db.reopens org frontier j with
      | true =>
        have hall := hl.trans (lifts_reopenLevels now org n _ (db.reopenedBy org frontier))
        exact hall.ready hall.broken (hall.sameLinks hj hj')
          ((S.reopens_iff hj).1 hr).2.2.2.2
      | false =>
        have hj₁ := job_reopenLevel_of_not now hr hj
        refine ih (hl.sound S) hj₁ hj' ?_
        rw [hj₁, ← hj]
        exact hstill

/-- **What is left behind.** Let every ready cancelled job depend on the
frontier, and every job of the frontier be `m` links away from `r`. Then a job
that is ready and still cancelled after `n` levels is `m + n + 1` links away. -/
theorem reopenLevels_left (S : db.Sound)
    (hwalk : ∀ d ∈ frontier, Walk db.DependsOn m d r)
    (hfront : ∀ i j, db.job i = some j → sweptAway j = true → j.organizationId = org →
      db.workflowIs .cancelled j = false → db.Ready j → ∃ d ∈ frontier, db.DependsOn i d)
    (hj' : (reopenLevels now org n db frontier).1.job i = some j') (hs : sweptAway j' = true)
    (ho : j'.organizationId = org) (hw : db.workflowIs .cancelled j' = false)
    (hr : (reopenLevels now org n db frontier).1.Ready j') :
    Walk db.DependsOn (m + n + 1) i r := by
  induction n generalizing db frontier m with
  | zero =>
    obtain ⟨d, hd, hdep⟩ := hfront i j' hj' hs ho hw hr
    exact .cons hdep (hwalk d hd)
  | succ n ih =>
    rw [reopenLevels_succ] at hj' hr
    split at hj'
    · next hempty =>
      rw [if_pos hempty] at hr
      obtain ⟨d, hd, -⟩ := hfront i j' hj' hs ho hw hr
      rw [List.isEmpty_iff.1 hempty] at hd
      cases hd
    · next hne =>
      rw [if_neg hne] at hr
      have hl := lifts_reopenLevel db now org frontier
      have hwf : ∀ x : Job, (db.reopenLevel now org frontier).workflowIs .cancelled x =
          db.workflowIs .cancelled x := workflowIs_congr (reopenLevel_workflows db now org frontier)
      have hwalk' : ∀ d ∈ db.reopenedBy org frontier,
          Walk (db.reopenLevel now org frontier).DependsOn (m + 1) d r := by
        intro d hd
        exact (S.walk_of_reopenedBy hwalk hd).mono fun a b => hl.dependsOn
      have := ih (m := m + 1) (hl.sound S) hwalk' ?_ hj' (by rw [hwf]; exact hw) hr
      · rw [show m + (n + 1) + 1 = m + 1 + n + 1 by omega]
        exact this.mono fun a b => hl.symm.dependsOn
      · intro k x hx hsx hox hwx hrx
        rw [hwf] at hwx
        -- the row was there before the level and was not re-opened by it
        have hnot : ∀ d, d ∉ db.reopenedBy org frontier →
            (db.reopenLevel now org frontier).job d = db.job d := by
          intro d hd
          rw [job_reopenLevel]
          cases hy : db.job d with
          | none => rfl
          | some y =>
            have hno : db.reopens org frontier y = false := by
              by_contra h
              exact hd (mem_reopenedBy.2 ⟨y, hy, Bool.not_eq_false _ |>.mp h⟩)
            rw [Option.map_some, hno]
            rfl
        have hk : k ∉ db.reopenedBy org frontier := by
          intro hk
          obtain ⟨y, hy, hry⟩ := mem_reopenedBy.1 hk
          rw [job_reopenLevel, hy, Option.map_some, if_pos hry, Option.some.injEq] at hx
          subst hx
          have hno := not_waiting_of_sweptAway hsx
          rw [Job.written_status, reopenRow_waiting] at hno
          cases hno
        have hx₀ : db.job k = some x := by rw [← hnot k hk]; exact hx
        by_contra hno
        have hready : db.Ready x := by
          refine hl.ready_of_links hx₀ (fun d hd => ?_) hrx
          rw [brokenAt, hnot d fun hmem => hno ⟨d, hmem, hl.dependsOn hd⟩]
          rfl
        exact hk (mem_reopenedBy.2 ⟨x, hx₀, (S.reopens_iff hx₀).2
          ⟨hox, hsx, hfront k x hx₀ hsx hox hwx hready, hwx, hready⟩⟩)

theorem walk_of_reopenLevels (S : db.Sound)
    (hwalk : ∀ d ∈ frontier, Walk db.DependsOn m d r) (hj : db.job i = some j)
    (hj' : (reopenLevels now org n db frontier).1.job i = some j') (hne : j' ≠ j) :
    ∃ k, k ≤ m + n ∧ Walk db.DependsOn k i r := by
  have hstill : db.job i ≠ some j' := fun h => hne (Option.some.inj (h.symm.trans hj))
  induction n generalizing db frontier m with
  | zero => exact absurd hj' hstill
  | succ n ih =>
    rw [reopenLevels_succ] at hj'
    split at hj'
    · exact absurd hj' hstill
    · have hl := lifts_reopenLevel db now org frontier
      cases hr : db.reopens org frontier j with
      | true =>
        obtain ⟨-, -, ⟨d, hd, hdep⟩, -⟩ := (S.reopens_iff hj).1 hr
        exact ⟨m + 1, by omega, .cons hdep (hwalk d hd)⟩
      | false =>
        have hj₁ := (job_reopenLevel_of_not now hr hj)
        have hwalk' : ∀ d ∈ db.reopenedBy org frontier,
            Walk (db.reopenLevel now org frontier).DependsOn (m + 1) d r := by
          intro d hd
          exact (S.walk_of_reopenedBy hwalk hd).mono fun a b => hl.dependsOn
        obtain ⟨k, hk, hw⟩ := ih (hl.sound S) hwalk' hj₁ hj' (by rw [hj₁, ← hj]; exact hstill)
        exact ⟨k, by omega, hw.mono fun a b => hl.symm.dependsOn⟩

/-! ## The retry -/

theorem retryable_not_swept (h : db.retryable r org j = true) : sweptAway j = false := by
  simp only [retryable, Bool.and_eq_true] at h
  by_contra hs
  simp only [sweptAway, Bool.not_eq_false, Bool.and_eq_true, beq_iff_eq] at hs
  rw [hs.1] at h
  cases h.1.2

/-- The tables when `POST /jobs/{id}/retry` starts to re-open. -/
def revived (db : Db) (now : Time) (r : JobId) (org : OrgId) : Db :=
  (db.setStatus now (db.retryable r org) reviveRow).dropDeadLetters org [r]

theorem retryable_broken (h : db.retryable r org j = true) : j.status.broken = true := by
  simp only [retryable, Bool.and_eq_true] at h
  have := h.1.2
  cases hs : j.status <;> rw [hs] at this <;> first | rfl | cases this

theorem lifts_revived (db : Db) (now : Time) (r : JobId) (org : OrgId) :
    Lifts db (db.revived now r org) := by
  have h : Lifts db (db.setStatus now (db.retryable r org) reviveRow) :=
    lifts_setStatus fun j hj =>
      ⟨⟨⟨rfl, rfl, rfl, rfl⟩, rfl, rfl⟩, retryable_broken hj, rfl⟩
  exact ⟨⟨h.edges, h.row⟩, h.status⟩

theorem job_revived_ne (hi : i ≠ r) : (db.revived now r org).job i = db.job i := by
  have h : (db.revived now r org).job i = (db.job i).map fun j =>
      if db.retryable r org j then j.written now reviveRow else j :=
    job_setStatus (by simp) i
  rw [h]
  cases hj : db.job i with
  | none => rfl
  | some j =>
    have : db.retryable r org j = false := by
      rw [← Bool.not_eq_true]
      simp only [retryable, Bool.and_eq_true, beq_iff_eq, job_id hj]
      exact fun h => hi h.1.1.1
    rw [Option.map_some, this]
    rfl

theorem revived_workflows : (db.revived now r org).workflows = db.workflows :=
  setStatus_workflows fun _ _ => rfl

theorem reopenAround_eq (db : Db) (now : Time) (org : OrgId) (retried : List JobId) :
    ∃ ws, db.reopenAround now org retried =
      { (reopenLevels now org maxReopenDepth db retried).1 with workflows := ws } := by
  unfold reopenAround reopenCancelledDependents
  generalize reopenLevels now org maxReopenDepth db retried = x
  exact ⟨_, rfl⟩

theorem retryJob_cases (db : Db) (now : Time) (r : JobId) (org : OrgId) :
    (∀ x, db.job r = some x → db.retryable r org x = false) ∧ db.retryJob now r org = db ∨
    ∃ x ws, db.job r = some x ∧ db.retryable r org x = true ∧
      db.retryJob now r org =
        { (reopenLevels now org maxReopenDepth (db.revived now r org) [r]).1 with workflows := ws } := by
  by_cases h : db.jobs.rows.any (db.retryable r org) = true
  · right
    obtain ⟨x, hx, hr⟩ := any_eq_true.1 h
    have hid : x.id = r := by
      simp only [retryable, Bool.and_eq_true, beq_iff_eq] at hr
      exact hr.1.1.1
    obtain ⟨ws, hws⟩ := reopenAround_eq (db.revived now r org) now org [r]
    exact ⟨x, ws, hid ▸ job_of_mem hx, hr, by rw [retryJob, if_pos h]; exact hws⟩
  · refine .inl ⟨fun x hx => ?_, by rw [retryJob, if_neg h]⟩
    by_contra hne
    exact h (any_eq_true.2 ⟨x, job_mem hx, Bool.not_eq_false _ |>.mp hne⟩)

/-! ## A sweep with nothing to do -/

/-- Nothing left for the dependency sweep to recompute or cancel. -/
def atRest (db : Db) : Bool :=
  db.jobs.rows.all fun j => !(db.staleGate j || db.parentDooms j || db.edgesDoom j)

theorem dooms_eq (db : Db) (j : Job) :
    (db.parentDooms j || db.edgesDoom j) = (j.status.waiting && j.gateNotTrue && db.fails j) := by
  rw [parentDooms, edgesDoom, fails, ← Bool.and_or_distrib_left]

theorem setStatus_of_none (h : ∀ j ∈ db.jobs.rows, p j = false) : db.setStatus now p f = db := by
  have hnil : db.jobs.rows.filter p = [] :=
    filter_eq_nil_iff.2 fun j hj => by rw [h j hj]; exact Bool.false_ne_true
  rw [setStatus, hnil, foldl_nil]
  exact congrArg (fun t => { db with jobs := t }) (Table.update_of_none h)

theorem setStatus_of_loose (h : ∀ j ∈ db.jobs.rows, p j = true →
    (f j).status ≠ .completed ∧ (f j).workflowId = none) :
    db.setStatus now p f = db.setJobs now p f := by
  refine setStatus_rule (P := (· = db.setJobs now p f)) rfl
    (fun _ j hj hp hc _ => absurd hc (h j (job_mem hj) hp).1) fun d j w hj hp hw _ _ => ?_
  rw [(h j (job_mem hj) hp).2] at hw
  cases hw

/-- A sweep cancels nothing when no waiting job behind its gate fails, before or after the gates
of the children of completed parents are recomputed. -/
theorem status_updateJobDependencies (S : db.Sound)
    (hgate : ∀ i j, db.job i = some j → db.staleGate j = true → db.fails j = false)
    (hdoom : ∀ i j, db.job i = some j → (db.parentDooms j || db.edgesDoom j) = false) (i : JobId) :
    ((db.updateJobDependencies now).job i).map (·.status) = (db.job i).map (·.status) := by
  have hg : SameGraph db (db.recomputeCompletedParents now) := worsens_regate.toSameGraph
  have hrow : ∀ i, (db.recomputeCompletedParents now).job i = (db.job i).map fun j =>
      if db.staleGate j then j.written now fun j =>
        { j with dependenciesMet := some (db.checkJobDependenciesMet j.id) } else j := job_setJobs
  have hst : ∀ i, ((db.recomputeCompletedParents now).job i).map (·.status) =
      (db.job i).map (·.status) := by
    intro i
    rw [hrow]
    cases db.job i with
    | none => rfl
    | some j => simp only [Option.map_some]; split <;> rfl
  have hb : ∀ d, (db.recomputeCompletedParents now).brokenAt d = true → db.brokenAt d = true := by
    intro d hd
    have hmap : ∀ x : Db, x.brokenAt d = ((x.job d).map (·.status)).any Status.broken := by
      intro x
      rw [brokenAt, Option.any_map]
    rw [hmap] at hd ⊢
    rwa [hst] at hd
  -- after the recompute still nothing is doomed
  have hdoom₁ : ∀ j ∈ (db.recomputeCompletedParents now).jobs.rows,
      ((db.recomputeCompletedParents now).parentDooms j ||
        (db.recomputeCompletedParents now).edgesDoom j) = false := by
    intro j₁ hmem
    have hj₁ := job_of_mem hmem
    obtain ⟨j, hj, -⟩ := hg.symm.job hj₁
    have hback := hg.symm.fails_mono (hg.sound S) hb hj₁ hj
    have heq := hrow j₁.id
    rw [hj₁, hj, Option.map_some, Option.some.injEq] at heq
    rw [dooms_eq, Bool.and_eq_false_iff]
    split at heq
    · next hs =>
      right
      by_contra hf
      have := hback (Bool.not_eq_false _ |>.mp hf)
      rw [hgate _ j hj hs] at this
      cases this
    · subst heq
      have hno := hdoom _ j₁ hj
      rw [dooms_eq, Bool.and_eq_false_iff] at hno
      refine hno.imp id fun hf => ?_
      by_contra hne
      rw [hback (Bool.not_eq_false _ |>.mp hne)] at hf
      cases hf
  have h₁ : (db.recomputeCompletedParents now).cancelParentFailed now =
      db.recomputeCompletedParents now :=
    setStatus_of_none fun j hj => (Bool.or_eq_false_iff.1 (hdoom₁ j hj)).1
  have h₂ : cancelDependencyLoop now 10 (db.recomputeCompletedParents now) =
      db.recomputeCompletedParents now := by
    rw [cancelDependencyLoop, if_neg]
    rw [any_eq_true]
    rintro ⟨j, hj, he⟩
    rw [(Bool.or_eq_false_iff.1 (hdoom₁ j hj)).2] at he
    cases he
  rw [← hst]
  show ((cancelDependencyLoop now 10 ((db.recomputeCompletedParents now).cancelParentFailed now)
    |>.unblockOrphans now).job i).map (·.status) = _
  rw [h₁, h₂, unblockOrphans, job_setJobs]
  cases (db.recomputeCompletedParents now).job i with
  | none => rfl
  | some j => simp only [Option.map_some]; split <;> rfl

/-! ## What a retry re-opens -/

theorem lifts_retryJob (db : Db) (now : Time) (r : JobId) (org : OrgId) :
    Lifts db (db.retryJob now r org) := by
  rcases retryJob_cases db now r org with ⟨-, h⟩ | ⟨x, ws, -, -, h⟩
  · rw [h]; exact .refl db
  · have hl := (lifts_revived db now r org).trans
      (lifts_reopenLevels now org maxReopenDepth _ [r])
    rw [h]
    exact ⟨⟨hl.edges, hl.row⟩, hl.status⟩

theorem ready_retryJob (S : db.Sound) (hi : i ≠ r) (hj : db.job i = some j)
    (hj' : (db.retryJob now r org).job i = some j') (hne : j' ≠ j) :
    (db.retryJob now r org).Ready j' := by
  rcases retryJob_cases db now r org with ⟨-, h⟩ | ⟨x, ws, -, -, h⟩
  · rw [h, hj] at hj'
    exact absurd (Option.some.inj hj').symm hne
  · rw [h] at hj' ⊢
    have hready := reopenLevels_ready (n := maxReopenDepth) ((lifts_revived db now r org).sound S)
      ((job_revived_ne hi).trans hj) hj' hne
    exact ⟨hready.parent, hready.any, hready.all⟩

/-- No retry reaches further than `maxReopenDepth` links. -/
theorem walk_of_retryJob (S : db.Sound) (hi : i ≠ r) (hj : db.job i = some j)
    (hj' : (db.retryJob now r org).job i = some j') (hne : j' ≠ j) :
    ∃ k, k ≤ maxReopenDepth ∧ Walk db.DependsOn k i r := by
  rcases retryJob_cases db now r org with ⟨-, h⟩ | ⟨x, ws, -, -, h⟩
  · rw [h, hj] at hj'
    exact absurd (Option.some.inj hj').symm hne
  · rw [h] at hj'
    have hl := lifts_revived db now r org
    obtain ⟨k, hk, hw⟩ := walk_of_reopenLevels (m := 0) (hl.sound S)
      (fun d hd => by rw [mem_singleton.1 hd]; exact .nil r) ((job_revived_ne hi).trans hj) hj' hne
    exact ⟨k, by rw [Nat.zero_add] at hk; exact hk, hw.mono fun a b => hl.symm.dependsOn⟩

theorem brokenAt_retryJob (hj : db.job r = some j) (hr : db.retryable r org j = true) :
    (db.retryJob now r org).brokenAt r = false := by
  rcases retryJob_cases db now r org with ⟨h, -⟩ | ⟨x, ws, -, -, h⟩
  · rw [h j hj] at hr
    cases hr
  · rw [h]
    by_contra hb
    have hb₁ : (db.revived now r org).brokenAt r = true :=
      (lifts_reopenLevels now org maxReopenDepth _ [r]).broken r
        (Bool.not_eq_false _ |>.mp hb)
    have hrow : (db.revived now r org).job r = (db.job r).map fun j =>
        if db.retryable r org j then j.written now reviveRow else j := job_setStatus (by simp) r
    rw [brokenAt, hrow, hj, Option.map_some, if_pos hr] at hb₁
    cases hb₁

theorem walk_of_left_by_retryJob (S : db.Sound) (F : db.Fallen)
    (hj : db.job i = some j) (hs : sweptAway j = true) (hdep : TransGen db.DependsOn i r)
    (hw : db.workflowIs .cancelled j = false) (hj' : (db.retryJob now r org).job i = some j)
    (hr : (db.retryJob now r org).Ready j) : Walk db.DependsOn (maxReopenDepth + 1) i r := by
  rcases retryJob_cases db now r org with ⟨-, h⟩ | ⟨x, ws, hx, hrx, h⟩
  · rw [h] at hr
    have := hr.not_fails S hj
    rw [F i j hj hs] at this
    cases this
  · rw [h] at hj' hr
    have hl := lifts_revived db now r org
    have hwf : ∀ y : Job, (db.revived now r org).workflowIs .cancelled y =
        db.workflowIs .cancelled y := workflowIs_congr revived_workflows
    have horg : x.organizationId = org := by
      simp only [retryable, Bool.and_eq_true, beq_iff_eq] at hrx
      exact hrx.1.1.2
    have hwalk := reopenLevels_left (n := maxReopenDepth) (m := 0) (r := r) (hl.sound S)
      (fun d hd => by rw [mem_singleton.1 hd]; exact .nil r) ?_ hj' hs
      ((S.org_of_transGen hdep hj hx).symm.trans horg) (by rw [hwf]; exact hw)
      ⟨hr.parent, hr.any, hr.all⟩
    · rw [Nat.zero_add] at hwalk
      exact hwalk.mono fun a b => hl.symm.dependsOn
    · intro k y hy hsy hoy hwy hry
      by_contra hno
      have hk : k ≠ r := by
        rintro rfl
        rcases hl.status k x y hx hy with rfl | ⟨-, hwait⟩
        · exact absurd hsy (Bool.eq_false_iff.1 (retryable_not_swept hrx))
        · exact absurd hwait (Bool.eq_false_iff.1 (not_waiting_of_sweptAway hsy))
      rw [job_revived_ne hk] at hy
      have hready : db.Ready y := by
        refine hl.ready_of_links hy (fun d hd => ?_) hry
        have hne : d ≠ r := fun h => hno ⟨r, mem_singleton.2 rfl, h ▸ hl.dependsOn hd⟩
        rw [brokenAt, job_revived_ne hne]
        rfl
      have := hready.not_fails S hy
      rw [F k y hy hsy] at this
      cases this

theorem Lifts.checkView (h : Lifts db db') (i : JobId) : db'.checkView i = db.checkView i := by
  unfold Db.checkView
  have hr := h.row i
  cases hj : db.job i with
  | none =>
    rw [hj] at hr
    generalize db'.job i = b at hr
    cases hr
    rfl
  | some j =>
    obtain ⟨j', hj', hl⟩ := h.job hj
    rw [hj', Option.map_some, Option.map_some, hl.dependencyMode]
    rcases h.status i j j' hj hj' with rfl | ⟨hb, hw⟩
    · rfl
    · have h₁ : (j'.status == .completed) = false :=
        beq_eq_false_iff_ne.2 (waiting_ne_completed hw)
      have h₂ : (j.status == .completed) = false := by
        cases hs : j.status <;> rw [hs] at hb <;> first | rfl | cases hb
      rw [h₁, h₂]

theorem Lifts.staleGate (h : Lifts db db') (j : Job) : db'.staleGate j = db.staleGate j := by
  have hp : db'.parentIs (· == .completed) j = db.parentIs (· == .completed) j := by
    cases hq : j.parentJobId with
    | none => simp [parentIs, hq]
    | some q =>
      simp only [parentIs, hq, Option.bind_some]
      cases hr : db.job q with
      | none =>
        have hrow := h.row q
        rw [hr] at hrow
        generalize db'.job q = b at hrow ⊢
        cases hrow
        rfl
      | some r =>
        obtain ⟨r', hr', hl⟩ := h.job hr
        have hv := h.checkView q
        simp only [Db.checkView, hr, hr', Option.map_some, Option.some.injEq, Prod.mk.injEq] at hv
        rw [hr', Option.any_some, Option.any_some, hl.organizationId, hv.1]
  rw [Db.staleGate, Db.staleGate, hp, checkJobDependenciesMet_congr h.edges h.checkView, hasEdges,
    h.edges]
  rfl

end Db

/-- **Re-opening undoes a cascade.** Let dead-letterings and sweeps lead to a
state in which the sweep has nothing left to do, and retry a job there. No
re-opened job satisfies a cancel predicate. If the retried job itself has no
failed dependency, the next sweep cancels nothing. And every job cancelled for
a failed dependency that depends on the retried one, is in no cancelled
workflow and fails no more is re-opened, if no chain of `maxReopenDepth + 1`
links leads to the retried job; a job in mode `any` must also have an edge and
no failed parent. -/
theorem reopen_inverts_cascade {cfg : Config} {db₀ db : Db} (S₀ : db₀.Sound) (F₀ : db₀.Fallen)
    (hc : ReflTransGen (Cascade cfg) db₀ db) (hrest : db.atRest = true) (now : Time) (r : JobId)
    (org : OrgId) :
    let db' := db.retryJob now r org
    (∀ i j j', db.job i = some j → Db.sweptAway j = true → db'.job i = some j' →
      j'.status.waiting = true → db'.parentDooms j' = false ∧ db'.edgesDoom j' = false) ∧
    ((∀ x, db'.job r = some x → db'.fails x = false) → ∀ later i,
      ((db'.updateJobDependencies later).job i).map (·.status) = (db'.job i).map (·.status)) ∧
    ∀ i j j', db.job i = some j → Db.sweptAway j = true → TransGen db.DependsOn i r →
      db.workflowIs .cancelled j = false → db'.job i = some j' → db'.fails j' = false →
      (j'.dependencyMode = .any → db'.hasEdges i = true ∧
        ∀ q, j'.parentJobId = some q → db'.brokenAt q = false) →
      ¬ Walk db.DependsOn (Db.maxReopenDepth + 1) i r → j'.status.waiting = true := by
  obtain ⟨S, F⟩ := Cascade.run hc S₀ F₀
  have hl := Db.lifts_retryJob db now r org
  have S' := hl.sound S
  have hidle : ∀ i j, db.job i = some j →
      db.staleGate j = false ∧ (db.parentDooms j || db.edgesDoom j) = false := by
    intro i j hj
    have := all_eq_true.1 hrest j (Db.job_mem hj)
    rw [Bool.not_eq_true', Bool.or_assoc, Bool.or_eq_false_iff] at this
    exact this
  intro db'
  refine ⟨fun i j j' hj hs hj' hw => ?_, fun hr later => ?_, ?_⟩
  · have hne : j' ≠ j := by
      rintro rfl
      exact absurd hw (Bool.eq_false_iff.1 (Db.not_waiting_of_sweptAway hs))
    have hi : i ≠ r := by
      rintro rfl
      rcases Db.retryJob_cases db now i org with ⟨-, h⟩ | ⟨x, ws, hx, hrx, -⟩
      · rw [show db' = db from h, hj] at hj'
        exact hne (Option.some.inj hj').symm
      · obtain rfl := Option.some.inj (hj.symm.trans hx)
        exact absurd hs (Bool.eq_false_iff.1 (Db.retryable_not_swept hrx))
    have hf := (Db.ready_retryJob S hi hj hj' hne).not_fails S' hj'
    rw [← Bool.or_eq_false_iff, Db.dooms_eq, hf, Bool.and_false]
  · -- a row of the new table fails no more, or it is a row of the old one
    have key : ∀ i j', db'.job i = some j' → db'.fails j' = false ∨ db.job i = some j' := by
      intro i j' hj'
      obtain ⟨j, hj, -⟩ := hl.symm.job hj'
      by_cases hi : i = r
      · subst hi
        exact .inl (hr j' hj')
      · by_cases hne : j' = j
        · exact .inr (hne ▸ hj)
        · exact .inl ((Db.ready_retryJob S hi hj hj' hne).not_fails S' hj')
    refine Db.status_updateJobDependencies S' (fun i j' hj' hstale => ?_) fun i j' hj' => ?_
    · rcases key i j' hj' with hf | hj
      · exact hf
      · rw [hl.staleGate, (hidle i j' hj).1] at hstale
        cases hstale
    · rw [Db.dooms_eq, Bool.and_eq_false_iff]
      rcases key i j' hj' with hf | hj
      · exact .inr hf
      · have hno := (hidle i j' hj).2
        rw [Db.dooms_eq, Bool.and_eq_false_iff] at hno
        refine hno.imp id fun hf => ?_
        by_contra hne
        rw [hl.symm.fails_mono S' hl.broken hj' hj (Bool.not_eq_false _ |>.mp hne)] at hf
        cases hf
  · intro i j j' hj hs hdep hw hj' hf hany hfar
    rcases hl.status i j j' hj hj' with rfl | ⟨-, hwait⟩
    · exact absurd (Db.walk_of_left_by_retryJob S F hj hs hdep hw hj'
        (Db.ready_of_not_fails S' hj' hf hany)) hfar
    · exact hwait

/-! ## How deep -/

/-- Job `i` of a chain: each job is the child of the one before, the first is
dead-lettered and `k` of its descendants are cancelled. -/
def chainJob (k i : JobId) : Job where
  id := i
  organizationId := 1
  queueName := "q"
  status := if i = 0 then .deadletter else if i ≤ k then .cancelled else .pending
  maxRetries := 0
  createdAt := 0
  updatedAt := 0
  parentJobId := if i = 0 then none else some (i - 1)
  dependenciesMet := some (i == 0)
  lastError := if i = 0 then none else if i ≤ k then some Db.parentFailedCancelReason else none
  completedAt := if i = 0 then none else if i ≤ k then some 0 else none

/-- The chain of `n` descendants. -/
def chain (n k : Nat) : Db where
  jobs :=
    { rows := (List.range (n + 1)).map (chainJob k)
      nodup := by
        rw [List.map_map]
        exact (map_id _).symm ▸ nodup_range }

section Chain

variable {n k : Nat} {i : JobId} {j : Job}

theorem job_chain : (chain n k).job i = some j ↔ i ≤ n ∧ j = chainJob k i := by
  show (chain n k).jobs.find i = some j ↔ _
  rw [Table.find_eq_some]
  show j ∈ (List.range (n + 1)).map (chainJob k) ∧ j.id = i ↔ _
  rw [mem_map]
  constructor
  · rintro ⟨⟨m, hm, rfl⟩, rfl⟩
    exact ⟨Nat.lt_succ_iff.1 (mem_range.1 hm), rfl⟩
  · rintro ⟨hi, rfl⟩
    exact ⟨⟨i, mem_range.2 (Nat.lt_succ_iff.2 hi), rfl⟩, rfl⟩

theorem dependsOn_chain {a b : JobId} : (chain n k).DependsOn a b ↔ a ≤ n ∧ a = b + 1 := by
  constructor
  · rintro (he | ⟨j, hj, hq⟩)
    · cases he
    · obtain ⟨ha, rfl⟩ := job_chain.1 hj
      simp only [chainJob] at hq
      split at hq
      · cases hq
      · next h0 =>
        have hab : a - 1 = b := Option.some.inj hq
        have key : ∀ a b : Nat, ¬ a = 0 → a - 1 = b → a = b + 1 := by intros; omega
        exact ⟨ha, key a b h0 hab⟩
  · rintro ⟨ha, rfl⟩
    exact .inr ⟨_, job_chain.2 ⟨ha, rfl⟩, rfl⟩

theorem walk_chain {m : Nat} {a b : JobId} (h : Walk (chain n k).DependsOn m a b) : a = b + m := by
  induction h with
  | nil a => rfl
  | cons h _ ih =>
    rw [(dependsOn_chain.1 h).2, ih]
    rfl

theorem transGen_chain {m : Nat} (hm : m + 1 ≤ n) :
    TransGen (chain n k).DependsOn (m + 1) 0 := by
  induction m with
  | zero => exact .single (dependsOn_chain.2 ⟨hm, rfl⟩)
  | succ m ih => exact .head (dependsOn_chain.2 ⟨hm, rfl⟩) (ih (Nat.le_of_succ_le hm))

theorem sound_chain : (chain n k).Sound where
  edge e he := by cases he
  parent i j q hj hq := by
    have hdep : (chain n k).DependsOn i q := .inr ⟨j, hj, hq⟩
    obtain ⟨hi, rfl⟩ := dependsOn_chain.1 hdep
    obtain ⟨-, rfl⟩ := job_chain.1 hj
    exact ⟨_, job_chain.2 ⟨Nat.le_of_succ_le hi, rfl⟩, rfl⟩
  workflow i j hj hw := by
    obtain ⟨-, rfl⟩ := job_chain.1 hj
    exact absurd rfl hw

theorem not_sweptAway_chain (hj : (chain n 0).job i = some j) : Db.sweptAway j = false := by
  obtain ⟨-, rfl⟩ := job_chain.1 hj
  simp only [Db.sweptAway, chainJob]
  split
  · rfl
  · next h0 => rw [if_neg fun h => h0 (Nat.le_zero.1 h)]; rfl

theorem fallen_chain : (chain n 0).Fallen := by
  intro i j hj hs
  rw [not_sweptAway_chain hj] at hs
  cases hs

theorem brokenAt_chain (hi : i ≤ n) : (chain n k).brokenAt i = decide (i ≤ k) := by
  rw [Db.brokenAt_of_job (job_chain.2 ⟨hi, rfl⟩)]
  simp only [chainJob]
  split
  · next h0 => rw [h0, decide_eq_true (Nat.zero_le k)]; rfl
  · split
    · next hk => rw [decide_eq_true hk]; rfl
    · next hk => rw [decide_eq_false hk]; rfl

theorem parentDooms_chain (hi : i ≤ n) :
    (chain n k).parentDooms (chainJob k i) = true ↔ i = k + 1 := by
  have hj : (chain n k).job i = some (chainJob k i) := job_chain.2 ⟨hi, rfl⟩
  rw [Db.parentDooms, Bool.and_eq_true, Bool.and_eq_true, sound_chain.parentFails_iff hj]
  constructor
  · rintro ⟨⟨hw, -⟩, q, hq, hb, -⟩
    have hdep : (chain n k).DependsOn i q := .inr ⟨_, hj, hq⟩
    obtain ⟨-, rfl⟩ := dependsOn_chain.1 hdep
    rw [brokenAt_chain (Nat.le_of_succ_le hi), decide_eq_true_eq] at hb
    have hk : ¬ q + 1 ≤ k := by
      intro hk
      simp only [chainJob, if_neg (Nat.succ_ne_zero q), if_pos hk] at hw
      cases hw
    rw [Nat.le_antisymm hb (Nat.le_of_lt_succ (Nat.lt_of_not_le hk))]
  · rintro rfl
    have hst : (chainJob k (k + 1)).status = .pending := by
      simp only [chainJob, if_neg (Nat.succ_ne_zero k), if_neg (Nat.not_succ_le_self k)]
    refine ⟨⟨by rw [hst]; rfl, rfl⟩, k, rfl, ?_, fun hm => by cases hm⟩
    rw [brokenAt_chain (Nat.le_of_succ_le hi), decide_eq_true (Nat.le_refl k)]

theorem cancelParentFailed_chain : (chain n k).cancelParentFailed 0 = chain n (k + 1) := by
  have hloose : (chain n k).cancelParentFailed 0 = (chain n k).setJobs 0 (chain n k).parentDooms
      (Db.cancelRow 0 (some Db.parentFailedCancelReason)) := by
    unfold Db.cancelParentFailed Db.cancelWhere
    refine Db.setStatus_of_loose fun j hj _ => ⟨by simp, ?_⟩
    obtain ⟨i, -, rfl⟩ := mem_map.1 hj
    rfl
  rw [hloose]
  have hrows : ∀ i ≤ n, (if (chain n k).parentDooms (chainJob k i) then
      (chainJob k i).written 0 (Db.cancelRow 0 (some Db.parentFailedCancelReason))
      else chainJob k i) = chainJob (k + 1) i := by
    intro i hi
    split
    · next h =>
      obtain rfl := (parentDooms_chain hi).1 h
      simp only [chainJob, Job.written, Db.cancelRow, if_neg (Nat.succ_ne_zero k),
        if_pos (Nat.le_refl (k + 1))]
    · next h =>
      have hne : i ≠ k + 1 := fun he => h ((parentDooms_chain hi).2 he)
      have hiff : i ≤ k + 1 ↔ i ≤ k :=
        ⟨fun h => Nat.lt_succ_iff.1 (Nat.lt_of_le_of_ne h hne), Nat.le_succ_of_le⟩
      simp only [chainJob, hiff]
  have htable : (chain n k).jobs.update (chain n k).parentDooms
      (Job.written 0 (Db.cancelRow 0 (some Db.parentFailedCancelReason))) (fun _ => rfl) =
      (chain n (k + 1)).jobs := by
    refine Table.eq_of_rows ?_
    show List.map _ (List.map (chainJob k) (List.range (n + 1))) = List.map _ _
    rw [List.map_map]
    exact map_congr_left fun i hi => hrows i (Nat.lt_succ_iff.1 (mem_range.1 hi))
  exact congrArg (fun t => { chain n k with jobs := t }) htable

theorem cascade_chain : ReflTransGen (Cascade {}) (chain n 0) (chain n k) := by
  induction k with
  | zero => exact .refl
  | succ k ih => exact ih.tail ⟨0, .cancelParentFailed, rfl, cancelParentFailed_chain.symm⟩

theorem atRest_chain : (chain n n).atRest = true := by
  refine all_eq_true.2 fun j hj => ?_
  obtain ⟨i, hi, rfl⟩ := mem_map.1 hj
  have hi : i ≤ n := Nat.lt_succ_iff.1 (mem_range.1 hi)
  have hw : (chainJob n i).status.waiting = false := by
    simp only [chainJob, if_pos hi]
    split <;> rfl
  simp only [Db.staleGate, Db.parentDooms, Db.edgesDoom, hw, Bool.false_and, Bool.or_self,
    Bool.not_false]

theorem sweptAway_chain (h0 : i ≠ 0) (hi : i ≤ k) : Db.sweptAway (chainJob k i) = true := by
  simp only [Db.sweptAway, chainJob, if_neg h0, if_pos hi]
  decide

theorem ready_retry_chain {db : Db} (hl : Db.Lifts (chain n n) db) (h : db.brokenAt i = false) :
    db.Ready (chainJob n (i + 1)) := by
  refine ⟨fun q hq => ?_, fun hm => (by cases hm), fun _ d he => ?_⟩
  · obtain rfl : i = q := Option.some.inj hq
    exact h
  · rw [hl.hasEdge] at he
    cases he

theorem brokenAt_retry_chain (hi : i ≤ n) :
    ((chain n n).retryJob 0 0 1).brokenAt i = decide (Db.maxReopenDepth < i) := by
  have hl := Db.lifts_retryJob (chain n n) 0 0 1
  have hfirst : ((chain n n).retryJob 0 0 1).brokenAt 0 = false :=
    Db.brokenAt_retryJob (job_chain.2 ⟨Nat.zero_le n, rfl⟩) rfl
  induction i with
  | zero => rw [hfirst]; rfl
  | succ i ih =>
    have hj : (chain n n).job (i + 1) = some (chainJob n (i + 1)) := job_chain.2 ⟨hi, rfl⟩
    have hs := sweptAway_chain (Nat.succ_ne_zero i) hi
    obtain ⟨j', hj', hlinks⟩ := hl.job hj
    rw [Db.brokenAt_of_job hj']
    by_cases hne : j' = chainJob n (i + 1)
    · -- left behind with its parent re-opened: too far away
      rw [hne, Db.sweptAway_broken hs, eq_comm, decide_eq_true_eq]
      by_contra hnear
      have hready : ((chain n n).retryJob 0 0 1).Ready (chainJob n (i + 1)) := by
        refine ready_retry_chain hl ?_
        rw [ih (Nat.le_of_succ_le hi)]
        exact decide_eq_false fun h => hnear (Nat.lt_succ_of_lt h)
      have hwalk := Db.walk_of_left_by_retryJob sound_chain
        (Cascade.run cascade_chain sound_chain fallen_chain).2 hj hs (transGen_chain hi) rfl
        (hne ▸ hj') hready
      have heq : i + 1 = 0 + (Db.maxReopenDepth + 1) := walk_chain hwalk
      omega
    · obtain ⟨k, hk, hw⟩ := Db.walk_of_retryJob sound_chain (Nat.succ_ne_zero i) hj hj' hne
      have heq : i + 1 = 0 + k := walk_chain hw
      have hlt : ¬ Db.maxReopenDepth < i + 1 := by omega
      rw [decide_eq_false hlt]
      rcases hl.status _ _ j' hj hj' with rfl | ⟨-, hwait⟩
      · exact absurd rfl hne
      · exact Db.waiting_not_broken hwait

end Chain

/-- A chain of two descendants: the second is re-opened with the first. -/
theorem reopen_inverts_cascade_chain : ∃ j', ((chain 2 2).retryJob 0 0 1).job 2 = some j' ∧
    j'.status.waiting = true ∧ ((chain 2 2).retryJob 0 0 1).parentDooms j' = false ∧
    ∀ later i, ((((chain 2 2).retryJob 0 0 1).updateJobDependencies later).job i).map (·.status) =
      (((chain 2 2).retryJob 0 0 1).job i).map (·.status) := by
  obtain ⟨hkeep, hquiet, hback⟩ :=
    reopen_inverts_cascade sound_chain fallen_chain cascade_chain (atRest_chain (n := 2)) 0 0 1
  have hj : (chain 2 2).job 2 = some (chainJob 2 2) := rfl
  have hs : Db.sweptAway (chainJob 2 2) = true := by decide
  have hj' : ((chain 2 2).retryJob 0 0 1).job 2 = some _ := rfl
  have hw := hback 2 _ _ hj hs (transGen_chain (Nat.le_refl 2)) rfl hj' (by decide)
    (fun h => by cases h) fun h => absurd (walk_chain h) (by decide)
  exact ⟨_, hj', hw, (hkeep 2 _ _ hj hs hj' hw).1, hquiet fun x hx => by cases hx; decide⟩

/-- A chain of 101 descendants: the last one depends on a re-opened job only and stays cancelled. -/
theorem reopen_depth_exceeded : (chain 101 0).Sound ∧
    (∀ i j, (chain 101 0).job i = some j → Db.sweptAway j = false) ∧
    ReflTransGen (Cascade {}) (chain 101 0) (chain 101 101) ∧ (chain 101 101).atRest = true ∧
    ∃ j j', (chain 101 101).job 101 = some j ∧ Db.sweptAway j = true ∧
      TransGen (chain 101 101).DependsOn 101 0 ∧ (chain 101 101).workflowIs .cancelled j = false ∧
      ((chain 101 101).retryJob 0 0 1).job 101 = some j' ∧
      ((chain 101 101).retryJob 0 0 1).fails j' = false ∧ j'.status = .cancelled := by
  refine ⟨sound_chain, fun i j => not_sweptAway_chain, cascade_chain, atRest_chain, ?_⟩
  have hj : (chain 101 101).job 101 = some (chainJob 101 101) := job_chain.2 ⟨Nat.le_refl _, rfl⟩
  have hl := Db.lifts_retryJob (chain 101 101) 0 0 1
  obtain ⟨j', hj', -⟩ := hl.job hj
  have hb : j'.status.broken = true := by
    rw [← Db.brokenAt_of_job hj', brokenAt_retry_chain (Nat.le_refl 101)]
    rfl
  obtain rfl : j' = chainJob 101 101 := by
    rcases hl.status _ _ j' hj hj' with h | ⟨-, hw⟩
    · exact h
    · rw [Db.waiting_not_broken hw] at hb
      cases hb
  have hready : ((chain 101 101).retryJob 0 0 1).Ready (chainJob 101 101) := by
    refine ready_retry_chain hl ?_
    rw [brokenAt_retry_chain (by decide)]
    rfl
  exact ⟨_, _, hj, sweptAway_chain (by decide) (Nat.le_refl _), transGen_chain (Nat.le_refl _), rfl,
    hj', hready.not_fails (hl.sound sound_chain) hj', rfl⟩

end Spooled
