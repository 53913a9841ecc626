import Spooled.Dependency.Reopen
import Mathlib

/-!
# The bulk retry of the dead-letter queue

`POST /jobs/dlq/retry` under the plan's `max_workflows`. It picks, oldest first,
the dead-lettered jobs of its scope whose workflows fit under the cap, resets
them, re-opens what was cancelled because of them, and revives the failed
workflows of all these jobs. The cap is asked twice: for the pick, which looks at
the dead-lettered steps alone, and for the revival, which also counts the
workflows of the re-opened jobs.
-/

namespace Spooled

open List

/-- `DlqScope`: the named ids, else one queue, else everything. -/
inductive DlqScope
  | ids (jobs : List JobId)
  | queue (name : String)
  | all

def DlqScope.contains : DlqScope → Job → Bool
  | .ids jobs, j => decide (j.id ∈ jobs)
  | .queue name, j => j.queueName == name
  | .all, _ => true

structure RetryDlqResponse where
  retriedCount : Nat
  retriedJobs : List JobId
  skippedJobs : List JobId
deriving DecidableEq, Repr

/-- `ORDER BY created_at ASC, id`. -/
def Job.byAge (j j' : Job) : Prop :=
  j.createdAt < j'.createdAt ∨ j.createdAt = j'.createdAt ∧ j.id ≤ j'.id

instance : DecidableRel Job.byAge := fun j j' =>
  inferInstanceAs (Decidable (j.createdAt < j'.createdAt ∨ j.createdAt = j'.createdAt ∧ j.id ≤ j'.id))

namespace Db

/-! ## The workflow cap -/

variable (db : Db) (now : Time) (org : OrgId) (scope : DlqScope) (cap : Option Nat)

/-- `get_org_resource_counts`, the column `workflows`. -/
def liveWorkflowCount : Nat :=
  db.workflows.rows.countP fun w => w.organizationId == org && w.status.live

/-- `check_resource_limit_conn(…, "workflows", adding)`; a cap of 0 disables workflows. -/
def workflowLimitAllows (adding : Nat) : Bool :=
  cap.all fun max => max != 0 && decide (db.liveWorkflowCount org + adding ≤ max)

/-- `resource_room_conn(…, "workflows")`: `none` is unlimited. -/
def workflowRoom : Option Nat :=
  cap.map fun max => if max = 0 then 0 else max - db.liveWorkflowCount org

/-! ## The pick -/

/-- `DlqScope::push_from`: the dead-lettered jobs of the scope. -/
def dlqJobs : List Job :=
  db.jobs.rows.filter fun j => j.status == .deadletter && j.organizationId == org && scope.contains j

def failedOutside (ws : List WorkflowId) (j : Job) : Bool :=
  db.ownWorkflowIs .failed j && !j.workflowId.any (· ∈ ws)

/-- `MIN(j.created_at)` over the steps of a workflow in the scope. -/
def oldestStep (w : WorkflowId) : Option Time :=
  (((db.dlqJobs org scope).filter (·.workflowId == some w)).map (·.createdAt)).min?

/-- `ORDER BY MIN(j.created_at), w.id`. -/
def byOldestStep (w w' : Workflow) : Prop :=
  (db.oldestStep org scope w.id).getD 0 < (db.oldestStep org scope w'.id).getD 0 ∨
    (db.oldestStep org scope w.id).getD 0 = (db.oldestStep org scope w'.id).getD 0 ∧ w.id ≤ w'.id

instance (db : Db) (org : OrgId) (scope : DlqScope) : DecidableRel (db.byOldestStep org scope) :=
  fun w w' => inferInstanceAs (Decidable
    ((db.oldestStep org scope w.id).getD 0 < (db.oldestStep org scope w'.id).getD 0 ∨
      (db.oldestStep org scope w.id).getD 0 = (db.oldestStep org scope w'.id).getD 0 ∧ w.id ≤ w'.id))

/-- `revivable_dlq_workflows`. -/
def revivableDlqWorkflows (room : Nat) :
    List WorkflowId :=
  let failed := db.workflows.rows.filter fun w =>
    w.organizationId == org && w.status == .failed && (db.oldestStep org scope w.id).isSome
  ((failed.insertionSort (db.byOldestStep org scope)).take room).map (·.id)

/-- What the pick leaves out: steps of cancelled workflows, and of failed ones that do not fit. -/
def dlqEligible (revivable : Option (List WorkflowId)) (j : Job) : Bool :=
  (revivable.all fun ws => !db.failedOutside ws j) && !db.ownWorkflowIs .cancelled j

def dlqPick (limit : Nat)
    (revivable : Option (List WorkflowId)) : List JobId :=
  ((((db.dlqJobs org scope).filter (db.dlqEligible revivable)).insertionSort Job.byAge).take
    limit).map (·.id)

/-- `dlq_jobs_held_by_the_workflow_cap`. -/
def dlqHeld (ws : List WorkflowId) (limit : Nat) :
    List JobId :=
  ((((db.dlqJobs org scope).filter (db.failedOutside ws)).insertionSort Job.byAge).take
    limit).map (·.id)

/-! ## The request -/

/-- The failed workflows that `reopen_workflows` finds for the revived jobs. -/
def failedWorkflowsOf (revived : List JobId) : List Workflow :=
  db.workflows.rows.filter fun w => w.organizationId == org && w.status == .failed &&
    db.jobs.rows.any fun j =>
      j.organizationId == org && decide (j.id ∈ revived) && j.workflowId == some w.id

/-- `revivable`: what the pick may revive; `none` is everything. -/
def dlqRevivable :
    Option (List WorkflowId) :=
  (db.workflowRoom org cap).map (db.revivableDlqWorkflows org scope)

def dlqReset (ids : List JobId) : Db :=
  db.setStatus now (db.dlqRetryable org (· ∈ ids)) reviveRow

/-- `skipped_jobs`. -/
def dlqSkipped (limit : Nat)
    (revivable : Option (List WorkflowId)) : List JobId :=
  (revivable.map fun ws => db.dlqHeld org scope ws limit).getD []

def dlqGated (ids : List JobId) : Db :=
  if ids.isEmpty then db else (db.dropDeadLetters org ids).resetChildren now org ids

/-- The tables and the ids after `reopen_cancelled_dependents`. -/
def dlqOpened (ids : List JobId) : Db × List JobId :=
  ((db.dlqReset now org ids).dlqGated now org ids).reopenCancelledDependents now org ids

/-- The transaction of `retry_dlq`, past the scope and active-jobs checks; `none` is
`LimitExceeded`, which rolls back. -/
def retryDlqRequest (limit : Nat)
    (cap : Option Nat) : Option (Db × RetryDlqResponse) :=
  let revivable := db.dlqRevivable org scope cap
  let ids := db.dlqPick org scope limit revivable
  let reset := db.dlqReset now org ids
  let skipped := reset.dlqSkipped org scope limit revivable
  let opened := db.dlqOpened now org ids
  let reviving := (opened.1.failedWorkflowsOf org (ids ++ opened.2)).length
  if !skipped.isEmpty && ids.isEmpty && !reset.workflowLimitAllows org cap 1 then none
  else if decide (0 < reviving) && !opened.1.workflowLimitAllows org cap reviving then none
  else some (opened.1.reopenWorkflows org (ids ++ opened.2), ⟨ids.length, ids, skipped⟩)

variable {db db' : Db} {now : Time} {org : OrgId} {scope : DlqScope} {limit room : Nat}
  {cap : Option Nat} {ws : List WorkflowId} {revivable : Option (List WorkflowId)} {i : JobId}
  {j : Job}

/-! ## What is picked -/

theorem mem_dlqJobs : j ∈ db.dlqJobs org scope ↔ j ∈ db.jobs.rows ∧ j.status = .deadletter ∧
    j.organizationId = org ∧ scope.contains j = true := by
  simp only [dlqJobs, mem_filter, Bool.and_eq_true, beq_iff_eq, and_assoc]

theorem of_mem_dlqPick (h : i ∈ db.dlqPick org scope limit revivable) :
    ∃ j ∈ db.dlqJobs org scope, j.id = i ∧ db.dlqEligible revivable j = true := by
  obtain ⟨j, hj, rfl⟩ := mem_map.1 h
  have hj := mem_insertionSort _ |>.1 (mem_of_mem_take hj)
  obtain ⟨hj, he⟩ := mem_filter.1 hj
  exact ⟨j, hj, rfl, he⟩

theorem length_dlqPick_le : (db.dlqPick org scope limit revivable).length ≤ limit := by
  unfold dlqPick
  rw [length_map, length_take]
  exact Nat.min_le_left _ _

theorem not_eligible_of_dlqPick (hlimit : 0 < limit)
    (h : db.dlqPick org scope limit revivable = []) (hj : j ∈ db.dlqJobs org scope) :
    db.dlqEligible revivable j = false := by
  by_contra hne
  have hmem : j ∈ ((db.dlqJobs org scope).filter (db.dlqEligible revivable)).insertionSort
      Job.byAge := (mem_insertionSort _).2 (mem_filter.2 ⟨hj, Bool.not_eq_false _ |>.mp hne⟩)
  unfold dlqPick at h
  rw [map_eq_nil_iff, take_eq_nil_iff] at h
  rcases h with h | h
  · omega
  · rw [h] at hmem
    cases hmem

variable {ids : List JobId}

theorem job_dlqReset (now : Time) (hj : db.job i = some j)
    (hr : db.dlqRetryable org (· ∈ ids) j = true) :
    ∃ j', (db.dlqReset now org ids).job i = some j' ∧
      j'.status = .pending :=
  status_setStatus hj hr

theorem dlqRetryable_of_pick (h : i ∈ db.dlqPick org scope limit revivable) :
    ∃ j, db.job i = some j ∧ j.organizationId = org ∧
      db.dlqRetryable org (· ∈ db.dlqPick org scope limit revivable) j = true ∧
      db.dlqEligible revivable j = true := by
  obtain ⟨j, hj, rfl, he⟩ := of_mem_dlqPick h
  obtain ⟨hmem, hs, ho, -⟩ := mem_dlqJobs.1 hj
  have hc : db.ownWorkflowIs .cancelled j = false := by
    simp only [dlqEligible, Bool.and_eq_true, Bool.not_eq_true'] at he
    exact he.2
  refine ⟨j, job_of_mem hmem, ho, ?_, he⟩
  simp only [dlqRetryable, Bool.and_eq_true, beq_iff_eq, decide_eq_true_eq, Bool.not_eq_true']
  exact ⟨⟨⟨ho, hs⟩, hc⟩, h⟩

theorem of_mem_dlqSkipped (h : i ∈ db.dlqSkipped org scope limit revivable) :
    ∃ j, db.job i = some j ∧ j.status = .deadletter := by
  cases revivable with
  | none => cases h
  | some ws =>
    obtain ⟨j, hj, rfl⟩ := mem_map.1 h
    have hj := mem_insertionSort _ |>.1 (mem_of_mem_take hj)
    obtain ⟨hmem, hs, -⟩ := mem_dlqJobs.1 (mem_filter.1 hj).1
    exact ⟨j, job_of_mem hmem, hs⟩

theorem length_revivable_le : (db.revivableDlqWorkflows org scope room).length ≤ room := by
  unfold revivableDlqWorkflows
  rw [length_map, length_take]
  exact Nat.min_le_left _ _

/-! ## What is revived -/

theorem lifts_dlqReset : Lifts db (db.dlqReset now org ids) := by
  refine lifts_setStatus fun j hj => ⟨⟨⟨rfl, rfl, rfl, rfl⟩, rfl, rfl⟩, ?_, rfl⟩
  simp only [dlqRetryable, Bool.and_eq_true, beq_iff_eq] at hj
  rw [hj.1.1.2]
  rfl

@[simp] theorem dlqReset_workflows :
    (db.dlqReset now org ids).workflows = db.workflows :=
  setStatus_workflows fun _ _ => rfl

theorem sameGraph_dlqGated : SameGraph db (db.dlqGated now org ids) := by
  unfold dlqGated
  split
  · exact .refl db
  · have h : SameGraph db (db.dropDeadLetters org ids) := ⟨rfl, (SameGraph.refl db).row⟩
    exact h.trans (.of_rows rfl job_setJobs fun j _ => ⟨⟨rfl, rfl, rfl, rfl⟩, rfl, rfl⟩)

@[simp] theorem dlqGated_workflows :
    (db.dlqGated now org ids).workflows = db.workflows := by
  unfold dlqGated
  split <;> rfl

theorem reopenLevels_workflows (now : Time) (org : OrgId) (n : Nat) (db : Db) (frontier : List JobId) :
    (reopenLevels now org n db frontier).1.workflows = db.workflows :=
  reopenLevels_rel (R := fun d d' => d'.workflows = d.workflows) org (fun _ => rfl)
    (fun _ _ _ h h' => h'.trans h) (fun d frontier => reopenLevel_workflows d now org frontier)
    n db frontier

/-- Edges and parent links join jobs of one workflow, or jobs outside any. -/
def LinksWithin (db : Db) : Prop :=
  ∀ i d j k, db.DependsOn i d → db.job i = some j → db.job d = some k → j.workflowId = k.workflowId

theorem LinksWithin.sameGraph (h : db.LinksWithin) (hg : SameGraph db db') : db'.LinksWithin := by
  intro i d j' k' hdep hj' hk'
  obtain ⟨j, hj, hl⟩ := hg.symm.job hj'
  obtain ⟨k, hk, hl'⟩ := hg.symm.job hk'
  rw [← hl.workflowId, ← hl'.workflowId]
  exact h i d j k (hg.symm.dependsOn hdep) hj hk

def workflowIdOf (db : Db) (i : JobId) : Option (Option WorkflowId) := (db.job i).map (·.workflowId)

theorem workflowIdOf_sameGraph (hg : SameGraph db db') (i : JobId) :
    db'.workflowIdOf i = db.workflowIdOf i := by
  have hr := hg.row i
  unfold workflowIdOf
  generalize db.job i = a at hr ⊢
  generalize db'.job i = b at hr ⊢
  cases hr with
  | none => rfl
  | some hl => exact congrArg some hl.workflowId

theorem dependsOn_of_reopens {frontier : List JobId} (hj : db.job i = some j)
    (h : db.reopens org frontier j = true) : ∃ d ∈ frontier, db.DependsOn i d := by
  simp only [reopens, Bool.and_eq_true, Bool.or_eq_true, Option.any_eq_true, any_eq_true,
    beq_iff_eq, decide_eq_true_eq] at h
  rcases h.1.1.1.2 with ⟨q, hq, hmem⟩ | ⟨e, he, hej, hmem⟩
  · exact ⟨q, hmem, .inr ⟨j, hj, hq⟩⟩
  · refine ⟨e.dependsOn, hmem, .inl (any_eq_true.2 ⟨e, he, ?_⟩)⟩
    rw [hej, job_id hj, beq_self_eq_true, beq_self_eq_true]
    rfl

/-- **What is re-opened belongs to the workflows of what was retried.** -/
theorem workflowIdOf_reopenLevels (n : Nat) {frontier : List JobId} (hwithin : db.LinksWithin)
    (hrow : ∀ d ∈ frontier, ∃ k, db.job d = some k)
    (hi : i ∈ (reopenLevels now org n db frontier).2) :
    ∃ d ∈ frontier, db.workflowIdOf i = db.workflowIdOf d := by
  induction n generalizing db frontier with
  | zero => cases hi
  | succ n ih =>
    rw [reopenLevels] at hi
    split at hi
    · cases hi
    · have hlevel : ∀ d ∈ db.reopenedBy org frontier, (∃ k, db.job d = some k) ∧
          ∃ d' ∈ frontier, db.workflowIdOf d = db.workflowIdOf d' := by
        intro d hd
        obtain ⟨x, hx, hr⟩ := mem_reopenedBy.1 hd
        obtain ⟨d', hd', hdep⟩ := dependsOn_of_reopens hx hr
        obtain ⟨k, hk⟩ := hrow d' hd'
        refine ⟨⟨x, hx⟩, d', hd', ?_⟩
        unfold workflowIdOf
        rw [hx, hk]
        exact congrArg some (hwithin d d' x k hdep hx hk)
      have hg := (lifts_reopenLevel db now org frontier).toSameGraph
      rcases mem_append.1 hi with hi | hi
      · exact (hlevel i hi).2
      · obtain ⟨d, hd, he⟩ := ih (hwithin.sameGraph hg)
          (fun d hd => by
            obtain ⟨⟨k, hk⟩, -⟩ := hlevel d hd
            obtain ⟨k', hk', -⟩ := hg.job hk
            exact ⟨k', hk'⟩) hi
        obtain ⟨d', hd', he'⟩ := (hlevel d hd).2
        have he : db.workflowIdOf i = db.workflowIdOf d := by
          rw [← workflowIdOf_sameGraph hg, ← workflowIdOf_sameGraph hg]
          exact he
        exact ⟨d', hd', he.trans he'⟩

/-! ## The two checks of the cap -/

@[simp] theorem dlqOpened_workflows :
    (db.dlqOpened now org ids).1.workflows = db.workflows := by
  unfold dlqOpened reopenCancelledDependents
  rw [reopenLevels_workflows, dlqGated_workflows, dlqReset_workflows]

theorem sameGraph_dlqOpened (now : Time) (org : OrgId) (ids : List JobId) :
    SameGraph db (db.dlqOpened now org ids).1 :=
  (lifts_dlqReset.toSameGraph.trans sameGraph_dlqGated).trans
    (lifts_reopenLevels now org _ _ ids).toSameGraph

def dlqReviving (db : Db) (now : Time) (org : OrgId) (ids : List JobId) : List Workflow :=
  (db.dlqOpened now org ids).1.failedWorkflowsOf org (ids ++ (db.dlqOpened now org ids).2)

theorem workflowLimitAllows_congr (h : db'.workflows = db.workflows) (adding : Nat) :
    db'.workflowLimitAllows org cap adding = db.workflowLimitAllows org cap adding := by
  unfold workflowLimitAllows liveWorkflowCount
  rw [h]

theorem retryDlqRequest_some {r : RetryDlqResponse}
    (h : db.retryDlqRequest now org scope limit cap = some (db', r)) :
    ∃ ids, ids = db.dlqPick org scope limit (db.dlqRevivable org scope cap) ∧
      r.retriedJobs = ids ∧
      r.skippedJobs = (db.dlqReset now org ids).dlqSkipped org scope limit
        (db.dlqRevivable org scope cap) ∧
      db' = (db.dlqOpened now org ids).1.reopenWorkflows org (ids ++ (db.dlqOpened now org ids).2) ∧
      (0 < (db.dlqReviving now org ids).length →
        db.workflowLimitAllows org cap (db.dlqReviving now org ids).length = true) := by
  unfold retryDlqRequest at h
  dsimp only at h
  split at h
  · cases h
  · split at h
    · cases h
    · next hcap =>
      obtain ⟨rfl, rfl⟩ := Prod.mk.inj (Option.some.inj h)
      refine ⟨_, rfl, rfl, rfl, rfl, fun hpos => ?_⟩
      rw [workflowLimitAllows_congr dlqOpened_workflows] at hcap
      by_contra hne
      rw [Bool.not_eq_true] at hne
      exact hcap (Bool.and_eq_true_iff.2 ⟨decide_eq_true hpos, (Bool.not_eq_true' _).mpr hne⟩)

theorem retryDlqRequest_none (h : db.retryDlqRequest now org scope limit cap = none) :
    ∃ ids, ids = db.dlqPick org scope limit (db.dlqRevivable org scope cap) ∧
      ((ids = [] ∧ 0 < limit ∧ db.workflowLimitAllows org cap 1 = false) ∨
        (0 < (db.dlqReviving now org ids).length ∧
          db.workflowLimitAllows org cap (db.dlqReviving now org ids).length = false)) := by
  refine ⟨_, rfl, ?_⟩
  unfold retryDlqRequest at h
  dsimp only at h
  split at h
  · next hcap =>
    left
    rw [workflowLimitAllows_congr dlqReset_workflows] at hcap
    simp only [Bool.and_eq_true, Bool.not_eq_true', List.isEmpty_iff, isEmpty_eq_false_iff]
      at hcap
    refine ⟨hcap.1.2, Nat.pos_of_ne_zero ?_, hcap.2⟩
    rintro rfl
    -- nothing is skipped under a limit of zero
    apply hcap.1.1
    cases db.dlqRevivable org scope cap <;> rfl
  · split at h
    · next hcap =>
      right
      rw [Bool.and_eq_true, decide_eq_true_eq, Bool.not_eq_true',
        workflowLimitAllows_congr dlqOpened_workflows] at hcap
      exact hcap
    · cases h

theorem retryDlqRequest_of_full {ids : List JobId}
    (hids : ids = db.dlqPick org scope limit (db.dlqRevivable org scope cap))
    (hpos : 0 < (db.dlqReviving now org ids).length)
    (hfull : db.workflowLimitAllows org cap (db.dlqReviving now org ids).length = false) :
    db.retryDlqRequest now org scope limit cap = none := by
  subst hids
  unfold retryDlqRequest
  dsimp only
  split
  · rfl
  · rw [if_pos]
    rw [Bool.and_eq_true, decide_eq_true_eq, Bool.not_eq_true',
      workflowLimitAllows_congr dlqOpened_workflows]
    exact ⟨hpos, hfull⟩

theorem workflowLimitAllows_of_room {n : Nat} (hpos : 0 < n)
    (h : ∀ room, db.workflowRoom org cap = some room → n ≤ room) :
    db.workflowLimitAllows org cap n = true := by
  cases cap with
  | none => rfl
  | some max =>
    have h := h _ rfl
    dsimp only at h
    split at h
    · omega
    · next hmax =>
      simp only [workflowLimitAllows, Option.all_some, Bool.and_eq_true, bne_iff_ne, ne_eq,
        decide_eq_true_eq]
      exact ⟨hmax, by omega⟩

theorem room_of_workflowLimitAllows {n : Nat} (h : db.workflowLimitAllows org cap n = true)
    (hroom : db.workflowRoom org cap = some room) : n ≤ room := by
  cases cap with
  | none => cases hroom
  | some max =>
    simp only [workflowLimitAllows, Option.all_some, Bool.and_eq_true, bne_iff_ne, ne_eq,
      decide_eq_true_eq] at h
    simp only [workflowRoom, Option.map_some, if_neg h.1, Option.some.injEq] at hroom
    omega

theorem room_zero (h : db.workflowLimitAllows org cap 1 = false) :
    db.workflowRoom org cap = some 0 := by
  cases cap with
  | none => cases h
  | some max =>
    simp only [workflowLimitAllows, Option.all_some, Bool.and_eq_false_iff, bne_eq_false_iff_eq,
      decide_eq_false_iff_not] at h
    simp only [workflowRoom, Option.map_some, Option.some.injEq]
    split
    · rfl
    · omega

/-! ## The revived workflows fit -/

theorem mem_dlqReviving {w : Workflow} (hwithin : db.LinksWithin)
    (hrow : ∀ i ∈ ids, ∃ j, db.job i = some j) (hw : w ∈ db.dlqReviving now org ids) :
    w ∈ db.workflows.rows ∧ w.organizationId = org ∧ w.status = .failed ∧
      ∃ i ∈ ids, ∃ j, db.job i = some j ∧ j.workflowId = some w.id := by
  obtain ⟨hmem, hw⟩ := mem_filter.1 hw
  rw [dlqOpened_workflows] at hmem
  simp only [Bool.and_eq_true, beq_iff_eq, any_eq_true, decide_eq_true_eq] at hw
  obtain ⟨⟨ho, hs⟩, x, hx, ⟨-, hin⟩, hxw⟩ := hw
  refine ⟨hmem, ho, hs, ?_⟩
  have hxid : db.workflowIdOf x.id = some (some w.id) := by
    rw [← workflowIdOf_sameGraph (sameGraph_dlqOpened now org ids),
      workflowIdOf, job_of_mem hx, ← hxw]
    rfl
  have hpicked : ∃ d ∈ ids, db.workflowIdOf x.id = db.workflowIdOf d := by
    rcases mem_append.1 hin with hin | hin
    · exact ⟨x.id, hin, rfl⟩
    · have hg : SameGraph db ((db.dlqReset now org ids).dlqGated now org ids) :=
        lifts_dlqReset.toSameGraph.trans sameGraph_dlqGated
      obtain ⟨d, hd, he⟩ := workflowIdOf_reopenLevels _ (hwithin.sameGraph hg)
        (fun d hd => by
          obtain ⟨k, hk⟩ := hrow d hd
          obtain ⟨k', hk', -⟩ := hg.job hk
          exact ⟨k', hk'⟩) hin
      rw [workflowIdOf_sameGraph hg, workflowIdOf_sameGraph hg] at he
      exact ⟨d, hd, he⟩
  obtain ⟨d, hd, he⟩ := hpicked
  obtain ⟨k, hk⟩ := hrow d hd
  rw [hxid, workflowIdOf, hk] at he
  exact ⟨d, hd, k, hk, (Option.some.inj he).symm⟩

/-- **The pick revives what it counted.** -/
theorem dlqReviving_length_le (hwithin : db.LinksWithin)
    (hroom : db.workflowRoom org cap = some room) :
    (db.dlqReviving now org
      (db.dlqPick org scope limit (db.dlqRevivable org scope cap))).length ≤ room := by
  have hrev : db.dlqRevivable org scope cap = some (db.revivableDlqWorkflows org scope room) := by
    unfold dlqRevivable
    rw [hroom, Option.map_some]
  rw [hrev]
  generalize hids : db.dlqPick org scope limit _ = ids
  have hrow : ∀ i ∈ ids, ∃ j, db.job i = some j := by
    intro i hi
    obtain ⟨j, hj, -⟩ := dlqRetryable_of_pick (hids ▸ hi)
    exact ⟨j, hj⟩
  have hsub : (db.dlqReviving now org ids).map (·.id) ⊆ db.revivableDlqWorkflows org scope room := by
    intro w hw
    obtain ⟨v, hv, rfl⟩ := mem_map.1 hw
    obtain ⟨hmem, ho, hs, i, hi, j, hj, hjw⟩ := mem_dlqReviving hwithin hrow hv
    obtain ⟨j', hj', hjo, -, he⟩ := dlqRetryable_of_pick (hids ▸ hi)
    obtain rfl : j = j' := Option.some.inj (hj.symm.trans hj')
    have hown : db.ownWorkflowIs .failed j = true := by
      unfold ownWorkflowIs
      rw [hjw, Option.bind_some, Db.workflow, Table.find_key hmem, Option.any_some, ho, hjo, hs]
      simp
    simp only [dlqEligible, Option.all_some, failedOutside, hown, hjw, Option.any_some, Bool.true_and,
      Bool.not_not, Bool.and_eq_true, decide_eq_true_eq] at he
    exact he.1
  have hnodup : ((db.dlqReviving now org ids).map (·.id)).Nodup :=
    (db.dlqOpened now org ids).1.workflows.nodup.sublist (filter_sublist.map _)
  calc (db.dlqReviving now org ids).length
      = ((db.dlqReviving now org ids).map (·.id)).length := (length_map _).symm
    _ ≤ (db.revivableDlqWorkflows org scope room).length := (subperm_of_subset hnodup hsub).length_le
    _ ≤ room := length_revivable_le

def revivedCount (db db' : Db) : Nat :=
  db.workflows.rows.countP fun w =>
    w.status == .failed && (db'.workflow w.id).any (·.status.live)

theorem revivedCount_le (ids : List JobId) :
    db.revivedCount ((db.dlqOpened now org ids).1.reopenWorkflows org
      (ids ++ (db.dlqOpened now org ids).2)) ≤ (db.dlqReviving now org ids).length := by
  unfold revivedCount dlqReviving failedWorkflowsOf
  rw [← countP_eq_length_filter, dlqOpened_workflows]
  refine countP_mono_left fun w hw h => ?_
  rw [Bool.and_eq_true, beq_iff_eq] at h
  by_contra hne
  have hfind : ((db.dlqOpened now org ids).1.reopenWorkflows org
      (ids ++ (db.dlqOpened now org ids).2)).workflow w.id = some w := by
    unfold Db.workflow reopenWorkflows
    dsimp only
    rw [Table.find_update, dlqOpened_workflows, Table.find_key hw, Option.map_some]
    rw [h.1, beq_self_eq_true, Bool.and_true] at hne
    rw [h.1, beq_self_eq_true, Bool.or_true, Bool.and_true, if_neg hne]
  rw [hfind, Option.any_some, h.1] at h
  exact absurd h.2 (by decide)

/-- The failed workflows of the picked jobs, and of the jobs that are re-opened with them, fit in
the room. -/
def RevivalFits (db : Db) (now : Time) (org : OrgId) (scope : DlqScope) (limit : Nat)
    (cap : Option Nat) : Prop :=
  ∀ room, db.workflowRoom org cap = some room → (db.dlqReviving now org
    (db.dlqPick org scope limit (db.dlqRevivable org scope cap))).length ≤ room

/-- Everything that could be retried is a step of a failed workflow, and no room is left. -/
def AllHeld (db : Db) (org : OrgId) (scope : DlqScope) (cap : Option Nat) : Prop :=
  (∀ j ∈ db.dlqJobs org scope, db.ownWorkflowIs .cancelled j = false →
    db.ownWorkflowIs .failed j = true) ∧ db.workflowRoom org cap = some 0

theorem dlqRevivable_full (hroom : db.workflowRoom org cap = some 0) :
    db.dlqRevivable org scope cap = some [] := by
  unfold dlqRevivable revivableDlqWorkflows
  rw [hroom]
  rfl

theorem AllHeld.dlqPick_eq_nil (h : db.AllHeld org scope cap) :
    db.dlqPick org scope limit (db.dlqRevivable org scope cap) = [] := by
  rw [dlqRevivable_full h.2, eq_nil_iff_forall_not_mem]
  intro i hi
  obtain ⟨j, hj, -, he⟩ := of_mem_dlqPick hi
  simp only [dlqEligible, Option.all_some, failedOutside, not_mem_nil, decide_false,
    Option.any_false, Bool.not_false, Bool.and_true, Bool.and_eq_true, Bool.not_eq_true'] at he
  rw [h.1 j hj he.2] at he
  cases he.1

theorem dlqReviving_nil : db.dlqReviving now org [] = [] := by
  have hopened : (db.dlqOpened now org []).2 = [] := rfl
  unfold dlqReviving failedWorkflowsOf
  rw [hopened]
  simp

theorem refused_iff_fits : (db.retryDlqRequest now org scope limit cap = none →
    db.AllHeld org scope cap) ↔ db.RevivalFits now org scope limit cap := by
  constructor
  · intro h room hroom
    by_contra hover
    have hpos : 0 < (db.dlqReviving now org
        (db.dlqPick org scope limit (db.dlqRevivable org scope cap))).length := by omega
    have hfull : db.workflowLimitAllows org cap (db.dlqReviving now org
        (db.dlqPick org scope limit (db.dlqRevivable org scope cap))).length = false :=
      eq_false_of_ne_true fun hallows => hover (room_of_workflowLimitAllows hallows hroom)
    rw [(h (retryDlqRequest_of_full rfl hpos hfull)).dlqPick_eq_nil, dlqReviving_nil] at hpos
    exact absurd hpos (Nat.lt_irrefl 0)
  · intro hfits h
    obtain ⟨ids, hids, ⟨hnil, hlimit, hfull⟩ | ⟨hpos, hfull⟩⟩ := retryDlqRequest_none h
    · have hroom := room_zero hfull
      refine ⟨fun j hj hc => ?_, hroom⟩
      have he := not_eligible_of_dlqPick hlimit (hids.symm.trans hnil) hj
      rw [dlqRevivable_full hroom, dlqEligible, hc, Option.all_some, Bool.not_false, Bool.and_true,
        Bool.not_eq_false', failedOutside, Bool.and_eq_true] at he
      exact he.1
    · rw [workflowLimitAllows_of_room hpos fun room hroom => hids ▸ hfits room hroom] at hfull
      cases hfull

/-- **A bulk retry does as much as the cap allows.** The lists it answers are
disjoint and within the limit, no step of a cancelled workflow is among them,
and the workflows that run again fit in the room. That it is refused only when
every job it could retry is a step of a failed workflow and no room is left, is
so if and only if the workflows of what would be re-opened fit; and they do
where dependencies stay within workflows. -/
theorem bulk_dlq_retry_fits_cap (db : Db) (now : Time) (org : OrgId) (scope : DlqScope)
    (limit : Nat) (cap : Option Nat) :
    (∀ db' r, db.retryDlqRequest now org scope limit cap = some (db', r) →
      List.Disjoint r.retriedJobs r.skippedJobs ∧ r.retriedJobs.length ≤ limit ∧
      (∀ i ∈ r.retriedJobs, ∀ j, db.job i = some j → db.ownWorkflowIs .cancelled j = false) ∧
      ∀ room, db.workflowRoom org cap = some room → db.revivedCount db' ≤ room) ∧
    ((db.retryDlqRequest now org scope limit cap = none → db.AllHeld org scope cap) ↔
      db.RevivalFits now org scope limit cap) ∧
    (db.LinksWithin → db.RevivalFits now org scope limit cap) := by
  refine ⟨fun db' r h => ?_, refused_iff_fits, fun hwithin room => dlqReviving_length_le hwithin⟩
  obtain ⟨ids, hids, hret, hskip, hdb', hallows⟩ := retryDlqRequest_some h
  refine ⟨fun i hi hs => ?_, ?_, fun i hi j hj => ?_, fun room hroom => ?_⟩
  · -- the skipped jobs are read after the reset
    rw [hret, hids] at hi
    rw [hskip, hids] at hs
    obtain ⟨x, hx, hxs⟩ := of_mem_dlqSkipped hs
    obtain ⟨j, hj, -, hr, -⟩ := dlqRetryable_of_pick hi
    obtain ⟨y, hy, hys⟩ := job_dlqReset now hj hr
    obtain rfl : x = y := Option.some.inj (hx.symm.trans hy)
    rw [hxs] at hys
    cases hys
  · rw [hret, hids]
    exact length_dlqPick_le
  · rw [hret, hids] at hi
    obtain ⟨j', hj', -, hr, -⟩ := dlqRetryable_of_pick hi
    obtain rfl : j = j' := Option.some.inj (hj.symm.trans hj')
    simp only [dlqRetryable, Bool.and_eq_true, Bool.not_eq_true'] at hr
    exact hr.1.2
  · rw [hdb']
    refine (revivedCount_le ids).trans ?_
    rcases Nat.eq_zero_or_pos (db.dlqReviving now org ids).length with h0 | hpos
    · omega
    · exact room_of_workflowLimitAllows (hallows hpos) hroom

end Db

/-- A workflow with a dead-lettered step, next to a running one. -/
def deadStep : List Label :=
  [.stmt (.createWorkflow 1 0 1 [{ queueName := "q" }]), .stmt (.dequeue 2 clientClaim),
    .stmt (.failGrpc (clientHolds 1 (.single 2)) false "boom"),
    .stmt (.createWorkflow 1 3 4 [{ queueName := "q" }])]

/-- A cap of one workflow refuses the step, a cap of two retries it. -/
theorem bulk_dlq_retry_fits_cap_deadStep : ∃ s h, (system {}).Run s h ∧
    s.db.retryDlqRequest s.now 1 .all 100 (some 1) = none ∧ s.db.AllHeld 1 .all (some 1) ∧
    ∃ db' r, s.db.retryDlqRequest s.now 1 .all 100 (some 2) = some (db', r) ∧
      r.retriedJobs = [1] ∧ r.retriedJobs.length ≤ 100 ∧ s.db.revivedCount db' ≤ 1 := by
  obtain ⟨s, h, hr, hp⟩ := Machine.Run.of_exec (system {}) deadStep {}
    (fun x => x.1.db.edges.isEmpty && x.1.db.jobs.rows.all (·.parentJobId == none) &&
      (x.1.db.retryDlqRequest x.1.now 1 .all 100 (some 1)).isNone &&
      x.1.db.workflowRoom 1 (some 2) == some 1 &&
      (x.1.db.retryDlqRequest x.1.now 1 .all 100 (some 2)).any fun y => y.2.retriedJobs == [1])
    ⟨rfl, rfl⟩ (by decide +kernel)
  simp only [Bool.and_eq_true, Option.isNone_iff_eq_none, List.isEmpty_iff, all_eq_true,
    beq_iff_eq, Option.any_eq_true] at hp
  obtain ⟨⟨⟨⟨hedges, hparent⟩, hnone⟩, hroom⟩, ⟨db', r⟩, hsome, hret⟩ := hp
  have hwithin : s.db.LinksWithin := by
    rintro i d j k (he | ⟨x, hx, hq⟩) hj hk
    · rw [Db.hasEdge, hedges] at he
      cases he
    · rw [hparent x (Db.job_mem hx)] at hq
      cases hq
  obtain ⟨-, hlen, -, hfit⟩ := (Db.bulk_dlq_retry_fits_cap s.db s.now 1 .all 100 (some 2)).1 _ _ hsome
  obtain ⟨-, hiff, hfits⟩ := Db.bulk_dlq_retry_fits_cap s.db s.now 1 .all 100 (some 1)
  exact ⟨s, h, hr, hnone, hiff.2 (hfits hwithin) hnone, db', r, hsome, hret, hlen, hfit 1 hroom⟩

/-- A step of a failed workflow waits for a plain job. Under a cap of one, taken
by a later workflow, the plain job cannot be retried: its dependent would be
re-opened and revive the failed workflow. -/
theorem bulk_dlq_retry_refused_plain_job : ∃ s h, (system {}).Run s h ∧
    s.db.retryDlqRequest s.now 1 .all 100 (some 1) = none ∧
    ∃ j ∈ s.db.dlqJobs 1 .all, j.workflowId = none := by
  obtain ⟨s, h, hr, hp⟩ := Machine.Run.of_exec (system {})
    [.createCheck clientCreate, .createInsert 0,
      .stmt (.createWorkflow 1 1 2 [{ queueName := "q" }, { queueName := "q" }]),
      .stmt (.addDependencies 1 3 [0] none),
      .stmt (.dequeue 4 clientClaim), .stmt (.failGrpc (clientHolds 0 (.single 4)) false "boom"),
      .stmt (.dequeue 5 clientClaim), .stmt (.failGrpc (clientHolds 2 (.single 5)) false "boom"),
      .stmt .cancelDependencyFailed, .stmt (.createWorkflow 1 6 7 [{ queueName := "q" }])] {}
    (fun x => (x.1.db.retryDlqRequest x.1.now 1 .all 100 (some 1)).isNone &&
      (x.1.db.dlqJobs 1 .all).any (·.workflowId == none))
    ⟨rfl, rfl⟩ (by decide +kernel)
  simp only [Bool.and_eq_true, Option.isNone_iff_eq_none, any_eq_true, beq_iff_eq] at hp
  exact ⟨s, h, hr, hp.1, hp.2⟩

end Spooled
