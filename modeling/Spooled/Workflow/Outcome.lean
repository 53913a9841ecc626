import Spooled.Dependency.Safety
import Spooled.Workflow.Progress

/-!
# A workflow's outcome tells the truth

A workflow that is completed has completed all the steps it was created with,
and once they all have, only a user can make it anything else. The outcome is
computed from the rows that are left, so the first half needs every step that
never completed to be left: `OutcomeSafe` asks that no delete takes one from a
workflow whose outcome is still open.
-/

namespace Spooled

open List

/-- The steps a statement creates workflow `w` with. -/
def Stmt.enrols (w : WorkflowId) : Stmt → List JobId
  | .createWorkflow _ v base defs => if v = w then List.range' base defs.length else []
  | _ => []

/-- The steps workflow `w` was created with. -/
def stepsOf : List (Sys × Label) → WorkflowId → List JobId
  | [], _ => []
  | (s, a) :: h, w => ((s.action a).elim [] fun x => x.1.enrols w) ++ stepsOf h w

def Stmt.isExpiry : Stmt → Bool
  | .cleanupExpired _ => true
  | _ => false

/-- The workflow of `j` can do without it: its outcome is final, or the expiry
sweep takes all its open steps at once and it has no failed one. -/
def Db.mayLose (db : Db) (p : Job → Bool) (expiry : Bool) (j : Job) : Bool :=
  (j.workflowId.bind db.workflow).all fun x => !x.status.unsettled ||
    (expiry && x.status.live && (db.steps x.id).all fun k => !k.status.lost && (!k.status.active || p k))

/-- Every step that is deleted is completed or its workflow can do without it. -/
def Stmt.outcomeSafe (now : Time) (db : Db) (c : Stmt) : Bool :=
  (c.deletes now db).all fun p => db.jobs.rows.all fun j =>
    !p j || j.status == .completed || db.mayLose p c.isExpiry j

def OutcomeSafe (s : Sys) (a : Label) : Prop :=
  ∀ c k, s.action a = some (c, k) → c.outcomeSafe s.now s.db = true

/-- What the run keeps about workflows and the steps they were created with. -/
structure OutcomeInvariant (s : Sys) (h : List (Sys × Label)) : Prop where
  workflowIds : ∀ w x, s.db.workflow w = some x → w < s.uuid
  stepIds : ∀ w i, i ∈ stepsOf h w → w < s.uuid ∧ i < s.uuid
  reachedIds : ∀ i, reached s h i = true → i < s.uuid
  final : ∀ i j, s.db.job i = some j → reached s h i = true → j.status = .completed
  member : ∀ i j w, s.db.job i = some j → j.workflowId = some w → i ∈ stepsOf h w
  origin : ∀ w i j, i ∈ stepsOf h w → s.db.job i = some j → j.workflowId = some w
  total : ∀ w x, s.db.workflow w = some x → x.totalJobs = (stepsOf h w).length
  present : ∀ w x, s.db.workflow w = some x → x.status.unsettled = true → ∀ i ∈ stepsOf h w,
    reached s h i = true ∨ ∃ j, s.db.job i = some j
  truth : ∀ w x, s.db.workflow w = some x → x.status = .completed → ∀ i ∈ stepsOf h w,
    reached s h i = true

section Run

variable {cfg : Config} {s s' : Sys} {a : Label} {h : List (Sys × Label)} {i : JobId} {j j' : Job}
  {c : Stmt} {k : Sys → Sys} {w : WorkflowId} {x x' : Workflow}

theorem reached_cons_iff : reached s' ((s, a) :: h) i = true ↔
    s'.db.completed i = true ∨ reached s h i = true := by
  simp only [reached, any_cons, Bool.or_eq_true]

theorem stepsOf_cons (ha : s.action a = some (c, k)) (w : WorkflowId) :
    stepsOf ((s, a) :: h) w = c.enrols w ++ stepsOf h w := by
  rw [stepsOf, ha]; rfl

theorem stepsOf_cons_none (ha : s.action a = none) (w : WorkflowId) :
    stepsOf ((s, a) :: h) w = stepsOf h w := by
  rw [stepsOf, ha]; rfl

theorem Sys.Acts.enrols (ha : s.Acts a c k) (hi : i ∈ c.enrols w) :
    w = s.uuid ∧ s.uuid < i ∧ i < s.uuid + c.idCount ∧
      ∃ org base defs d n, c = .createWorkflow org w base defs ∧ (d, n) ∈ defs.zipIdx ∧ i = base + n ∧
        base = s.uuid + 1 := by
  cases c with
  | createWorkflow org v base defs =>
    cases ha with
    | stmt _ hd =>
      simp only [Stmt.direct, Bool.and_eq_true, beq_iff_eq] at hd
      simp only [Stmt.enrols] at hi
      split at hi
      · next hv =>
        subst hv
        obtain ⟨hle, hlt⟩ := mem_range'_1.1 hi
        obtain ⟨n, rfl⟩ := Nat.exists_eq_add_of_le hle
        have hn : n < defs.length := Nat.lt_of_add_lt_add_left hlt
        have key : ∀ u b n l : Nat, b = u + 1 → n < l → u < b + n ∧ b + n < u + (l + 1) := by
          intros; omega
        obtain ⟨h₁, h₂⟩ := key _ _ _ _ hd.1.2 hn
        refine ⟨hd.1.1, h₁, h₂, org, base, defs, defs.get ⟨n, hn⟩, n, rfl, ?_, rfl, hd.1.2⟩
        rw [mk_mem_zipIdx_iff_getElem?]
        simp [hn]
      · cases hi
  | _ => cases hi

theorem enrols_eq_nil (ha : s.Acts a c k) (hw : w < s.uuid) : c.enrols w = [] := by
  rw [eq_nil_iff_forall_not_mem]
  intro i hi
  exact absurd (ha.enrols hi).1 (ne_of_lt hw)

theorem Sys.Acts.inserts_enrols (ha : s.Acts a c k) (hi : c.Inserts cfg s.now s.db j)
    (hw : j.workflowId = some w) : j.id ∈ c.enrols w := by
  cases hi with
  | job => cases hw
  | step org v base defs d n hd =>
    have hn := snd_lt_of_mem_zipIdx hd
    cases hw
    rw [Stmt.enrols, if_pos rfl, mem_range'_1]
    exact ⟨Nat.le_add_right _ _, Nat.add_lt_add_left (by simpa using hn) _⟩

theorem outcomeInvariant_init (hi : (system cfg).Init s) : OutcomeInvariant s [] := by
  obtain ⟨hdb, -⟩ := hi
  have hjob : ∀ i, s.db.job i = none := fun i => by rw [hdb]; rfl
  have hwf : ∀ w, s.db.workflow w = none := fun w => by rw [hdb]; rfl
  have hreach : ∀ i, reached s [] i = false := fun i => by
    simp [reached, Db.completed, hjob i]
  refine ⟨fun w x hx => ?_, fun w i hi => ?_, fun i hi => ?_, fun i j hj => ?_, fun i j w hj => ?_,
    fun w i j hi => ?_, fun w x hx => ?_, fun w x hx => ?_, fun w x hx => ?_⟩
  · rw [hwf] at hx; cases hx
  · cases hi
  · rw [hreach] at hi; cases hi
  · rw [hjob] at hj; cases hj
  · rw [hjob] at hj; cases hj
  · cases hi
  · rw [hwf] at hx; cases hx
  · rw [hwf] at hx; cases hx
  · rw [hwf] at hx; cases hx

theorem mayLose_of_deleted (hC : OutcomeSafe s a) (ha : s.action a = some (c, k))
    (hdb : s'.db = c.exec cfg s.now s.db) (hj : s.db.job i = some j) (hn : s'.db.job i = none)
    (hs : j.status ≠ .completed) : ∃ p, c.deletes s.now s.db = some p ∧ p j = true ∧
      s.db.mayLose p c.isExpiry j = true := by
  have hr := c.exec_rowStep cfg s.now s.db i
  rw [← hdb, hj, hn] at hr
  cases hr with
  | deleted p _ hp hpj =>
    refine ⟨p, hp, hpj, ?_⟩
    have := hC c k ha
    rw [Stmt.outcomeSafe, hp, Option.all_some, all_eq_true] at this
    simpa [hpj, hs] using this j (Db.job_mem hj)

theorem OutcomeInvariant.present_step (I : OutcomeInvariant s h) (hC : OutcomeSafe s a)
    (ha : s.action a = some (c, k)) (hdb : s'.db = c.exec cfg s.now s.db)
    (hx : s.db.workflow w = some x) (ho : Outcome c s.db s'.db w x x')
    (hx' : s'.db.workflow w = some x') (hu : x'.status.unsettled = true) (hi : i ∈ stepsOf h w) :
    reached s' ((s, a) :: h) i = true ∨ ∃ j, s'.db.job i = some j := by
  have hux : x.status.unsettled = true := by
    rcases ho.status with he | ⟨hu, -⟩
    · rw [← he]; exact hu
    · exact hu
  rcases I.present w x hx hux i hi with hr | ⟨j, hj⟩
  · exact .inl (reached_cons_iff.2 (.inr hr))
  · cases hj' : s'.db.job i with
    | some j' => exact .inr ⟨j', rfl⟩
    | none =>
      by_cases hs : j.status = .completed
      · refine .inl (reached_cons_iff.2 (.inr ?_))
        simp [reached, (Db.completed_of_job hj).2 hs]
      · obtain ⟨p, hp, hpj, hmay⟩ := mayLose_of_deleted hC ha hdb hj hj' hs
        have hjw := I.origin w i j hi hj
        rw [Db.mayLose, hjw, Option.bind_some, hx, Option.all_some, hux] at hmay
        simp only [Bool.not_true, Bool.false_or, Bool.and_eq_true, all_eq_true] at hmay
        obtain ⟨⟨hexp, hlive⟩, hall⟩ := hmay
        cases c with
        | cleanupExpired pick =>
          cases hp
          rw [hdb] at hx'
          have hwid : x.id = w := Table.key_of_find hx
          have := Db.cleanupExpired_settles pick hx hlive (fun i k hk hkw => ?_)
            ⟨j, by rw [Db.job_id hj]; exact hj, hjw, hpj⟩ hx'
          · rw [hu] at this; cases this
          · have hk' := hall k (by rw [hwid]; exact Db.mem_steps.2 ⟨by rw [Db.job_id hk]; exact hk, hkw⟩)
            simp only [Bool.not_eq_true', Bool.or_eq_true, Db.job_id hk] at hk'
            exact ⟨hk'.1, fun hact => hk'.2.resolve_left (by simp [hact])⟩
        | _ => cases hexp

theorem OutcomeInvariant.truth_of_length (I : OutcomeInvariant s h) (hx : s.db.workflow w = some x)
    {d : Db} (hmem : ∀ i j, d.job i = some j → j.workflowId = some w → i ∈ stepsOf h w)
    (hfin : d.Finished w) (hle : x.totalJobs ≤ (d.steps w).length) (hi : i ∈ stepsOf h w) :
    d.completed i = true := by
  have htotal := I.total w x hx
  have hnodup : ((d.steps w).map Job.id).Nodup := d.jobs.nodup.sublist (filter_sublist.map _)
  have hsub : (d.steps w).map Job.id ⊆ stepsOf h w := by
    intro i hi
    obtain ⟨j, hj, rfl⟩ := mem_map.1 hi
    obtain ⟨hj, hw⟩ := Db.mem_steps.1 hj
    exact hmem _ j hj hw
  have hperm := (subperm_of_subset hnodup hsub).perm_of_length_le
    (by rw [length_map, ← htotal]; exact hle)
  obtain ⟨j, hj, rfl⟩ := mem_map.1 (hperm.mem_iff.2 hi)
  obtain ⟨hj, hw⟩ := Db.mem_steps.1 hj
  exact (Db.completed_of_job hj).2 (hfin _ j hj hw)

theorem OutcomeInvariant.reachedIds_step (I : OutcomeInvariant s h) (hr : (system cfg).Run s h)
    (hn : s.next cfg a = some s') (hi : reached s' ((s, a) :: h) i = true) : i < s'.uuid := by
  rcases reached_cons_iff.1 hi with hi | hi
  · obtain ⟨j, hj, -⟩ := Db.completed_iff.1 hi
    exact Sys.job_lt_uuid (hr.step (M := system cfg) hn) hj
  · exact lt_of_lt_of_le (I.reachedIds i hi) (Sys.uuid_mono hn)

theorem OutcomeInvariant.final_step (I : OutcomeInvariant s h) (hn : s.next cfg a = some s')
    (hj' : s'.db.job i = some j') (hi : reached s' ((s, a) :: h) i = true) :
    j'.status = .completed := by
  rcases reached_cons_iff.1 hi with hi | hi
  · exact (Db.completed_of_job hj').1 hi
  · obtain ⟨j, hj, -, hc⟩ := Sys.job_before hn (I.reachedIds i hi) hj'
    exact hc (I.final i j hj hi)

theorem OutcomeInvariant.idle (I : OutcomeInvariant s h) (hr : (system cfg).Run s h)
    (hn : s.next cfg a = some s') (ha : s.action a = none) (hdb : s'.db = s.db)
    (hu : s'.uuid = s.uuid) : OutcomeInvariant s' ((s, a) :: h) := by
  have hS : stepsOf ((s, a) :: h) = stepsOf h := funext (stepsOf_cons_none ha)
  refine ⟨?_, ?_, fun _ => I.reachedIds_step hr hn, fun _ _ => I.final_step hn, ?_, ?_, ?_, ?_, ?_⟩
  · rw [hdb, hu]; exact I.workflowIds
  · rw [hS, hu]; exact I.stepIds
  · rw [hS, hdb]; exact I.member
  · rw [hS, hdb]; exact I.origin
  · rw [hS, hdb]; exact I.total
  · rw [hS, hdb]
    exact fun w x hx hun i hi =>
      (I.present w x hx hun i hi).imp_left fun h => reached_cons_iff.2 (.inr h)
  · rw [hS, hdb]
    exact fun w x hx hc i hi => reached_cons_iff.2 (.inr (I.truth w x hx hc i hi))

/-- A run goes on with a statement. -/
structure StmtStep (cfg : Config) (h : List (Sys × Label)) (s : Sys) (a : Label) (c : Stmt)
    (k : Sys → Sys) (s' : Sys) : Prop where
  run : (system cfg).Run s h
  next : s.next cfg a = some s'
  action : s.action a = some (c, k)
  acts : s.Acts a c k
  db : s'.db = c.exec cfg s.now s.db
  uuid : s'.uuid = s.uuid + c.idCount

theorem StmtStep.present_new (S : StmtStep cfg h s a c k s') (hi : i ∈ c.enrols w) :
    ∃ j, s'.db.job i = some j := by
  obtain ⟨-, -, -, org, base, defs, d, n, rfl, hdn, rfl, -⟩ := S.acts.enrols hi
  have hsome : ((s'.db).job (base + n)).isSome = true := by
    rw [S.db]
    exact Db.isSome_foldl_insert (j := s.db.stepJob s.now cfg.defaultMaxRetries org w (base + n) d)
      (mem_map.2 ⟨(d, n), hdn, rfl⟩)
  exact Option.isSome_iff_exists.1 hsome

section Stmt

variable (I : OutcomeInvariant s h) (S : StmtStep cfg h s a c k s')

include I S

/-- A workflow that was there gets no new steps. -/
theorem OutcomeInvariant.steps_old (hx : s.db.workflow w = some x) :
    stepsOf ((s, a) :: h) w = stepsOf h w := by
  rw [stepsOf_cons S.action, enrols_eq_nil S.acts (I.workflowIds w x hx)]
  rfl

/-- The workflows after a statement: one it creates, which has only its steps, and those that
were there. -/
theorem OutcomeInvariant.workflow_cases (hx' : s'.db.workflow w = some x') :
    (∃ org base defs, c = .createWorkflow org w base defs ∧ w = s.uuid ∧ x'.status = .pending ∧
      x'.totalJobs = defs.length ∧ stepsOf ((s, a) :: h) w = range' base defs.length) ∨
    ∃ x, s.db.workflow w = some x ∧ stepsOf ((s, a) :: h) w = stepsOf h w ∧
      Outcome c s.db s'.db w x x' := by
  rw [S.db] at hx' ⊢
  rcases c.exec_outcome cfg s.now s.db hx' with ⟨org, base, defs, rfl, -, hp, ht⟩ | ⟨x, hx, ho⟩
  · left
    have hw : w = s.uuid := by
      cases S.acts with
      | stmt _ hd =>
        simp only [Stmt.direct, Bool.and_eq_true, beq_iff_eq] at hd
        exact hd.1.1
    have hnil : stepsOf h w = [] := by
      rw [eq_nil_iff_forall_not_mem]
      exact fun i hi => absurd (I.stepIds w i hi).1 (by rw [hw]; exact lt_irrefl _)
    refine ⟨org, base, defs, rfl, hw, hp, ht, ?_⟩
    rw [stepsOf_cons S.action, hnil, append_nil, Stmt.enrols, if_pos rfl]
  · exact .inr ⟨x, hx, I.steps_old S hx, ho⟩

theorem OutcomeInvariant.origin_step (hi : i ∈ stepsOf ((s, a) :: h) w)
    (hj' : s'.db.job i = some j') : j'.workflowId = some w := by
  rw [stepsOf_cons S.action] at hi
  rcases mem_append.1 hi with hi | hi
  · obtain ⟨-, -, -, org, base, defs, d, n, rfl, hd, rfl, hbase⟩ := S.acts.enrols hi
    have hfresh : ∀ i, base ≤ i → s.db.job i = none := by
      intro i hi
      cases hj : s.db.job i with
      | none => rfl
      | some j =>
        have h₁ : i < s.uuid := Sys.job_lt_uuid S.run hj
        exact absurd (lt_of_lt_of_le (by rw [hbase]; exact Nat.lt_succ_self _) hi) (not_lt.2 h₁.le)
    rw [S.db, Stmt.exec, Db.job_createWorkflow_step hfresh hd] at hj'
    cases hj'
    rfl
  · obtain ⟨j, hj, hsame, -⟩ := Sys.job_before S.next (I.stepIds w i hi).2 hj'
    rw [hsame.workflowId, I.origin w i j hi hj]

theorem OutcomeInvariant.member_step (hj' : s'.db.job i = some j') (hw : j'.workflowId = some w) :
    i ∈ stepsOf ((s, a) :: h) w := by
  rw [stepsOf_cons S.action]
  have hr := c.exec_rowStep cfg s.now s.db i
  rw [← S.db, hj'] at hr
  cases hj : s.db.job i with
  | some j =>
    rw [hj] at hr
    exact mem_append_right _ (I.member i j w hj (hr.sameJob.workflowId.symm.trans hw))
  | none =>
    rw [hj] at hr
    cases hr with
    | created hins =>
      have := S.acts.inserts_enrols hins hw
      rw [Db.job_id hj'] at this
      exact mem_append_left _ this

/-- **A workflow becomes completed only when its steps are.** -/
theorem OutcomeInvariant.truth_step (hx : s.db.workflow w = some x)
    (ho : Outcome c s.db s'.db w x x') (hc : x'.status = .completed) (hi : i ∈ stepsOf h w) :
    reached s' ((s, a) :: h) i = true := by
  have hold := I.steps_old S hx
  rcases ho.status with he | ⟨hun, hcomp, -⟩
  · exact reached_cons_iff.2 (.inr (I.truth w x hx (he.symm.trans hc) i hi))
  · obtain ⟨hfin, ⟨q, rfl⟩ | hle⟩ := hcomp hc
    · -- a completion deletes nothing, so the steps left before are the steps left now
      rcases I.present w x hx hun i hi with hreach | ⟨j, hj⟩
      · exact reached_cons_iff.2 (.inr hreach)
      · cases hj' : s'.db.job i with
        | some j' =>
          refine reached_cons_iff.2 (.inl ((Db.completed_of_job hj').2 (hfin i j' hj' ?_)))
          exact I.origin_step S (by rw [hold]; exact hi) hj'
        | none =>
          have hr := (Stmt.complete q).exec_rowStep cfg s.now s.db i
          rw [← S.db, hj, hj'] at hr
          cases hr with | deleted _ _ hp => cases hp
    · refine reached_cons_iff.2 (.inl (I.truth_of_length hx (fun i j hj hw => ?_) hfin hle hi))
      have := I.member_step S hj hw
      rwa [hold] at this

theorem OutcomeInvariant.stmt (hC : OutcomeSafe s a) : OutcomeInvariant s' ((s, a) :: h) where
  workflowIds w x' hx' := by
    rcases I.workflow_cases S hx' with ⟨org, base, defs, rfl, rfl, -⟩ | ⟨x, hx, -⟩
    · rw [S.uuid]
      exact Nat.lt_add_of_pos_right (Nat.succ_pos _)
    · exact lt_of_lt_of_le (I.workflowIds w x hx) (Sys.uuid_mono S.next)
  stepIds w i hi := by
    rw [stepsOf_cons S.action] at hi
    rcases mem_append.1 hi with hi | hi
    · obtain ⟨rfl, hlt, hlt', -⟩ := S.acts.enrols hi
      rw [S.uuid]
      exact ⟨lt_trans hlt hlt', hlt'⟩
    · obtain ⟨h₁, h₂⟩ := I.stepIds w i hi
      exact ⟨lt_of_lt_of_le h₁ (Sys.uuid_mono S.next), lt_of_lt_of_le h₂ (Sys.uuid_mono S.next)⟩
  reachedIds _ := I.reachedIds_step S.run S.next
  final _ _ := I.final_step S.next
  member _ _ _ := I.member_step S
  origin _ _ _ := I.origin_step S
  total w x' hx' := by
    rcases I.workflow_cases S hx' with ⟨org, base, defs, rfl, -, -, ht, hS⟩ | ⟨x, hx, hS, ho⟩
    · rw [ht, hS, length_range']
    · rw [ho.totalJobs, hS]
      exact I.total w x hx
  present w x' hx' hun i hi := by
    rcases I.workflow_cases S hx' with ⟨org, base, defs, rfl, -, -, -, hS⟩ | ⟨x, hx, hS, ho⟩
    · refine .inr (S.present_new (w := w) ?_)
      rw [Stmt.enrols, if_pos rfl, ← hS]
      exact hi
    · rw [hS] at hi
      exact I.present_step hC S.action S.db hx ho hx' hun hi
  truth w x' hx' hc i hi := by
    rcases I.workflow_cases S hx' with ⟨org, base, defs, -, -, hp, -⟩ | ⟨x, hx, hS, ho⟩
    · rw [hc] at hp
      cases hp
    · rw [hS] at hi
      exact I.truth_step S hx ho hc hi

end Stmt

theorem OutcomeInvariant.step (I : OutcomeInvariant s h) (hr : (system cfg).Run s h)
    (hC : OutcomeSafe s a) (hn : s.next cfg a = some s') : OutcomeInvariant s' ((s, a) :: h) := by
  cases Sys.step_of_next hn with
  | idle ha _ hdb _ hu => exact I.idle hr hn ha hdb hu
  | stmt c k ha hacts _ hdb _ hu => exact I.stmt ⟨hr, hn, ha, hacts, hdb, hu⟩ hC

/-- **A workflow's outcome tells the truth.** In every run whose deletes spare
the open steps of open workflows, a completed workflow has completed each of the
steps it was created with; and once all of them have, no step of the system but
a user's cancel makes the workflow failed or cancelled. -/
theorem workflow_outcome (hr : (system cfg).Run s h) (hC : (system cfg).Steps OutcomeSafe h)
    (hx : s.db.workflow w = some x) :
    x.totalJobs = (stepsOf h w).length ∧
    (x.status = .completed → ∀ i ∈ stepsOf h w, reached s h i = true) ∧
    ((∀ i ∈ stepsOf h w, reached s h i = true) → ∀ a s' x', s.next cfg a = some s' →
      s'.db.workflow w = some x' → x'.status = .failed ∨ x'.status = .cancelled →
      x'.status = x.status ∨ ∃ org, a = .stmt (.cancelWorkflow w org)) := by
  have I := hr.invariant (C := OutcomeSafe) (I := OutcomeInvariant)
    (fun _ => outcomeInvariant_init) (fun _ _ _ _ hr _ I hC hn => I.step hr hC hn) hC
  refine ⟨I.total w x hx, I.truth w x hx, fun hall a s' x' hn hx' hbad => ?_⟩
  have hfin : s.db.Finished w := fun i j hj hw =>
    I.final i j hj (hall i (I.member i j w hj hw))
  cases Sys.step_of_next hn with
  | idle _ _ hdb =>
    rw [hdb, hx] at hx'
    cases hx'
    exact .inl rfl
  | stmt c k ha hacts _ hdb =>
    rw [hdb] at hx'
    rcases c.exec_outcome cfg s.now s.db hx' with ⟨org, base, defs, rfl, hnone, -⟩ | ⟨x₀, hx₀, ho⟩
    · rw [hx] at hnone; cases hnone
    · rw [hx] at hx₀
      cases hx₀
      rcases ho.status with he | ⟨-, -, hl | hc | ⟨org, rfl⟩ | hnot⟩
      · exact .inl he
      · rcases hbad with h | h <;> rw [h] at hl <;> cases hl
      · rcases hbad with h | h <;> rw [h] at hc <;> cases hc
      · cases hacts
        exact .inr ⟨org, rfl⟩
      · exact absurd hfin hnot

end Run

/-- Both steps complete, and the workflow with them. -/
theorem workflow_outcome_twoSteps : ∃ s h x, (system {}).Run s h ∧ (system {}).Steps OutcomeSafe h ∧
    s.db.workflow 0 = some x ∧ x.status = .completed ∧ stepsOf h 0 = [1, 2] ∧
    ∀ i ∈ stepsOf h 0, reached s h i = true := by
  obtain ⟨s, h, hr, hp⟩ := Machine.Run.of_exec (system {})
    [twoSteps, .stmt (.dequeue 3 clientClaim), .stmt (.complete (clientHolds 1 (.single 3))),
      .stmt (.dequeue 4 clientClaim), .stmt (.complete (clientHolds 2 (.single 4)))] {}
    (fun x => x.2.all (fun y => (y.1.action y.2).all fun z => z.1.outcomeSafe y.1.now y.1.db) &&
      stepsOf x.2 0 == [1, 2] && (x.1.db.workflow 0).any (·.status == .completed))
    ⟨rfl, rfl⟩ (by decide +kernel)
  simp only [Bool.and_eq_true, all_eq_true, beq_iff_eq, Option.any_eq_true] at hp
  obtain ⟨⟨hsafe, hS⟩, x, hx, hc⟩ := hp
  have hC : (system {}).Steps OutcomeSafe h := by
    intro x hx c k ha
    have := hsafe x hx
    rwa [ha] at this
  exact ⟨s, h, x, hr, hC, hx, hc, hS, (workflow_outcome hr hC hx).2.1 hc⟩

/-- While the first step is processing the second one expires and is deleted;
when the first completes, so does the workflow. -/
theorem workflow_outcome_expired_step : ∃ s h x, (system {}).Run s h ∧ s.db.workflow 0 = some x ∧
    x.status = .completed ∧ 2 ∈ stepsOf h 0 ∧ reached s h 2 = false := by
  obtain ⟨s, h, hr, hp⟩ := Machine.Run.of_exec (system {})
    [.stmt (.createWorkflow 1 0 1 [{ queueName := "q", priority := 1 },
        { queueName := "q", expiresAt := some 5 }]),
      .stmt (.dequeue 3 clientClaim), .tick 10, .stmt (.cleanupExpired fun _ => true),
      .stmt (.complete (clientHolds 1 (.single 3)))] {}
    (fun x => decide (2 ∈ stepsOf x.2 0) && !reached x.1 x.2 2 &&
      (x.1.db.workflow 0).any (·.status == .completed))
    ⟨rfl, rfl⟩ (by decide +kernel)
  simp only [Bool.and_eq_true, decide_eq_true_eq, Bool.not_eq_true', beq_iff_eq,
    Option.any_eq_true] at hp
  obtain ⟨⟨hS, hno⟩, x, hx, hc⟩ := hp
  exact ⟨s, h, x, hr, hx, hc, hS, hno⟩

end Spooled
