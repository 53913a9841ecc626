import Spooled.Dependency.Declare
import Spooled.Job.Lease

/-!
# Dependency safety

A job with declared dependencies is claimed only after enough of them have
completed, over whole runs: the declarations are read off the history, the
completions off every state the run went through. The property needs a
condition on some steps (`DependencySafe`): a delete that takes an uncompleted
dependency from a row that a retry can run again loses it for good.
-/

namespace Spooled

open List

/-- The dependencies a statement declares for job `i`. -/
def Stmt.declares (db : Db) (i : JobId) : Stmt → List JobId
  | .createJob q k _ => if k = i then q.parentJobId.toList else []
  | .createWorkflow _ _ base defs =>
    ((Db.stepEdges base defs).filter (·.job == i)).map (·.dependsOn)
  | .addDependencies org k ds _ =>
    if k = i ∧ db.mayAddDependencies org k ds = true then ds else []
  | _ => []

/-- The dependencies declared for job `i` in the history. -/
def declared : List (Sys × Label) → JobId → List JobId
  | [], _ => []
  | (s, a) :: h, i => ((s.action a).elim [] fun x => x.1.declares s.db i) ++ declared h i

/-- Job `d` is completed, or was in some state of the history. -/
def reached (s : Sys) (h : List (Sys × Label)) (d : JobId) : Bool :=
  s.db.completed d || h.any fun x => x.1.db.completed d

/-- A delete leaves no row that may run again without a dependency it still
needed, and an added dependency hides no other. -/
def Stmt.dependencySafe (now : Time) (db : Db) : Stmt → Bool
  | .addDependencies _ i _ mode => db.addSafe i mode
  | c => (c.deletes now db).all db.deleteSafe

def DependencySafe (s : Sys) (a : Label) : Prop :=
  ∀ c k, s.action a = some (c, k) → c.dependencySafe s.now s.db = true

/-! ## Statements -/

/-- What the handlers guarantee about the statements they issue. -/
def Stmt.Fits (D : JobId → List JobId) (E : JobId → Prop) (db : Db) : Stmt → Prop
  | .createJob q k met => db.job k = none ∧ D k = [] ∧ ∀ p, q.parentJobId = some p →
      (∀ r, db.job p = some r → r.organizationId = q.organizationId) ∧ (met = true → E p)
  | .insertEdge i d => d ∈ D i ∧ ∀ j, db.job i = some j → (∀ q, j.parentJobId = some q → q = d) ∧
      ∀ r, db.job d = some r → r.organizationId = j.organizationId
  | .recomputeGate k _ => ∀ j q, db.job k = some j → j.parentJobId = some q → db.hasEdge k q = true
  | .createWorkflow _ _ base defs => (∀ i, base ≤ i → db.job i = none ∧ D i = []) ∧
      ∀ d ∈ defs, ∀ m ∈ d.dependsOn, m < defs.length
  | _ => True

/-- A row keeps its parent or loses it, and the edge to a parent it keeps. -/
def Db.Keeps (db db' : Db) : Prop :=
  ∀ i j j' q, db.job i = some j → db'.job i = some j' → j'.parentJobId = some q →
    j.parentJobId = some q ∧ (db.hasEdge i q = true → db'.hasEdge i q = true)

section Statements

variable {D : JobId → List JobId} {E E' : JobId → Prop} {db db' db'' : Db} {now : Time} {c : Stmt}
  {i : JobId} {j j' : Job} {p : Job → Bool}

theorem Db.Covered.mono (C : db.Covered D E) (hE : ∀ d, E d → E' d) : db.Covered D E' :=
  ⟨C.edge, fun i hi => hE i (C.done i hi), fun i j hj hno hg => (C.gate i j hj hno hg).mono hE,
    fun i j hj hno => (C.accounts i j hj hno).mono rfl hE (fun _ _ => .inr) .inr⟩

theorem Stmt.Fits.gated {org : OrgId} (h : (Stmt.recomputeGate i org).Fits D E db) :
    ∀ j q, db.job i = some j → j.parentJobId = some q → db.hasEdges i = true :=
  fun j q hj hq => Db.hasEdges_of_hasEdge (h j q hj hq)

section

variable (cfg : Config) (now : Time)

theorem Stmt.Fits.exec_gated (S : db.Sound) (hf : c.Fits D E db)
    (hc : c.shapes = false) : db.Gated (c.exec cfg now db) := by
  refine Stmt.exec_gated cfg now S hc fun k org h => ?_
  subst h
  exact hf.gated

theorem Db.Gated.keeps (g : db.Gated db') : db.Keeps db' := by
  intro i j j' q hj hj' hq
  obtain ⟨j₀, hj₀, hr⟩ := g.job hj'
  rw [hj] at hj₀
  cases hj₀
  refine ⟨by rw [← hr.parent]; exact hq, fun h => ?_⟩
  rwa [Db.hasEdge, g.edges]

theorem Db.Extends.keeps (h : db.Extends db') : db.Keeps db' := by
  intro i j j' q hj hj' hq
  obtain ⟨j₀, hj₀, -, hp, -⟩ := h.row i j hj
  rw [hj'] at hj₀
  cases hj₀
  refine ⟨by rw [← hp]; exact hq, fun he => ?_⟩
  rw [Db.hasEdge_iff] at he ⊢
  exact h.edges _ he

theorem Db.keeps_deleteJobs (db : Db) (now : Time) (p : Job → Bool) :
    db.Keeps (db.deleteJobs now p) := by
  intro i j j' q hj hj' hq
  obtain ⟨j₀, t, hj₀, hp, h⟩ := Db.job_deleteJobs hj'
  rw [hj] at hj₀
  cases hj₀
  have hq : (j.parentJobId.filter fun d => !db.deleted p d) = some q := by
    rcases h with ⟨rfl, -⟩ | ⟨⟨r, rfl⟩, -⟩ <;> exact hq
  obtain ⟨hq, hdel⟩ := Option.filter_eq_some_iff.1 hq
  refine ⟨hq, fun he => ?_⟩
  rw [Db.hasEdge_iff] at he ⊢
  refine Db.mem_deleteJobs_edges.2 ⟨he, ?_, by simpa using hdel⟩
  rw [Db.deleted_of_job hj]
  exact hp

theorem Stmt.exec_keeps (S : db.Sound) (hf : c.Fits D E db) :
    db.Keeps (c.exec cfg now db) := by
  cases hc : c.shapes with
  | false => exact (hf.exec_gated cfg now S hc).keeps
  | true =>
    cases c with
    | createJob q k met => exact (Db.extends_createJob db now _ q met hf.1).keeps
    | insertEdge i d => exact (Db.extends_insertEdge db i d).keeps
    | createWorkflow => exact (Db.extends_createWorkflow db now _ _ _ _ _).keeps
    | addDependencies => exact (Db.extends_addDependencies db now _ _ _ _).keeps
    | cleanupFinished | cleanupFailed | purgeDlq | deleteQueue => exact Db.keeps_deleteJobs db now _
    | cleanupExpired pick =>
      intro i j j' q hj hj' hq
      have hw := Db.withdraws_beforeExpiry db now pick
      obtain ⟨j₁, hj₁, -⟩ := hw.job' hj
      have h₂ : (db.beforeExpiry now pick).Keeps (db.cleanupExpired now pick) :=
        Db.keeps_deleteJobs _ now _
      obtain ⟨hq₁, he₂⟩ := h₂ i j₁ j' q hj₁ hj' hq
      obtain ⟨hq, he₁⟩ := hw.gated.keeps i j j₁ q hj hj₁ hq₁
      exact ⟨hq, fun h => he₂ (he₁ h)⟩
    | _ => cases hc

theorem Stmt.exec_sameJob (c : Stmt) (hj : db.job i = some j)
    (hj' : (c.exec cfg now db).job i = some j') : j.SameJob j' := by
  have hr := c.exec_rowStep cfg now db i
  rw [hj, hj'] at hr
  exact hr.sameJob

theorem Stmt.exec_sound (S : db.Sound) (hf : c.Fits D E db) :
    (c.exec cfg now db).Sound := by
  cases hc : c.shapes with
  | false =>
    exact S.gated (hf.exec_gated cfg now S hc) fun i j j' hj hj' => c.exec_sameJob cfg now hj hj'
  | true =>
    cases c with
    | createJob q k met =>
      exact S.createJob now _ met hf.1 fun p r hp hr => (hf.2.2 p hp).1 r hr
    | insertEdge i d => exact S.insertEdge fun j r hj hr => (hf.2 j hj).2 r hr
    | createWorkflow => exact S.createWorkflow now _ (fun i hi => (hf.1 i hi).1) hf.2
    | addDependencies => exact S.addDependencies now _ _ _ _
    | cleanupFinished | cleanupFailed => exact S.deleteJobs now _
    | purgeDlq | deleteQueue => exact (S.deleteJobs now _).of_eq rfl rfl
    | cleanupExpired pick => exact S.cleanupExpired now pick
    | _ => cases hc

/-- **Every safe statement keeps the accounts**, with what it declares added to them. -/
theorem Stmt.exec_covered (C : db.Covered D E) (S : db.Sound)
    (hf : c.Fits D E db) (hs : c.dependencySafe now db = true) (hE : ∀ d, E d → E' d)
    (hdone : ∀ d, (c.exec cfg now db).completed d = true → E' d) :
    (c.exec cfg now db).Covered (fun i => c.declares db i ++ D i) E' := by
  have C' := C.mono hE
  cases hc : c.shapes with
  | false =>
    have hD : (fun i => c.declares db i ++ D i) = D := by
      funext i
      cases c <;> first | rfl | cases hc
    rw [hD]
    refine C.gated (c.exec_sound cfg now S hf) (hf.exec_gated cfg now S hc) hE hdone ?_
    intro i j j' hj hj' hcl
    have hr := c.exec_rowStep cfg now db i
    rw [hj, hj'] at hr
    exact (hr.closed hcl).1
  | true =>
    cases c with
    | createJob q k met =>
      refine C'.createJob S now _ hf.1 (fun i hi => ?_) ?_ fun hm p hp => hE p ((hf.2.2 p hp).2 hm)
      · rw [declares, if_neg (Ne.symm hi)]; rfl
      · rw [declares, if_pos rfl, hf.2.1, append_nil]
    | insertEdge i d => exact C'.insertEdge hf.1 fun j q hj => (hf.2 j hj).1 q
    | createWorkflow org w base defs =>
      have hmem : ∀ i x, x ∈ (Stmt.createWorkflow org w base defs).declares db i ↔
          ⟨i, x⟩ ∈ Db.stepEdges base defs := by
        intro i x
        simp only [declares, mem_map, mem_filter, beq_iff_eq]
        constructor
        · rintro ⟨e, ⟨he, rfl⟩, rfl⟩; exact he
        · exact fun he => ⟨_, ⟨he, rfl⟩, rfl⟩
      refine C'.createWorkflow S now _ (fun i hi => (hf.1 i hi).1) (fun i hi => ?_) fun i x hi => ?_
      · have hnil : (Stmt.createWorkflow org w base defs).declares db i = [] := by
          rw [eq_nil_iff_forall_not_mem]
          intro x hx
          obtain ⟨d, n, m, -, -, he⟩ := Db.mem_stepEdges.1 ((hmem i x).1 hx)
          rw [(Edge.mk.inj he).1] at hi
          exact absurd hi (not_lt.2 (Nat.le_add_right _ _))
        rw [hnil]; rfl
      · rw [(hf.1 i hi).2, append_nil]
        exact hmem i x
    | addDependencies org i ds mode =>
      refine C'.addDependencies S now org hs (fun k hk => ?_) ?_
      · rw [declares, if_neg fun h => hk h.1.symm]; rfl
      · simp only [declares, true_and]
        split <;> rfl
    | cleanupFinished | cleanupFailed => exact C'.deleteJobs S now hs
    | purgeDlq | deleteQueue => exact (C'.deleteJobs S now hs).of_eq rfl rfl
    | cleanupExpired pick => exact C'.cleanupExpired S now pick hs
    | _ => cases hc

end

end Statements

/-! ## Along a run -/

/-- What a handler between two statements may rely on. -/
def Pending.Fits (D : JobId → List JobId) (E : JobId → Prop) (s : Sys) : Pending → Prop
  | .create q met => ∀ p, q.parentJobId = some p → p < s.uuid ∧
      (∀ r, s.db.job p = some r → r.organizationId = q.organizationId) ∧ (met = true → E p)
  | .link child parent _ =>
      child < s.uuid ∧ parent < child ∧ (Stmt.insertEdge child parent).Fits D E s.db
  | .recompute child org => child < s.uuid ∧ (Stmt.recomputeGate child org).Fits D E s.db
  | _ => True

structure DependencyInvariant (s : Sys) (h : List (Sys × Label)) : Prop where
  ids : ∀ i j, s.db.job i = some j → i < s.uuid
  fresh : ∀ i, s.uuid ≤ i → declared h i = []
  sound : s.db.Sound
  pending : ∀ x ∈ s.pending, x.Fits (declared h) (fun d => reached s h d = true) s

section Run

variable {cfg : Config} {s s' : Sys} {a : Label} {h : List (Sys × Label)} {i : JobId} {j j' : Job}
  {c : Stmt} {k : Sys → Sys}

theorem reached_cons (hd : reached s h i = true) : reached s' ((s, a) :: h) i = true := by
  simp only [reached, Bool.or_eq_true, any_cons] at hd ⊢
  exact .inr hd

theorem declared_cons (ha : s.action a = some (c, k)) (i : JobId) :
    declared ((s, a) :: h) i = c.declares s.db i ++ declared h i := by
  rw [declared, ha]; rfl

theorem declared_cons_none (ha : s.action a = none) (i : JobId) :
    declared ((s, a) :: h) i = declared h i := by
  rw [declared, ha]; rfl

theorem mem_declared_cons {d : JobId} (hd : d ∈ declared h i) : d ∈ declared ((s, a) :: h) i :=
  mem_append_right _ hd

theorem dependencyInvariant_init (hi : (system cfg).Init s) : DependencyInvariant s [] := by
  obtain ⟨hdb, hp⟩ := hi
  have hjob : ∀ i, s.db.job i = none := fun i => by rw [hdb]; rfl
  have hnone : ∀ {P : Prop} {i j}, s.db.job i = some j → P := fun {P i j} hj => by
    rw [hjob i] at hj; cases hj
  refine ⟨fun i j hj => hnone hj, fun _ _ => rfl,
    ⟨?_, fun i j q hj => hnone hj, fun i j hj => hnone hj⟩, ?_⟩
  · rw [hdb]; intro e he; cases he
  · rw [hp]; intro x hx; cases hx

theorem covered_init (hi : (system cfg).Init s) :
    s.db.Covered (declared []) fun d => reached s [] d = true := by
  have hjob : ∀ i, s.db.job i = none := fun i => by rw [hi.1]; rfl
  refine ⟨?_, fun i h => ?_, fun i j hj => ?_, fun i j hj => ?_⟩
  · rw [hi.1]; intro e he; cases he
  · rw [Db.completed, hjob i] at h; cases h
  · rw [hjob i] at hj; cases hj
  · rw [hjob i] at hj; cases hj

theorem DependencyInvariant.fits (I : DependencyInvariant s h) (ha : s.Acts a c k) :
    c.Fits (declared h) (fun d => reached s h d = true) s.db := by
  have habsent : ∀ i, s.uuid ≤ i → s.db.job i = none := by
    intro i hi
    cases hj : s.db.job i with
    | none => rfl
    | some j => exact absurd hi (not_le.2 (I.ids i j hj))
  cases ha with
  | createInsert n q met hp =>
    have hfit := I.pending _ (mem_of_getElem? hp)
    exact ⟨habsent _ le_rfl, I.fresh _ le_rfl, fun p hq => (hfit p hq).2⟩
  | createLink n child parent org hp => exact (I.pending _ (mem_of_getElem? hp)).2.2
  | createRecompute n child org hp => exact (I.pending _ (mem_of_getElem? hp)).2
  | stmt c hd =>
    cases c with
    | createWorkflow org w base defs =>
      simp only [Stmt.direct, Bool.and_eq_true, beq_iff_eq, validSteps, all_eq_true,
        decide_eq_true_eq] at hd
      have hle : ∀ i, base ≤ i → s.uuid ≤ i := fun i hi =>
        le_trans (by rw [hd.1.2]; exact Nat.le_succ _) hi
      exact ⟨fun i hi => ⟨habsent i (hle i hi), I.fresh i (hle i hi)⟩,
        fun d hmem m hm => (hd.2.1 d hmem).1.1 m hm⟩
    | createJob | insertEdge | recomputeGate => cases hd
    | _ => trivial
  | _ => trivial

theorem Pending.Fits.step {D D' : JobId → List JobId} {E E' : JobId → Prop} {x : Pending}
    (hx : x.Fits D E s) (hu : s.uuid ≤ s'.uuid) (hD : ∀ i d, d ∈ D i → d ∈ D' i)
    (hE : ∀ d, E d → E' d) (hrow : ∀ i j', i < s.uuid → s'.db.job i = some j' →
      ∃ j, s.db.job i = some j ∧ j.SameJob j') (hk : s.db.Keeps s'.db) : x.Fits D' E' s' := by
  cases x with
  | fail | buffered => trivial
  | create q met =>
    intro p hp
    obtain ⟨hlt, ho, hm⟩ := hx p hp
    refine ⟨lt_of_lt_of_le hlt hu, fun r' hr' => ?_, fun h => hE p (hm h)⟩
    obtain ⟨r, hr, hsame⟩ := hrow p r' hlt hr'
    rw [hsame.organizationId, ho r hr]
  | link child parent org =>
    obtain ⟨hlt, hlt', hd, hf⟩ := hx
    refine ⟨lt_of_lt_of_le hlt hu, hlt', hD _ _ hd, fun j' hj' => ?_⟩
    obtain ⟨j, hj, hsame⟩ := hrow child j' hlt hj'
    refine ⟨fun q hq => (hf j hj).1 q (hk _ j j' q hj hj' hq).1, fun r' hr' => ?_⟩
    obtain ⟨r, hr, hsame'⟩ := hrow parent r' (lt_trans hlt' hlt) hr'
    rw [hsame.organizationId, hsame'.organizationId, (hf j hj).2 r hr]
  | recompute child org =>
    obtain ⟨hlt, hf⟩ := hx
    refine ⟨lt_of_lt_of_le hlt hu, fun j' q hj' hq => ?_⟩
    obtain ⟨j, hj, -⟩ := hrow child j' hlt hj'
    obtain ⟨hq₀, he⟩ := hk _ j j' q hj hj' hq
    exact he (hf j q hj hq₀)

theorem DependencyInvariant.declares_fresh (I : DependencyInvariant s h) (ha : s.Acts a c k)
    (hi : s.uuid + c.idCount ≤ i) : c.declares s.db i = [] := by
  cases c with
  | createJob q n met =>
    cases ha with
    | stmt _ hd => cases hd
    | createInsert =>
      rw [Stmt.declares, if_neg]
      rintro rfl
      exact absurd hi (not_le.2 (Nat.lt_succ_self _))
  | createWorkflow org w base defs =>
    cases ha with
    | stmt _ hd =>
      simp only [Stmt.direct, Bool.and_eq_true, beq_iff_eq] at hd
      simp only [Stmt.declares, map_eq_nil_iff, filter_eq_nil_iff, beq_iff_eq]
      rintro e he rfl
      obtain ⟨d, n, m, hdn, -, rfl⟩ := Db.mem_stepEdges.1 he
      have hn := snd_lt_of_mem_zipIdx hdn
      have key : ∀ u b n l : Nat, b = u + 1 → n < l → ¬ u + (l + 1) ≤ b + n := by intros; omega
      exact key _ _ _ _ hd.1.2 (by simpa using hn) hi
  | addDependencies org n ds mode =>
    rw [Stmt.declares, if_neg]
    rintro ⟨rfl, hmay⟩
    obtain ⟨⟨j, hj, -⟩, -⟩ := Db.mayAddDependencies_iff.1 hmay
    exact absurd (le_trans (Nat.le_add_right _ _) hi) (not_le.2 (I.ids _ j hj))
  | _ => rfl

theorem DependencyInvariant.arrives (I : DependencyInvariant s h) (hn : s.next cfg a = some s')
    (S' : s'.db.Sound) {x : Pending} (hx : s.Arrives s' a x) :
    x.Fits (declared ((s, a) :: h)) (fun d => reached s' ((s, a) :: h) d = true) s' := by
  cases hx with
  | fail | buffered => trivial
  | create q met hpc hv hpath =>
    cases Sys.step_of_next hn with
    | stmt c k ha => cases ha
    | idle _ _ hdb _ hu =>
      intro p hp
      simp only [Db.parentCompleted, hp] at hpc
      split at hpc
      · next j hj =>
        split at hpc
        · next hc =>
          simp only [Bool.and_eq_true, beq_iff_eq] at hc
          refine ⟨by rw [hu]; exact I.ids p j hj, fun r hr => ?_, fun hm => ?_⟩
          · rw [hdb, hj] at hr
            cases hr
            exact hc.1
          · rw [Option.some.inj hpc.symm, beq_iff_eq] at hm
            simp [reached, (Db.completed_of_job hj).2 hm]
        · cases hpc
      · cases hpc
  | link n q parent hp hpar hsome =>
    cases Sys.step_of_next hn with
    | idle ha => simp only [Sys.action, hp] at ha; cases ha
    | stmt c k ha hacts _ hdb _ hu =>
      have hfit := I.pending _ (mem_of_getElem? hp)
      obtain ⟨hlt, horg, -⟩ := hfit parent hpar
      have ha' := ha
      simp only [Sys.action, hp, Option.some.injEq, Prod.mk.injEq] at ha
      obtain ⟨rfl, -⟩ := ha
      obtain ⟨hfresh, -⟩ := I.fits hacts
      have hlt' : s.uuid < s'.uuid := by rw [hu]; exact Nat.lt_succ_self _
      refine ⟨hlt', hlt, ?_, fun j' hj' => ?_⟩
      · rw [declared_cons ha', Stmt.declares, if_pos rfl, hpar]
        exact mem_append_left _ mem_cons_self
      · rw [hdb] at hj'
        obtain ⟨rfl, -⟩ := Db.job_createJob_self hfresh hj'
        refine ⟨fun p hp => ?_, fun r' hr' => ?_⟩
        · have hp : q.parentJobId = some p := hp
          rw [hpar] at hp
          exact (Option.some.inj hp).symm
        · rw [hdb, Stmt.exec, Db.job_createJob_ne (ne_of_lt hlt)] at hr'
          exact horg r' hr'
  | recompute n child parent org hp =>
    cases Sys.step_of_next hn with
    | idle ha => simp only [Sys.action, hp] at ha; cases ha
    | stmt c k ha hacts _ hdb _ hu =>
      obtain ⟨hlt, hlt', -, hf⟩ := I.pending _ (mem_of_getElem? hp)
      simp only [Sys.action, hp, Option.some.injEq, Prod.mk.injEq] at ha
      obtain ⟨rfl, -⟩ := ha
      refine ⟨lt_of_lt_of_le hlt (by rw [hu]; exact Nat.le_add_right _ _), fun j' q hj' hq => ?_⟩
      -- the parent the child still has exists, so the insert did not fail
      obtain ⟨r, hr, -⟩ := S'.parent child j' q hj' hq
      rw [hdb, Stmt.exec] at hj' hr ⊢
      rw [Db.job_insertEdge] at hj' hr
      obtain rfl := (hf j' hj').1 q hq
      have hne : (child != q) = true := bne_iff_ne.2 (ne_of_gt hlt')
      rw [Db.hasEdge_iff, Db.insertEdge]
      split
      · exact mem_append_right _ (mem_singleton.2 rfl)
      · next hc =>
        simpa [hj', hr, hne, Db.hasEdge_iff] using hc

theorem DependencyInvariant.step (I : DependencyInvariant s h) (hn : s.next cfg a = some s') :
    DependencyInvariant s' ((s, a) :: h) := by
  have hmono := Sys.uuid_mono hn
  cases Sys.step_of_next hn with
  | idle ha _ hdb _ hu =>
    have hD := declared_cons_none (h := h) ha
    have hD' : declared ((s, a) :: h) = declared h := funext hD
    have S' : s'.db.Sound := by rw [hdb]; exact I.sound
    refine ⟨?_, ?_, S', ?_⟩
    · rw [hdb, hu]; exact I.ids
    · rw [hD', hu]; exact I.fresh
    · intro x hx
      rcases Sys.pending_step hn hx with hx | hx
      · refine (I.pending x hx).step hmono (fun i d => mem_declared_cons) (fun d => reached_cons) ?_ ?_
        · intro i j' _ hj'
          rw [hdb] at hj'
          exact ⟨j', hj', rfl, rfl, rfl, rfl⟩
        · rw [hdb]
          exact (Db.Gated.refl s.db).keeps
      · exact I.arrives hn S' hx
  | stmt c k ha hacts _ hdb _ hu =>
    have hf := I.fits hacts
    have S' : s'.db.Sound := by rw [hdb]; exact c.exec_sound cfg s.now I.sound hf
    have hrow : ∀ i j', i < s.uuid → s'.db.job i = some j' → ∃ j, s.db.job i = some j ∧ j.SameJob j' := by
      intro i j' hi hj'
      rw [hdb] at hj'
      cases hj : s.db.job i with
      | some j => exact ⟨j, rfl, c.exec_sameJob cfg s.now hj hj'⟩
      | none =>
        have hr := c.exec_rowStep cfg s.now s.db i
        rw [hj, hj'] at hr
        cases hr with
        | created hins =>
          have hge := (hacts.inserts hins).1
          rw [Db.job_id hj'] at hge
          exact absurd hge (not_le.2 hi)
    refine ⟨?_, ?_, S', ?_⟩
    · intro i j' hj'
      by_contra hge
      have hi : s.uuid + c.idCount ≤ i := by rw [← hu]; exact not_lt.1 hge
      rw [hdb] at hj'
      have hr := c.exec_rowStep cfg s.now s.db i
      rw [hj'] at hr
      cases hj : s.db.job i with
      | some j => exact absurd (I.ids i j hj) (not_lt.2 (le_trans (Nat.le_add_right _ _) hi))
      | none =>
        rw [hj] at hr
        cases hr with
        | created hins =>
          have hlt := (hacts.inserts hins).2
          rw [Db.job_id hj'] at hlt
          exact absurd hi (not_le.2 hlt)
    · intro i hi
      rw [hu] at hi
      rw [declared_cons ha, I.declares_fresh hacts hi, I.fresh i (le_trans (Nat.le_add_right _ _) hi)]
      rfl
    · intro x hx
      rcases Sys.pending_step hn hx with hx | hx
      · refine (I.pending x hx).step hmono (fun i d => mem_declared_cons) (fun d => reached_cons) hrow ?_
        rw [hdb]
        exact c.exec_keeps cfg s.now I.sound hf
      · exact I.arrives hn S' hx

theorem dependencyInvariant (hr : (system cfg).Run s h) : DependencyInvariant s h :=
  hr.invariant (C := fun _ _ => True) (I := DependencyInvariant)
    (fun _ => dependencyInvariant_init) (fun _ _ _ _ _ _ I _ hn => I.step hn) fun _ _ => trivial

theorem covered_step (I : DependencyInvariant s h)
    (C : s.db.Covered (declared h) fun d => reached s h d = true) (hC : DependencySafe s a)
    (hn : s.next cfg a = some s') :
    s'.db.Covered (declared ((s, a) :: h)) fun d => reached s' ((s, a) :: h) d = true := by
  cases Sys.step_of_next hn with
  | idle ha _ hdb =>
    rw [show declared ((s, a) :: h) = declared h from funext (declared_cons_none ha), hdb]
    exact C.mono fun d => reached_cons
  | stmt c k ha hacts _ hdb =>
    rw [show declared ((s, a) :: h) = fun i => c.declares s.db i ++ declared h i from
      funext (declared_cons ha), hdb]
    refine c.exec_covered cfg s.now C I.sound (I.fits hacts) (hC c k ha) (fun d => reached_cons) ?_
    intro d hd
    simp [reached, hdb, hd]

theorem covered_run (hr : (system cfg).Run s h) (hC : (system cfg).Steps DependencySafe h) :
    s.db.Covered (declared h) fun d => reached s h d = true :=
  hr.invariant (C := DependencySafe)
    (I := fun (s : Sys) h => s.db.Covered (declared h) fun d => reached s h d = true)
    (fun _ hi => covered_init hi)
    (fun _ _ _ _ hr _ C hC hn => covered_step (dependencyInvariant hr) C hC hn) hC

/-- No delete makes a row claimable. -/
theorem claimable_of_deletes {db : Db} {now : Time} {p : Job → Bool}
    (hd : c.deletes now db = some p) (hj' : (c.exec cfg now db).job i = some j')
    (hc : j'.claimable now = true) : ∃ j, db.job i = some j ∧ j.claimable now = true := by
  have hdel : ∀ {d : Db} {p : Job → Bool}, (d.deleteJobs now p).job i = some j' →
      ∃ j, d.job i = some j ∧ j.claimable now = true := by
    intro d p h
    obtain ⟨j, t, hj, -, ⟨rfl, -⟩ | ⟨⟨r, rfl⟩, -⟩⟩ := Db.job_deleteJobs h
    · exact ⟨j, hj, hc⟩
    · cases hc
  cases c with
  | cleanupFinished | cleanupFailed | purgeDlq | deleteQueue => exact hdel hj'
  | cleanupExpired pick =>
    obtain ⟨j₁, hj₁, hc₁⟩ := hdel (d := db.beforeExpiry now pick) hj'
    obtain ⟨j, hj, hw⟩ := (Db.withdraws_beforeExpiry db now pick).job hj₁
    cases hw with
    | kept => exact ⟨_, hj, hc₁⟩
    | cancelled => cases hc₁
  | _ => cases hd

/-- **Dependency safety.** In every run whose steps are safe, a job becomes
processing only after all (mode `all`) or one (mode `any`) of the dependencies
ever declared for it reached completed, and a delete makes no job claimable. -/
theorem dependency_safety (hr : (system cfg).Run s h) (hC : (system cfg).Steps DependencySafe h)
    (hn : s.next cfg a = some s') :
    (∀ i, s.db.processing i = false → s'.db.processing i = true → ∃ j, s.db.job i = some j ∧
      j.dependencyMode.Cleared (declared h i) fun d => reached s h d = true) ∧
    ∀ c k p, s.action a = some (c, k) → c.deletes s.now s.db = some p → ∀ i j',
      s'.db.job i = some j' → j'.claimable s.now = true →
      ∃ j, s.db.job i = some j ∧ j.claimable s.now = true := by
  have C := covered_run hr hC
  constructor
  · intro i hno hyes
    simp only [Db.processing, Option.any_eq_true, beq_iff_eq] at hyes
    obtain ⟨j', hj', hs⟩ := hyes
    have hnot : ∀ j, s.db.job i = some j → j.status ≠ .processing := by
      intro j hj hp
      simp [Db.processing, hj, hp] at hno
    cases Sys.step_of_next hn with
    | idle _ _ hdb =>
      rw [hdb] at hj'
      exact absurd hs (hnot j' hj')
    | stmt c k _ _ _ hdb =>
      rw [hdb] at hj'
      rcases Db.exec_processing hj' hs with ⟨hi, hsome⟩ | ⟨-, j, hj, hsame⟩
      · obtain ⟨lease, hl⟩ := Option.isSome_iff_exists.1 hsome
        rw [hl] at hi
        obtain ⟨j, hj⟩ := Db.job_of_issues hi
        have hc := Db.issues_claimable hj hi
        simp only [Job.claimable, Bool.and_eq_true] at hc
        exact ⟨j, hj, C.gate i j hj (Job.not_closed_of_waiting hc.1.1.1) hc.2⟩
      · exact absurd hsame.processing (hnot j hj)
  · intro c k p ha hd i j' hj' hc
    cases Sys.step_of_next hn with
    | idle ha' => rw [ha'] at ha; cases ha
    | stmt c' k' ha' _ _ hdb =>
      rw [ha'] at ha
      cases ha
      rw [hdb] at hj'
      exact claimable_of_deletes hd hj' hc

end Run

/-- A workflow of two steps, the second waiting for the first. -/
def twoSteps : Label :=
  .stmt (.createWorkflow 1 0 1
    [{ queueName := "q", maxRetries := some 0 }, { queueName := "q", dependsOn := [0] }])

/-- The first step completes and the second is claimed. -/
theorem dependency_safety_twoSteps : ∃ s h s', (system {}).Run s h ∧
    (system {}).Steps DependencySafe h ∧ s.next {} (.stmt (.dequeue 4 clientClaim)) = some s' ∧
    s'.db.processing 2 = true ∧ declared h 2 = [1] ∧ ∃ j, s.db.job 2 = some j ∧
      j.dependencyMode.Cleared (declared h 2) fun d => reached s h d = true := by
  obtain ⟨s, h, hr, hp⟩ := Machine.Run.of_exec (system {})
    [twoSteps, .stmt (.dequeue 3 clientClaim), .stmt (.complete (clientHolds 1 (.single 3)))] {}
    (fun x => x.2.all (fun y => (y.1.action y.2).all fun z => z.1.dependencySafe y.1.now y.1.db) &&
      !x.1.db.processing 2 && declared x.2 2 == [1] &&
      (x.1.next {} (.stmt (.dequeue 4 clientClaim))).any (·.db.processing 2))
    ⟨rfl, rfl⟩ (by decide +kernel)
  simp only [Bool.and_eq_true, all_eq_true, Bool.not_eq_true', beq_iff_eq,
    Option.any_eq_true] at hp
  obtain ⟨⟨⟨hsafe, hno⟩, hD⟩, s', hn, hyes⟩ := hp
  have hC : (system {}).Steps DependencySafe h := by
    intro x hx c k ha
    have := hsafe x hx
    rwa [ha] at this
  exact ⟨s, h, s', hr, hC, hn, hyes, hD, (dependency_safety hr hC hn).1 2 hno hyes⟩

/-- The first step is dead-lettered, which cancels the second; after the purge
of the first a retry of the workflow runs the second. -/
theorem dependency_safety_purge_then_retry : ∃ s h s', (system {}).Run s h ∧
    s.next {} (.stmt (.dequeue 4 clientClaim)) = some s' ∧
    s.db.processing 2 = false ∧ s'.db.processing 2 = true ∧ ∃ j, s.db.job 2 = some j ∧
      ¬ j.dependencyMode.Cleared (declared h 2) fun d => reached s h d = true := by
  obtain ⟨s, h, hr, hp⟩ := Machine.Run.of_exec (system {})
    [twoSteps, .stmt (.dequeue 3 clientClaim), .failRead (clientHolds 1 (.single 3)),
      .failWrite 0 "boom" 0, .stmt .cancelDependencyFailed, .stmt (.purgeDlq 1 fun _ => true),
      .stmt (.retryWorkflow 0 1)] {}
    (fun x => !x.1.db.processing 2 && declared x.2 2 == [1] && !reached x.1 x.2 1 &&
      (x.1.next {} (.stmt (.dequeue 4 clientClaim))).any (·.db.processing 2) &&
      (x.1.db.job 2).any (·.dependencyMode == .all))
    ⟨rfl, rfl⟩ (by decide +kernel)
  simp only [Bool.and_eq_true, Bool.not_eq_true', beq_iff_eq, Option.any_eq_true] at hp
  obtain ⟨⟨⟨⟨hno, hD⟩, hnever⟩, s', hn, hyes⟩, j, hj, hm⟩ := hp
  refine ⟨s, h, s', hr, hn, hno, hyes, j, hj, ?_⟩
  rw [hm, hD]
  intro hc
  rw [hc 1 mem_cons_self] at hnever
  cases hnever

end Spooled
