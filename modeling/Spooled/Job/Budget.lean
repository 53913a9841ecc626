import Spooled.Job.Lease

/-!
# Retry budget

`retry_count` is raised by the statements that take a claim away and give the
job back, and seven statements decide on their own whether to do that or to
dead-letter. A row accounts for `Job.attempts` claims since it was created or
last retried. The run invariant compares that number with the claims the
history shows, the undelivered ones that were taken back apart.
-/

namespace Spooled

open List

/-! ## What a row has spent -/

/-- 1 while the last claim counts on top of `retry_count`: it runs, or it was the last one. -/
def Status.spent : Status → Int
  | .processing | .completed | .failed | .deadletter => 1
  | .pending | .scheduled | .cancelled => 0

def Job.attempts (j : Job) : Int := j.retryCount + j.status.spent

theorem Status.spent_of_waiting {st : Status} (h : st.waiting = true) : st.spent = 0 := by
  cases st <;> first | rfl | cases h

theorem Status.spent_nonneg (st : Status) : 0 ≤ st.spent := by
  cases st <;> decide

theorem Status.spent_le (st : Status) : st.spent ≤ 1 := by
  cases st <;> decide

/-- `j` and `j'` are one row with the same claims accounted for. -/
structure Job.SameBudget (j j' : Job) : Prop where
  retryCount : j'.retryCount = j.retryCount
  maxRetries : j'.maxRetries = j.maxRetries
  spent : j'.status.spent = j.status.spent

section Moves

variable {now : Time} {j j' j'' : Job}

theorem sweptAway_cancelled (h : Db.sweptAway j = true) : j.status = .cancelled := by
  simp only [Db.sweptAway, Bool.and_eq_true, beq_iff_eq] at h
  exact h.1

theorem Job.Move.sameBudget (h : j.Move now j') : j.SameBudget j' := by
  cases h with
  | regate | setMode | setPriority | reparent | renew => exact ⟨rfl, rfl, rfl⟩
  | cancel e hs => exact ⟨rfl, rfl, (Status.spent_of_waiting hs).symm⟩
  | activate hs => exact ⟨rfl, rfl, by rw [hs]; rfl⟩
  | reopen st hs hst =>
    exact ⟨rfl, rfl, by rw [sweptAway_cancelled hs]; exact Status.spent_of_waiting hst⟩

theorem Job.Moves.sameBudget (h : j.Moves now j') : j.SameBudget j' := by
  induction h with
  | refl => exact ⟨rfl, rfl, rfl⟩
  | tail _ hm ih =>
    have h₂ := hm.sameBudget
    exact ⟨h₂.retryCount.trans ih.retryCount, h₂.maxRetries.trans ih.maxRetries,
      h₂.spent.trans ih.spent⟩

theorem Job.Moves.processing (h : j.Moves now j') (hp : j.status = .processing) :
    j'.status = .processing := by
  induction h with
  | refl => exact hp
  | tail _ hm ih =>
    cases hm with
    | regate | setMode | setPriority | reparent | renew => exact ih
    | cancel e hs | activate hs => rw [ih] at hs; cases hs
    | reopen st hs => rw [sweptAway_cancelled hs] at ih; cases ih

end Moves

/-! ## What a statement does to the counters of a row -/

section RowStep

variable {cfg : Config} {now : Time} {db : Db} {c : Stmt} {j j' : Job}

theorem revives_not_processing (h : c.revives db j = true) : j.status ≠ .processing := by
  intro hp
  rcases revives_status h with hs | hs
  · rw [hp] at hs; cases hs
  · rw [sweptAway_cancelled hs] at hp; cases hp

/-- The counters a REST fail writes from are the row's own. -/
def ReadsCurrent (now : Time) (c : Stmt) (j : Job) : Prop :=
  ∀ q read error jitter, c = .failWrite q read error jitter → j.heldBy now q = true →
    read = (j.retryCount, j.maxRetries)

/-- `max_retries` is never written. -/
theorem RowStep.maxRetries (h : RowStep cfg now db c (some j) (some j')) :
    j'.maxRetries = j.maxRetries := by
  cases h with
  | moved _ hm | revived _ _ _ _ hm => exact hm.sameBudget.maxRetries
  | ended _ he => cases he <;> rfl
  | claimed | deadlettered | failed | unsent => rfl

/-- **One statement keeps the counters of a row in bounds.** -/
theorem RowStep.bounds (h : RowStep cfg now db c (some j) (some j')) (hread : ReadsCurrent now c j)
    (h₀ : 0 ≤ j.retryCount) (h₁ : j.retryCount ≤ j.maxRetries) :
    0 ≤ j'.retryCount ∧ j'.retryCount ≤ j'.maxRetries := by
  rw [h.maxRetries]
  cases h with
  | moved _ hm => rw [hm.sameBudget.retryCount]; exact ⟨h₀, h₁⟩
  | claimed | deadlettered | unsent => exact ⟨h₀, h₁⟩
  | ended _ he =>
    cases he with
    | complete => exact ⟨h₀, h₁⟩
    | reschedule | release =>
      change 0 ≤ j.retryCount + 1 ∧ j.retryCount + 1 ≤ j.maxRetries
      omega
  | failed q read error jitter t hc hh hlt =>
    obtain rfl := hread q read error jitter hc hh
    change 0 ≤ j.retryCount + 1 ∧ j.retryCount + 1 ≤ j.maxRetries
    have hlt : j.retryCount < j.maxRetries := hlt
    omega
  | revived _ _ _ _ hm =>
    have : j'.retryCount = 0 := hm.sameBudget.retryCount
    omega

/-- The job waits with one more retry spent, due in a minute at the latest, behind its old gate. -/
structure Job.Requeued (now : Time) (j j' : Job) : Prop where
  retryCount : j'.retryCount = j.retryCount + 1
  waiting : j'.status.waiting = true
  due : j'.due (now + Db.maxBackoff) = true
  expiresAt : j'.expiresAt = j.expiresAt
  dependenciesMet : j'.dependenciesMet = j.dependenciesMet

/-- The time from which on the job is due. -/
def Job.dueFrom (now : Time) (j : Job) : Time := max now (j.scheduledAt.getD now)

theorem Job.Requeued.claimable_iff (h : j.Requeued now j') :
    (∃ t, now ≤ t ∧ j'.claimable t = true) ↔
      j.gateOpen = true ∧ j.unexpired (j'.dueFrom now) = true := by
  have hgate : j'.gateOpen = j.gateOpen := by
    unfold Job.gateOpen
    rw [h.dependenciesMet]
  have hexp : ∀ t, j'.unexpired t = j.unexpired t := by
    intro t
    unfold Job.unexpired
    rw [h.expiresAt]
  have hdue : ∀ t, now ≤ t → (j'.due t = true ↔ j'.dueFrom now ≤ t) := by
    intro t ht
    unfold Job.due Job.dueFrom
    cases j'.scheduledAt with
    | none => simpa using ht
    | some u => simp [ht]
  constructor
  · rintro ⟨t, ht, hc⟩
    simp only [Job.claimable, Bool.and_eq_true, hgate, hexp] at hc
    obtain ⟨⟨⟨-, hd⟩, hu⟩, hg⟩ := hc
    refine ⟨hg, ?_⟩
    have hle := (hdue t ht).1 hd
    unfold Job.unexpired at hu ⊢
    cases he : j.expiresAt with
    | none => rfl
    | some e =>
      rw [he] at hu
      exact decide_eq_true (Nat.lt_of_le_of_lt hle (of_decide_eq_true hu))
  · rintro ⟨hg, hu⟩
    have hnow : now ≤ j'.dueFrom now := Nat.le_max_left _ _
    refine ⟨j'.dueFrom now, hnow, ?_⟩
    simp only [Job.claimable, h.waiting, (hdue _ hnow).2 (Nat.le_refl _), hexp, hu, hgate, hg,
      Bool.and_self]

/-- The ways a claim ends: completed, taken back undelivered, requeued with one
more retry spent, or dead-lettered. -/
inductive Job.ClaimEnds (now : Time) (c : Stmt) (j j' : Job) : Prop
  | completed : j'.status = .completed → ClaimEnds now c j j'
  | unsent (i : JobId) (org : OrgId) (lease : LeaseId) : c = .releaseUnsentClaim i org lease →
      ClaimEnds now c j j'
  | requeued : j.Requeued now j' → ((∃ t, now ≤ t ∧ j'.claimable t = true) ↔
      j.gateOpen = true ∧ j.unexpired (j'.dueFrom now) = true) → ClaimEnds now c j j'
  | deadlettered : j'.status = .deadletter → j'.retryCount = j.retryCount → ClaimEnds now c j j'

/-- **One statement ends a claim in one of these ways.** -/
theorem RowStep.claimEnds (h : RowStep cfg now db c (some j) (some j'))
    (hread : ReadsCurrent now c j) (hdue : j.due now = true) (hp : j.status = .processing)
    (hp' : j'.status ≠ .processing) : j.ClaimEnds now c j' := by
  have hrequeued : j.Requeued now j' → j.ClaimEnds now c j' :=
    fun hr => .requeued hr hr.claimable_iff
  have hlater : ∀ {t : Time}, t ≤ now + Db.maxBackoff →
      (some t).all (fun u => decide (u ≤ now + Db.maxBackoff)) = true := fun ht => decide_eq_true ht
  cases h with
  | moved _ hm => exact absurd (hm.processing hp) hp'
  | claimed _ _ _ _ hc => exact absurd hp (Db.not_processing_of_claimable hc)
  | revived _ _ _ hr => exact absurd hp (revives_not_processing hr)
  | unsent k org lease hc => exact .unsent k org lease hc
  | ended _ he =>
    cases he with
    | complete => exact .completed rfl
    | reschedule error t _ _ ht => exact hrequeued ⟨rfl, rfl, hlater ht, rfl, rfl⟩
    | release error =>
      -- the job was due when it was claimed, and its `scheduled_at` is kept
      refine hrequeued ⟨rfl, rfl, ?_, rfl, rfl⟩
      show j.due (now + Db.maxBackoff) = true
      unfold Job.due at hdue ⊢
      cases hs : j.scheduledAt with
      | none => rfl
      | some u =>
        rw [hs] at hdue
        exact decide_eq_true (Nat.le_trans (of_decide_eq_true hdue) (Nat.le_add_right _ _))
  | deadlettered => exact .deadlettered rfl rfl
  | failed q read error jitter t hc hh _ ht =>
    obtain rfl := hread q read error jitter hc hh
    exact hrequeued ⟨rfl, rfl, hlater ht, rfl, rfl⟩

end RowStep

/-! ## Bounds along a run -/

theorem resolveMaxRetries_nonneg {path : CreatePath} {requested queue : Option Int} {server : Int}
    (hr : validMaxRetries requested = true) (hq : ∀ n, queue = some n → 0 ≤ n)
    (hs : 0 ≤ server) : 0 ≤ resolveMaxRetries path requested queue server := by
  have hqs : 0 ≤ queue.getD server := by
    cases queue with
    | none => exact hs
    | some n => exact hq n rfl
  have hrs : 0 ≤ requested.getD (queue.getD server) := by
    cases requested with
    | none => exact hqs
    | some n =>
      simp only [validMaxRetries, Option.all_some, Bool.and_eq_true, decide_eq_true_eq] at hr
      exact hr.1
  cases path <;> simp only [resolveMaxRetries, clampInt]
  case grpc => split <;> omega
  all_goals omega

/-- The reads of the REST fails in flight are current as long as the lease they
read under is held. -/
def FreshReads (s : Sys) : Prop :=
  ∀ q read, .fail q read ∈ s.pending → ∃ lease, q.leaseId = some lease ∧
    lease.uuid < s.uuid ∧ ∀ j, s.db.job q.job = some j → j.status = .processing →
      j.leaseId = some lease → read = (j.retryCount, j.maxRetries)

/-- Counters in bounds, and what keeps them so: sane defaults, and handlers
whose reads are current as long as the lease they read under is held. -/
structure BudgetInvariant (s : Sys) : Prop where
  config : ∀ c ∈ s.db.queueConfig, 0 ≤ c.maxRetries
  requests : ∀ q met, .create q met ∈ s.pending → validMaxRetries q.maxRetries = true
  bounds : ∀ i j, s.db.job i = some j → 0 ≤ j.retryCount ∧ j.retryCount ≤ j.maxRetries
  reads : FreshReads s

section Step

variable {cfg : Config} {s s' : Sys} {a : Label} {h : List (Sys × Label)} {i : JobId} {j : Job}
  {c : Stmt} {k : Sys → Sys}

theorem FreshReads.readsCurrent (R : FreshReads s) (ha : s.Acts a c k)
    (hj : s.db.job i = some j) : ReadsCurrent s.now c j := by
  intro q read error jitter hc hh
  subst hc
  cases ha with
  | stmt _ hd => cases hd
  | failWrite n _ _ _ _ hp =>
    obtain ⟨lease, hql, -, hcur⟩ := R q read (mem_of_getElem? hp)
    have hq := Db.heldBy_job (Db.job_mem hj) hh
    simp only [Job.heldBy, Bool.and_eq_true, beq_iff_eq] at hh
    exact hcur j hq hh.1.1.1.2 (hh.1.2.2.trans hql)

theorem FreshReads.step (R : FreshReads s) (L : LeaseInvariant cfg s h)
    (hn : s.next cfg a = some s') : FreshReads s' := by
  intro q read hq
  have hmono := Sys.uuid_mono hn
  rcases Sys.pending_step hn hq with hq | hq
  · obtain ⟨lease, hql, hlt, hcur⟩ := R q read hq
    refine ⟨lease, hql, by omega, fun j' hj' hs hl => ?_⟩
    cases Sys.step_of_next hn with
    | stmt c k ha hacts _ hdb =>
      rw [hdb] at hj'
      rcases Db.exec_processing hj' hs with ⟨hiss, -⟩ | ⟨-, j, hj, hsame⟩
      · have := (hacts.issues (hiss.trans hl)).1
        omega
      · rw [hsame.retryCount, hsame.maxRetries]
        exact hcur j hj hsame.processing (hsame.leaseId.symm.trans hl)
    | idle _ _ hdb => rw [hdb] at hj'; exact hcur j' hj' hs hl
  · cases hq with
    | fail _ _ hread =>
      obtain ⟨j, hfind, rfl⟩ := Option.map_eq_some_iff.1 hread
      have hmem := mem_of_find?_eq_some hfind
      have hh := find?_some hfind
      obtain ⟨lease, hql, hl⟩ := Db.heldBy_holds hmem hh
      have hdb : s'.db = s.db := by cases hn; rfl
      refine ⟨lease, hql, ?_, fun j' hj' _ _ => ?_⟩
      · have := L.fresh _ _ hl
        omega
      · rw [hdb, Db.heldBy_job hmem hh] at hj'
        cases hj'
        rfl

theorem freshReads_run (hr : (system cfg).Run s h) : FreshReads s := by
  refine hr.invariant (M := system cfg) (C := fun _ _ => True) (I := fun s _ => FreshReads s)
    (fun s hi q read hq => ?_) (fun s h a s' hr _ R _ hn => R.step (leaseInvariant_of_run hr) hn)
    fun _ _ => trivial
  rw [hi.2] at hq
  cases hq

theorem due_of_processing (hr : (system cfg).Run s h) :
    ∀ i j, s.db.job i = some j → j.status = .processing → j.due s.now = true := by
  refine hr.invariant (M := system cfg) (C := fun _ _ => True)
    (I := fun s _ => ∀ i j, s.db.job i = some j → j.status = .processing → j.due s.now = true)
    (fun s hi i j hj => ?_) (fun s h a s' _ _ D _ hn i j' hj' hs => ?_) fun _ _ => trivial
  · rw [hi.1] at hj
    cases hj
  have hlater : ∀ {x y : Job} {t t' : Time}, t ≤ t' → y.scheduledAt = x.scheduledAt →
      x.due t = true → y.due t' = true := by
    intro x y t t' ht hxy hd
    unfold Job.due at hd ⊢
    rw [hxy]
    cases hx : x.scheduledAt with
    | none => rfl
    | some u =>
      rw [hx] at hd
      exact decide_eq_true (Nat.le_trans (of_decide_eq_true hd) ht)
  cases Sys.step_of_next hn with
  | stmt c k _ _ _ hdb hnow =>
    rw [hdb] at hj'
    have hnow := Nat.le_of_eq hnow.symm
    rcases Db.exec_processing hj' hs with ⟨hiss, hsome⟩ | ⟨-, j, hj, hsame⟩
    · obtain ⟨lease, hl⟩ := Option.isSome_iff_exists.1 hsome
      rw [hl] at hiss
      obtain ⟨j, hj⟩ := Db.job_of_issues hiss
      obtain ⟨worker, len, started, hc⟩ := Db.exec_issued cfg hj hiss
      rw [hc] at hj'
      cases hj'
      have hclaim := Db.issues_claimable hj hiss
      simp only [Job.claimable, Bool.and_eq_true] at hclaim
      exact hlater hnow rfl hclaim.1.1.2
    · exact hlater hnow hsame.scheduledAt (D i j hj hsame.processing)
  | idle _ _ hdb hnow =>
    rw [hdb] at hj'
    exact hlater hnow rfl (D i j' hj' hs)

theorem queueMaxRetries_nonneg {db : Db} (hc : ∀ c ∈ db.queueConfig, 0 ≤ c.maxRetries) {org : OrgId}
    {queue : String} : ∀ n, db.queueMaxRetries org queue = some n → 0 ≤ n := by
  intro n hn
  obtain ⟨c, hfind, rfl⟩ := Option.map_eq_some_iff.1 hn
  exact hc c (mem_of_find?_eq_some hfind)

theorem BudgetInvariant.inserts (I : BudgetInvariant s) (hcfg : 0 ≤ cfg.defaultMaxRetries)
    (ha : s.Acts a c k) (hi : c.Inserts cfg s.now s.db j) :
    0 ≤ j.retryCount ∧ j.retryCount ≤ j.maxRetries := by
  rw [hi.fresh.retryCount]
  refine ⟨le_rfl, ?_⟩
  cases hi with
  | job q i met =>
    have hmem : .create q met ∈ s.pending := by
      cases ha with
      | stmt _ hd => cases hd
      | createInsert n q met hp => exact mem_of_getElem? hp
    exact resolveMaxRetries_nonneg (I.requests q met hmem) (queueMaxRetries_nonneg I.config) hcfg
  | step org w base defs d n hd =>
    have hvalid : validMaxRetries d.maxRetries = true := by
      cases ha with
      | stmt _ hdirect =>
        simp only [Stmt.direct, validSteps, Bool.and_eq_true, all_eq_true] at hdirect
        exact (hdirect.2.1 d (fst_mem_of_mem_zipIdx hd)).2
    change 0 ≤ resolveMaxRetries .workflow d.maxRetries _ _
    exact resolveMaxRetries_nonneg hvalid (queueMaxRetries_nonneg I.config) hcfg

theorem budgetInvariant_init (hi : (system cfg).Init s) : BudgetInvariant s := by
  obtain ⟨hdb, hp⟩ := hi
  refine ⟨by simp [hdb], by simp [hp], ?_, fun q read hq => by rw [hp] at hq; cases hq⟩
  intro i j hj
  rw [hdb] at hj
  cases hj

theorem BudgetInvariant.step (I : BudgetInvariant s) (L : LeaseInvariant cfg s h)
    (hcfg : 0 ≤ cfg.defaultMaxRetries) (hn : s.next cfg a = some s') : BudgetInvariant s' := by
  refine ⟨?_, ?_, ?_, I.reads.step L hn⟩
  · intro x hx
    cases Sys.step_of_next hn with
    | stmt c k ha hacts _ hdb =>
      rw [hdb] at hx
      rcases c.exec_queueConfig cfg s.now s.db hx with hx | rfl
      · exact I.config x hx
      · cases hacts with
        | stmt _ hd =>
          simp only [Stmt.direct, Bool.and_eq_true, decide_eq_true_eq] at hd
          exact hd.1
    | idle _ _ hdb => rw [hdb] at hx; exact I.config x hx
  · intro q met hq
    rcases Sys.pending_step hn hq with hq | hq
    · exact I.requests q met hq
    · cases hq with | create _ _ _ hv => exact hv
  · intro i j' hj'
    cases Sys.step_of_next hn with
    | stmt c k ha hacts _ hdb =>
      have hr := c.exec_rowStep cfg s.now s.db i
      rw [← hdb, hj'] at hr
      cases hj : s.db.job i with
      | none =>
        rw [hj] at hr
        cases hr with | created hins => exact I.inserts hcfg hacts hins
      | some j =>
        rw [hj] at hr
        obtain ⟨h₀, h₁⟩ := I.bounds i j hj
        exact hr.bounds (I.reads.readsCurrent hacts hj) h₀ h₁
    | idle _ _ hdb => rw [hdb] at hj'; exact I.bounds i j' hj'

end Step

/-! ## Deliveries -/

def Pending.lease : Pending → Option LeaseId
  | .buffered _ _ lease => some lease
  | _ => none

namespace Sys

def buffered (s : Sys) : List LeaseId := s.pending.filterMap Pending.lease

/-- A step delivers a claim of job `i`: a REST claim with its response, a gRPC
claim when it is handed over. -/
def delivers (s : Sys) (i : JobId) (lease : LeaseId) : Label → Bool
  | .stmt c => s.issues (.stmt c) i == some lease
  | .deliver n => match s.pending[n]? with
    | some (.buffered i' _ lease') => i' == i && lease' == lease
    | _ => false
  | _ => false

/-- Before the step job `i` did not exist, or the step is a retry that resets it. -/
def startsOver (s : Sys) (a : Label) (i : JobId) : Bool :=
  (s.db.job i).all fun j => (s.action a).any fun x => x.1.revives s.db j

end Sys

/-- The claims of job `i` since it was created or last retried. -/
def claimsSince : List (Sys × Label) → JobId → List LeaseId
  | [], _ => []
  | (s, a) :: h, i =>
    if s.startsOver a i then [] else (s.issues a i).toList ++ claimsSince h i

def delivered (h : List (Sys × Label)) (i : JobId) (lease : LeaseId) : Bool :=
  h.any fun x => x.1.delivers i lease x.2

def deliveries (h : List (Sys × Label)) (i : JobId) : Nat :=
  (claimsSince h i).countP (delivered h i)

def mayReach (s : Sys) (h : List (Sys × Label)) (i : JobId) (lease : LeaseId) : Bool :=
  delivered h i lease || decide (lease ∈ s.buffered)

theorem countP_lt_of_mem {α : Type} {p q : α → Bool} {l : List α} {x : α} (hx : x ∈ l)
    (hpq : ∀ y ∈ l, p y = true → q y = true) (hp : p x = false) (hq : q x = true) :
    l.countP p < l.countP q := by
  induction l with
  | nil => cases hx
  | cons y l ih =>
    rw [countP_cons, countP_cons]
    have hle : l.countP p ≤ l.countP q :=
      countP_mono_left fun z hz => hpq z (mem_cons_of_mem _ hz)
    rcases mem_cons.1 hx with rfl | hx
    · rw [hp, hq]
      simp only [Bool.false_eq_true, if_false, if_true]
      omega
    · have := ih hx fun z hz => hpq z (mem_cons_of_mem _ hz)
      have hy := hpq y mem_cons_self
      cases hpy : p y with
      | false => simp only [Bool.false_eq_true, if_false]; split <;> omega
      | true => rw [hy hpy]; omega

theorem not_mem_filterMap_eraseIdx {α β : Type} {f : α → Option β} {l : List α} {n : Nat} {x : α}
    {b : β} (hx : l[n]? = some x) (hf : f x = some b) (hd : (l.filterMap f).Nodup) :
    b ∉ (l.eraseIdx n).filterMap f := by
  induction l generalizing n with
  | nil => cases hx
  | cons y l ih =>
    cases n with
    | zero =>
      obtain rfl : y = x := by simpa using hx
      rw [filterMap_cons_some hf, nodup_cons] at hd
      exact hd.1
    | succ n =>
      have hx : l[n]? = some x := by simpa using hx
      rw [eraseIdx_cons_succ]
      cases hy : f y with
      | none =>
        rw [filterMap_cons_none hy] at hd ⊢
        exact ih hx hd
      | some c =>
        rw [filterMap_cons_some hy, nodup_cons] at hd
        rw [filterMap_cons_some hy]
        intro hb
        rcases mem_cons.1 hb with rfl | hb
        · exact hd.1 (mem_filterMap.2 ⟨x, mem_of_getElem? hx, hf⟩)
        · exact ih hx hd.2 hb

section Deliveries

variable {cfg : Config} {s s' : Sys} {a : Label} {h : List (Sys × Label)} {i : JobId} {j j' : Job}
  {lease : LeaseId} {c : Stmt} {k : Sys → Sys}

theorem Sys.mem_buffered : lease ∈ s.buffered ↔ ∃ i org, .buffered i org lease ∈ s.pending := by
  simp only [Sys.buffered, mem_filterMap]
  constructor
  · rintro ⟨x, hx, hl⟩
    cases x <;> cases hl
    exact ⟨_, _, hx⟩
  · rintro ⟨i, org, hx⟩
    exact ⟨_, hx, rfl⟩

theorem Sys.buffers_cases (s : Sys) (q : ClaimRequest) :
    (s.buffers q).filterMap Pending.lease = [] ∨
      (s.buffers q).filterMap Pending.lease = [.single s.uuid] := by
  have hlen : (s.buffers q).length ≤ 1 := by
    simp only [Sys.buffers, Db.selectForClaim, length_map, length_take]
    omega
  cases hb : s.buffers q with
  | nil => exact .inl rfl
  | cons x xs =>
    rw [hb, length_cons] at hlen
    obtain rfl : xs = [] := eq_nil_of_length_eq_zero (by omega)
    have hx : x ∈ s.buffers q := by rw [hb]; exact mem_cons_self
    obtain ⟨i, -, rfl⟩ := mem_map.1 hx
    exact .inr rfl

theorem Sys.buffered_step (hn : s.next cfg a = some s') :
    s'.buffered.Sublist s.buffered ∨
      s'.buffered = .single s.uuid :: s.buffered ∧ s.uuid < s'.uuid := by
  have hresume : ∀ (t : Sys) n ps, ps.filterMap Pending.lease = [] →
      (t.resume n ps).buffered.Sublist t.buffered := by
    intro t n ps hps
    simp only [Sys.buffered, Sys.resume, filterMap_append, hps, nil_append]
    exact (eraseIdx_sublist _ _).filterMap _
  cases Sys.step_of_next hn with
  | stmt c k ha hacts hst _ _ hu =>
    subst hst
    cases hacts with
    | stmt => exact .inl (List.Sublist.refl _)
    | createInsert n q met =>
      refine .inl (hresume _ _ _ ?_)
      simp only [Sys.afterInsert]
      split
      · split <;> rfl
      · rfl
    | createLink n child parent org =>
      refine .inl (hresume _ _ _ ?_)
      split <;> rfl
    | claimJob q =>
      simp only [Sys.buffered, filterMap_append]
      rcases s.buffers_cases q with hb | hb
      · rw [hb]; exact .inl (List.Sublist.refl _)
      · rw [hb]
        refine .inr ⟨rfl, ?_⟩
        rw [hu]
        exact Nat.lt_succ_self _
    | failWrite | createRecompute | releaseUnsent | oversized => exact .inl (hresume _ _ _ rfl)
  | idle ha hst =>
    left
    cases a <;> simp only [Sys.idle] at hst
    case tick d => cases hst; exact List.Sublist.refl _
    case failRead q =>
      cases hst
      simp only [Sys.buffered]
      split
      · exact List.Sublist.refl _
      · exact List.Sublist.refl _
    case createCheck q =>
      obtain ⟨met, -, hst⟩ := Option.bind_eq_some_iff.1 hst
      split at hst <;> cases hst
      exact List.Sublist.refl _
    case deliver n => split at hst <;> cases hst; exact hresume _ _ _ rfl
    case drop n => split at hst <;> cases hst; exact hresume _ _ _ rfl
    all_goals cases hst

theorem Sys.delivers_cases (hd : s.delivers i lease a = true) :
    s.issues a i = some lease ∧ (∃ c, a = .stmt c) ∨
      ∃ n org, a = .deliver n ∧ s.pending[n]? = some (.buffered i org lease) := by
  cases a <;> simp only [Sys.delivers] at hd
  case stmt c => exact .inl ⟨by simpa using hd, c, rfl⟩
  case deliver n =>
    split at hd
    · next i' org lease' hp =>
      simp only [Bool.and_eq_true, beq_iff_eq] at hd
      obtain ⟨rfl, rfl⟩ := hd
      exact .inr ⟨n, org, rfl, hp⟩
    · cases hd
  all_goals cases hd

theorem mayReach_step (hn : s.next cfg a = some s') (hl : lease.uuid < s.uuid)
    (hm : mayReach s' ((s, a) :: h) i lease = true) : mayReach s h i lease = true := by
  simp only [mayReach, delivered, any_cons, Bool.or_eq_true, decide_eq_true_eq] at hm ⊢
  rcases hm with (hd | hd) | hb
  · rcases Sys.delivers_cases hd with ⟨hi, -⟩ | ⟨n, org, rfl, hp⟩
    · have := (Sys.issues_fresh hn hi).1
      omega
    · exact .inr (Sys.mem_buffered.2 ⟨i, org, mem_of_getElem? hp⟩)
  · exact .inl hd
  · rcases Sys.buffered_step hn with hs | ⟨hs, -⟩
    · exact .inr (hs.subset hb)
    · rw [hs] at hb
      rcases mem_cons.1 hb with rfl | hb
      · exact absurd hl (lt_irrefl _)
      · exact .inr hb

/-- The claims of a history and what is left of them. -/
structure DeliveryInvariant (s : Sys) (h : List (Sys × Label)) : Prop where
  fresh : ∀ lease ∈ s.buffered, lease.uuid < s.uuid
  nodup : s.buffered.Nodup
  claimed : ∀ i, ∀ lease ∈ claimsSince h i, lease.uuid < s.uuid
  delivered : ∀ i lease, delivered h i lease = true → lease.uuid < s.uuid ∧ lease ∉ s.buffered
  held : ∀ i lease, s.db.Holds i lease → lease ∈ claimsSince h i
  spent : ∀ i j, s.db.job i = some j →
    ((claimsSince h i).countP (mayReach s h i) : Int) ≤ j.attempts

theorem deliveryInvariant_init (hi : (system cfg).Init s) : DeliveryInvariant s [] := by
  obtain ⟨hdb, hp⟩ := hi
  have hb : s.buffered = [] := by simp [Sys.buffered, hp]
  refine ⟨by simp [hb], by simp [hb], by simp [claimsSince], by simp [Spooled.delivered], ?_, ?_⟩
  · rintro i lease ⟨j, hj, -⟩
    rw [hdb] at hj
    cases hj
  · intro i j hj
    rw [hdb] at hj
    cases hj

theorem startsOver_cases (hs : s.startsOver a i = true) (hj : s.db.job i = some j) :
    ∃ c k, s.action a = some (c, k) ∧ c.revives s.db j = true := by
  rw [Sys.startsOver, hj, Option.all_some, Option.any_eq_true] at hs
  obtain ⟨⟨c, k⟩, ha, hr⟩ := hs
  exact ⟨c, k, ha, hr⟩

theorem not_startsOver_of_processing (hj : s.db.job i = some j) (hp : j.status = .processing) :
    s.startsOver a i = false := by
  cases hs : s.startsOver a i with
  | false => rfl
  | true =>
    obtain ⟨c, k, -, hr⟩ := startsOver_cases hs hj
    exact absurd hp (revives_not_processing hr)

theorem not_startsOver_of_issues (hi : s.issues a i = some lease) : s.startsOver a i = false := by
  obtain ⟨⟨c, k⟩, ha, hi⟩ := Option.bind_eq_some_iff.1 hi
  obtain ⟨j, hj⟩ := Db.job_of_issues hi
  cases hs : s.startsOver a i with
  | false => rfl
  | true =>
    obtain ⟨c', k', ha', hr⟩ := startsOver_cases hs hj
    rw [ha] at ha'
    cases ha'
    cases c <;> first | cases hi | cases hr

theorem mem_claimsSince_cons (hm : lease ∈ claimsSince ((s, a) :: h) i) :
    s.issues a i = some lease ∨ lease ∈ claimsSince h i := by
  unfold claimsSince at hm
  split at hm
  · cases hm
  · simpa using hm

theorem DeliveryInvariant.not_buffered_resume (I : DeliveryInvariant s h) {n : Nat} {org : OrgId}
    (hp : s.pending[n]? = some (.buffered i org lease)) {t : Sys} (ht : t.pending = s.pending) :
    lease ∉ (t.resume n []).buffered := by
  simp only [Sys.buffered, Sys.resume, nil_append, ht]
  exact not_mem_filterMap_eraseIdx hp rfl I.nodup

theorem DeliveryInvariant.delivered_step (I : DeliveryInvariant s h)
    (hn : s.next cfg a = some s') (hd : Spooled.delivered ((s, a) :: h) i lease = true) :
    lease.uuid < s'.uuid ∧ lease ∉ s'.buffered := by
  have hmono := Sys.uuid_mono hn
  -- a lease older than the step that waits after it waited before
  have hold : lease.uuid < s.uuid → lease ∉ s.buffered → lease ∉ s'.buffered := by
    intro hlt hno hb
    rcases Sys.buffered_step hn with hs | ⟨hs, -⟩
    · exact hno (hs.subset hb)
    · rw [hs] at hb
      rcases mem_cons.1 hb with rfl | hb
      · exact absurd hlt (lt_irrefl _)
      · exact hno hb
  simp only [Spooled.delivered, any_cons, Bool.or_eq_true] at hd
  rcases hd with hd | hd
  · rcases Sys.delivers_cases hd with ⟨hi, c, rfl⟩ | ⟨n, org, rfl, hp⟩
    · obtain ⟨hu, hlt⟩ := Sys.issues_fresh hn hi
      refine ⟨by omega, fun hb => ?_⟩
      cases Sys.step_of_next hn with
      | stmt c k ha hacts hst =>
        cases hacts with
        | stmt =>
          subst hst
          have := I.fresh lease hb
          omega
      | idle ha => simp [Sys.issues, ha] at hi
    · have hb := Sys.mem_buffered.2 ⟨i, org, mem_of_getElem? hp⟩
      have := I.fresh lease hb
      refine ⟨by omega, ?_⟩
      have hst : s' = s.resume n [] := by
        simp only [Sys.next, Sys.action, Sys.idle, hp] at hn
        exact (Option.some.inj hn).symm
      rw [hst]
      exact I.not_buffered_resume hp rfl
  · obtain ⟨hlt, hno⟩ := I.delivered i lease hd
    exact ⟨by omega, hold hlt hno⟩

theorem DeliveryInvariant.countP_le (I : DeliveryInvariant s h) (hn : s.next cfg a = some s') :
    (claimsSince h i).countP (mayReach s' ((s, a) :: h) i) ≤
      (claimsSince h i).countP (mayReach s h i) :=
  countP_mono_left fun l hl hm => mayReach_step hn (I.claimed i l hl) hm

theorem DeliveryInvariant.countP_lt (I : DeliveryInvariant s h) (hn : s.next cfg a = some s')
    (ha : s.Acts a c k) {org : OrgId} {i' : JobId} (hc : c = .releaseUnsentClaim i' org lease)
    (hst : s' = k (s.run cfg c)) (hl : s.db.Holds i lease) :
    (claimsSince h i).countP (mayReach s' ((s, a) :: h) i) <
      (claimsSince h i).countP (mayReach s h i) := by
  subst hc
  cases ha with
  | stmt _ hd => cases hd
  | releaseUnsent n _ _ _ hp =>
    have hb : lease ∈ s.buffered := Sys.mem_buffered.2 ⟨i', org, mem_of_getElem? hp⟩
    refine countP_lt_of_mem (I.held i lease hl)
      (fun l hl hm => mayReach_step hn (I.claimed i l hl) hm) ?_ (by simp [mayReach, hb])
    have hno : lease ∉ s'.buffered := by
      rw [hst]
      exact I.not_buffered_resume hp rfl
    have hnd : Spooled.delivered h i lease = false := by
      cases hd : Spooled.delivered h i lease with
      | false => rfl
      | true => exact absurd hb (I.delivered i lease hd).2
    simp only [mayReach, hno, decide_false, Bool.or_false]
    simpa [Spooled.delivered, Sys.delivers] using hnd

theorem Job.attempts_nonneg (h₀ : 0 ≤ j.retryCount) : 0 ≤ j.attempts := by
  have := j.status.spent_nonneg
  unfold Job.attempts
  omega

/-- **One step adds at most the claim it makes to what a row accounts for.** -/
theorem DeliveryInvariant.spent_step (I : DeliveryInvariant s h) (B : BudgetInvariant s)
    (hn : s.next cfg a = some s') (hj' : s'.db.job i = some j') (h₀ : 0 ≤ j'.retryCount) :
    ((claimsSince ((s, a) :: h) i).countP (mayReach s' ((s, a) :: h) i) : Int) ≤ j'.attempts := by
  have hle := I.countP_le (i := i) hn
  unfold claimsSince
  cases hover : s.startsOver a i with
  | true => simpa using Job.attempts_nonneg h₀
  | false =>
    simp only [Bool.false_eq_true, if_false]
    obtain ⟨j, hj⟩ : ∃ j, s.db.job i = some j := by
      cases hj : s.db.job i with
      | none => simp [Sys.startsOver, hj] at hover
      | some j => exact ⟨j, rfl⟩
    have hspent := I.spent i j hj
    cases Sys.step_of_next hn with
    | idle ha _ hdb =>
      rw [hdb, hj] at hj'
      cases hj'
      rw [show s.issues a i = none by simp [Sys.issues, ha]]
      simp only [Option.toList_none, nil_append]
      omega
    | stmt c k ha hacts hst hdb =>
      have hiss : s.issues a i = c.issues s.now s.db i := by simp [Sys.issues, ha]
      rw [hiss]
      rw [hdb] at hj'
      cases hi : c.issues s.now s.db i with
      | some lease =>
        obtain ⟨worker, len, started, hc⟩ := Db.exec_issued cfg hj hi
        rw [hc] at hj'
        cases hj'
        have hw : j.status.spent = 0 := by
          have := Db.issues_claimable hj hi
          simp only [Job.claimable, Bool.and_eq_true] at this
          exact Status.spent_of_waiting this.1.1.1
        have hone : ((lease :: claimsSince h i).countP (mayReach s' ((s, a) :: h) i)) ≤
            (claimsSince h i).countP (mayReach s' ((s, a) :: h) i) + 1 := by
          rw [countP_cons]
          split <;> omega
        simp only [Option.toList_some, cons_append, nil_append]
        change _ ≤ j.retryCount + 1
        unfold Job.attempts at hspent
        omega
      | none =>
        simp only [Option.toList_none, nil_append]
        have hr := c.exec_rowStep cfg s.now s.db i
        rw [hj', hj] at hr
        unfold Job.attempts at hspent ⊢
        cases hr with
        | moved _ hm =>
          rw [hm.sameBudget.retryCount, hm.sameBudget.spent]
          omega
        | claimed _ _ _ _ _ hi' =>
          rw [Db.job_id hj, hi] at hi'
          cases hi'
        | deadlettered error _ hs =>
          rw [hs] at hspent
          change _ ≤ j.retryCount + 1
          have : Status.processing.spent = 1 := rfl
          omega
        | ended _ he =>
          cases he with
          | complete m t hs =>
            rw [hs] at hspent
            change _ ≤ j.retryCount + 1
            have : Status.processing.spent = 1 := rfl
            omega
          | reschedule error t hs | release error hs =>
            rw [hs] at hspent
            change _ ≤ j.retryCount + 1 + 0
            have : Status.processing.spent = 1 := rfl
            omega
        | failed q read error jitter t hc hh =>
          obtain rfl := B.reads.readsCurrent hacts hj q read error jitter hc hh
          rw [Db.heldBy_processing hh] at hspent
          change _ ≤ j.retryCount + 1 + 0
          have : Status.processing.spent = 1 := rfl
          omega
        | unsent i' org lease hc hu =>
          have hs := Db.claimedUnder_processing hu
          have hl : s.db.Holds i lease := by
            simp only [Db.claimedUnder, Bool.and_eq_true, beq_iff_eq] at hu
            exact ⟨j, hj, hs, hu.1.2⟩
          have := I.countP_lt hn hacts hc hst hl
          rw [hs] at hspent
          change _ ≤ j.retryCount + 0
          have : Status.processing.spent = 1 := rfl
          omega
        | revived _ _ _ hr =>
          simp [Sys.startsOver, hj, ha, hr] at hover

theorem DeliveryInvariant.step (I : DeliveryInvariant s h) (B : BudgetInvariant s)
    (hn : s.next cfg a = some s') (B' : BudgetInvariant s') :
    DeliveryInvariant s' ((s, a) :: h) := by
  have hmono := Sys.uuid_mono hn
  refine ⟨?_, ?_, ?_, fun i lease => I.delivered_step hn, ?_,
    fun i j' hj' => I.spent_step B hn hj' (B'.bounds i j' hj').1⟩
  · intro lease hb
    rcases Sys.buffered_step hn with hs | ⟨hs, hlt⟩
    · have := I.fresh lease (hs.subset hb)
      omega
    · rw [hs] at hb
      rcases mem_cons.1 hb with rfl | hb
      · exact hlt
      · have := I.fresh lease hb
        omega
  · rcases Sys.buffered_step hn with hs | ⟨hs, -⟩
    · exact I.nodup.sublist hs
    · rw [hs]
      exact nodup_cons.2 ⟨fun hb => lt_irrefl _ (I.fresh _ hb), I.nodup⟩
  · intro i lease hm
    rcases mem_claimsSince_cons hm with hi | hm
    · have := Sys.issues_fresh hn hi
      omega
    · have := I.claimed i lease hm
      omega
  · intro i lease hl
    unfold claimsSince
    rcases Sys.holds_step hn hl with hi | ⟨hi, -, hl'⟩
    · rw [not_startsOver_of_issues hi, hi]
      simp
    · have hmem := I.held i lease hl'
      obtain ⟨j, hj, hs, -⟩ := hl'
      rw [not_startsOver_of_processing hj hs, hi]
      simpa using hmem

theorem budget_of_run (hcfg : 0 ≤ cfg.defaultMaxRetries) (hr : (system cfg).Run s h) :
    BudgetInvariant s ∧ DeliveryInvariant s h := by
  refine hr.invariant (C := fun _ _ => True)
    (I := fun s h => BudgetInvariant s ∧ DeliveryInvariant s h)
    (fun _ hi => ⟨budgetInvariant_init hi, deliveryInvariant_init hi⟩) ?_ (fun _ _ => trivial)
  rintro s h a s' hr - ⟨B, I⟩ - hn
  have B' := B.step (leaseInvariant_of_run hr) hcfg hn
  exact ⟨B', I.step B hn B'⟩

/-! ## The budget -/

/-- **Retry budget.** With a server default that is no negative number, every
row's counter stays within its budget, every claim ends in one of the four
ways (a job that is requeued is claimable again unless its gate is closed or it
expires before it is due), and at most `max_retries + 1` claims are delivered between creation (or
the last retry) and any later state. -/
theorem retry_budget (hcfg : 0 ≤ cfg.defaultMaxRetries) (hrun : (system cfg).Run s h) :
    (∀ i j, s.db.job i = some j → 0 ≤ j.retryCount ∧ j.retryCount ≤ j.maxRetries) ∧
    (∀ a s' c k i j j', s.next cfg a = some s' → s.action a = some (c, k) →
      s.db.job i = some j → s'.db.job i = some j' →
      j.status = .processing → j'.status ≠ .processing → j.ClaimEnds s.now c j') ∧
    ∀ i j, s.db.job i = some j → (deliveries h i : Int) ≤ j.maxRetries + 1 := by
  obtain ⟨B, I⟩ := budget_of_run hcfg hrun
  refine ⟨B.bounds, ?_, ?_⟩
  · intro a s' c k i j j' hn ha hj hj' hp hp'
    cases Sys.step_of_next hn with
    | idle ha' => rw [ha] at ha'; cases ha'
    | stmt c' k' ha' hacts _ hdb =>
      rw [ha] at ha'; cases ha'
      have hr := c.exec_rowStep cfg s.now s.db i
      rw [← hdb, hj, hj'] at hr
      exact hr.claimEnds (B.reads.readsCurrent hacts hj) (due_of_processing hrun i j hj hp) hp hp'
  · intro i j hj
    have hle : deliveries h i ≤ (claimsSince h i).countP (mayReach s h i) :=
      countP_mono_left fun l _ hd => by simp [mayReach, hd]
    have hspent := I.spent i j hj
    have := (B.bounds i j hj).2
    have := j.status.spent_le
    unfold Job.attempts at hspent
    omega

end Deliveries

/-- A job that is claimed and failed once. -/
theorem retry_budget_one_fail : ∃ s h, (system {}).Run s h ∧ deliveries h 0 = 1 ∧
    ∃ j, s.db.job 0 = some j ∧ j.retryCount = 1 ∧ j.retryCount ≤ j.maxRetries ∧
      (deliveries h 0 : Int) ≤ j.maxRetries + 1 := by
  obtain ⟨s, h, hr, hp⟩ := Machine.Run.of_exec (system {})
    [.createCheck clientCreate, .createInsert 0, .stmt (.dequeue 1 clientClaim),
      .failRead (clientHolds 0 (.single 1)), .failWrite 0 "boom" 0] {}
    (fun x => decide (deliveries x.2 0 = 1) && (x.1.db.job 0).any (·.retryCount == 1))
    ⟨rfl, rfl⟩ (by decide +kernel)
  simp only [Bool.and_eq_true, decide_eq_true_eq, Option.any_eq_true, beq_iff_eq] at hp
  obtain ⟨hd, j, hj, hc⟩ := hp
  obtain ⟨hb, -, hmax⟩ := retry_budget (by decide) hr
  exact ⟨s, h, hr, hd, j, hj, hc, (hb 0 j hj).2, hmax 0 j hj⟩

/-- A server default of -1 is stored as it stands by `POST /jobs`: the new row
is past its budget before its first claim. -/
theorem retry_budget_negative_default : ∃ s h, (system ⟨-1⟩).Run s h ∧
    ∃ j, s.db.job 0 = some j ∧ ¬ j.retryCount ≤ j.maxRetries := by
  obtain ⟨s, h, hr, hp⟩ := Machine.Run.of_exec (system ⟨-1⟩)
    [.createCheck clientCreate, .createInsert 0] {}
    (fun x => (x.1.db.job 0).any fun j : Job => decide (¬ j.retryCount ≤ j.maxRetries))
    ⟨rfl, rfl⟩ (by decide +kernel)
  obtain ⟨j, hj, hlt⟩ := (Option.any_eq_true _ _).1 hp
  exact ⟨s, h, hr, j, hj, of_decide_eq_true hlt⟩

end Spooled
