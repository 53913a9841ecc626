import Spooled.Lib.Commands
import Spooled.Store.Move

/-!
# Paused queues

`queues::pause`, `queues::resume`, `queues::update_config` and the claims over
REST (`QueueManager::dequeue_batch`, `QueueManager::dequeue`) and gRPC
(`claim_job`), each statement one step. A claim over REST reads `queue_config`
in a statement of its own, and its claim statement does not look again; the
claim statement over gRPC does. A PUT of the configuration reads the row under
the `queues` lock, which `pause` does not take, and writes `enabled` back when
the request does not name it.
-/

namespace Spooled.Pause

open List

/-! ## State -/

abbrev QueueKey := OrgId × String

structure Board where
  db : Db := {}
  now : Time := 0
  /-- The queues with a committed pause and, since then, neither a committed resume nor a PUT that
  sets `enabled` to true. -/
  pausedSince : List QueueKey := []

def isRow (k : QueueKey) (c : QueueConfig) : Bool := c.organizationId == k.1 && c.queueName == k.2

def configOf (db : Db) (k : QueueKey) : Option QueueConfig := db.queueConfig.find? (isRow k)

/-- `INSERT INTO queue_config … ON CONFLICT DO UPDATE`, with the row that results. -/
def putConfig (db : Db) (c : QueueConfig) : Db :=
  { db with queueConfig := c :: db.queueConfig.filter fun c' =>
      !isRow (c.organizationId, c.queueName) c' }

/-! ## Requests -/

inductive RestClaim
  | batch (stem : Uuid) (n : Nat)
  | single (lease : Uuid)

inductive BoardAsk
  /-- `scheduled`: an active schedule targets the queue. -/
  | pause (k : QueueKey) (scheduled : Bool)
  | resume (k : QueueKey)
  | updateConfig (k : QueueKey) (enabled : Option Bool) (maxRetries : Option Int)
  | dequeue (q : ClaimRequest) (c : RestClaim)
  /-- `dequeue` claims job by job. -/
  | grpcDequeue (q : ClaimRequest) (leases : List Uuid)
  | wait (d : Time)

inductive PausePhase
  | asked | unconfigured | writing

inductive PutPhase
  | asked | locked | read (existing : Option QueueConfig)

inductive BoardProc
  | pausing (k : QueueKey) (scheduled : Bool) (phase : PausePhase)
  | resuming (k : QueueKey) (seen : Bool)
  | configuring (k : QueueKey) (enabled : Option Bool) (maxRetries : Option Int) (phase : PutPhase)
  | claiming (q : ClaimRequest) (c : RestClaim) (checked : Bool)
  | grpcClaiming (q : ClaimRequest) (leases : List Uuid)
  | waiting (d : Time)

def BoardAsk.proc : BoardAsk → BoardProc
  | pause k scheduled => .pausing k scheduled .asked
  | resume k => .resuming k false
  | updateConfig k enabled maxRetries => .configuring k enabled maxRetries .asked
  | dequeue q c => .claiming q c false
  | grpcDequeue q leases => .grpcClaiming q leases
  | wait d => .waiting d

/-! ## Statements -/

inductive BoardCommand
  | pause (k : QueueKey)
  | resume (k : QueueKey)
  | put (k : QueueKey) (enabled : Option Bool) (maxRetries : Option Int)
      (existing : Option QueueConfig)
  | claim (q : ClaimRequest) (c : RestClaim)
  | grpcClaim (q : ClaimRequest) (lease : Uuid)
  | advance (d : Time)

/-- What a PUT writes into `enabled`. -/
def putEnabled (enabled : Option Bool) (existing : Option QueueConfig) : Bool :=
  enabled.getD ((existing.map (·.enabled)).getD true)

def RestClaim.run (c : RestClaim) (db : Db) (now : Time) (q : ClaimRequest) : Db :=
  match c with
  | batch stem n => db.claimBatch now stem n q
  | single lease => db.dequeue now lease q

/-- The row of a queue, or a first one with the server's defaults. -/
def rowOrDefault (cfg : Config) (db : Db) (k : QueueKey) : QueueConfig :=
  (configOf db k).getD
    { organizationId := k.1, queueName := k.2, maxRetries := cfg.defaultMaxRetries }

def BoardCommand.run (cfg : Config) (c : BoardCommand) (s : Board) : Board :=
  match c with
  | pause k =>
    { s with
      db := putConfig s.db { rowOrDefault cfg s.db k with enabled := false }
      pausedSince := k :: s.pausedSince }
  | resume k => match configOf s.db k with
    | none => s
    | some row =>
      { s with
        db := putConfig s.db { row with enabled := true }
        pausedSince := s.pausedSince.filter (· != k) }
  | put k enabled maxRetries existing =>
    let row : QueueConfig :=
      { organizationId := k.1
        queueName := k.2
        enabled := putEnabled enabled existing
        maxRetries := maxRetries.getD ((existing.map (·.maxRetries)).getD cfg.defaultMaxRetries) }
    { s with
      db := putConfig s.db row
      pausedSince := if enabled = some true then s.pausedSince.filter (· != k) else s.pausedSince }
  | claim q c => { s with db := c.run s.db s.now q }
  | grpcClaim q lease => { s with db := s.db.claimJob s.now lease q }
  | advance d => { s with now := s.now + d }

namespace BoardProc

/-- It has taken the `queues` lock of the organization. -/
def hasLock (org : OrgId) : BoardProc → Bool
  | configuring k _ _ .locked | configuring k _ _ (.read _) => k.1 == org
  | _ => false

def act (s : Board) (os : List BoardProc) : BoardProc → Option (Turn BoardCommand BoardProc)
  | pausing k scheduled .asked => some (.stay (.pausing k scheduled
      (if (configOf s.db k).isSome then .writing else .unconfigured)))
  | pausing k scheduled .unconfigured =>
    -- `queue_exists_implicitly`
    if scheduled || s.db.jobs.rows.any (fun j => j.organizationId == k.1 && j.queueName == k.2) then
      some (.stay (.pausing k scheduled .writing))
    else some .quit
  | pausing k _ .writing => some (.run (.pause k) none)
  | resuming k false => some (.stay (.resuming k true))
  | resuming k true => some (.run (.resume k) none)
  | configuring k enabled maxRetries .asked =>
    if os.any (hasLock k.1) then none else some (.stay (.configuring k enabled maxRetries .locked))
  | configuring k enabled maxRetries .locked =>
    some (.stay (.configuring k enabled maxRetries (.read (configOf s.db k))))
  | configuring k enabled maxRetries (.read existing) =>
    some (.run (.put k enabled maxRetries existing) none)
  | claiming q c false =>
    if (configOf s.db (q.organizationId, q.queueName)).any (!·.enabled) then some .quit
    else some (.stay (.claiming q c true))
  | claiming q c true => some (.run (.claim q c) none)
  | grpcClaiming _ [] => some .quit
  | grpcClaiming q (lease :: leases) =>
    some (.run (.grpcClaim q lease) (some (.grpcClaiming q leases)))
  | waiting d => some (.run (.advance d) none)

end BoardProc

@[reducible] def board (cfg : Config) : CommandSpec where
  Store := Board
  Proc := BoardProc
  Ask := BoardAsk
  Command := BoardCommand
  start s a := (s, a.proc)
  run s c := c.run cfg s
  act := BoardProc.act

/-! ## Configuration rows -/

variable {cfg : Config} {s : Board} {os : List BoardProc} {p p' : BoardProc} {k k' : QueueKey}
  {db : Db} {c : QueueConfig}

theorem isRow_iff : isRow k c = true ↔ (c.organizationId, c.queueName) = k := by
  simp only [isRow, Bool.and_eq_true, beq_iff_eq, Prod.ext_iff]

theorem key_configOf (h : configOf db k = some c) : (c.organizationId, c.queueName) = k := by
  have hrow : isRow k c = true := find?_some h
  exact isRow_iff.1 hrow

theorem key_rowOrDefault :
    ((rowOrDefault cfg db k).organizationId, (rowOrDefault cfg db k).queueName) = k := by
  unfold rowOrDefault
  cases hc : configOf db k with
  | none => rfl
  | some c => exact key_configOf hc

/-- The queue has a row, and every row of it is disabled. -/
structure Off (db : Db) (k : QueueKey) : Prop where
  some_row : ∃ c ∈ db.queueConfig, isRow k c = true
  disabled : ∀ c ∈ db.queueConfig, isRow k c = true → c.enabled = false

theorem Off.configOf (h : Off db k) : ∃ c, configOf db k = some c ∧ c.enabled = false := by
  cases hc : Pause.configOf db k with
  | none =>
    obtain ⟨c, hmem, hrow⟩ := h.some_row
    exact absurd hrow (find?_eq_none.1 hc c hmem)
  | some c => exact ⟨c, rfl, h.disabled c (mem_of_find?_eq_some hc) (find?_some hc)⟩

theorem Off.paused (h : Off db k) : db.paused k.1 k.2 = true := by
  obtain ⟨c, hmem, hrow⟩ := h.some_row
  refine any_eq_true.2 ⟨c, hmem, ?_⟩
  have hoff := h.disabled c hmem hrow
  simp only [isRow] at hrow
  rw [hrow, hoff]
  rfl

theorem off_putConfig (hk : isRow k c = true) (hoff : c.enabled = false) : Off (putConfig db c) k := by
  refine ⟨⟨c, mem_cons_self, hk⟩, fun c' hc' hrow => ?_⟩
  rcases mem_cons.1 hc' with rfl | hc'
  · exact hoff
  · have hne := (mem_filter.1 hc').2
    rw [isRow_iff.1 hk, hrow] at hne
    nomatch hne

theorem Off.putConfig (h : Off db k) (hk : (c.organizationId, c.queueName) ≠ k) :
    Off (putConfig db c) k := by
  have hother : isRow k c = false := by
    cases hrow : isRow k c with
    | false => rfl
    | true => exact absurd (isRow_iff.1 hrow) hk
  obtain ⟨c', hmem, hrow⟩ := h.some_row
  refine ⟨⟨c', mem_cons_of_mem _ (mem_filter.2 ⟨hmem, ?_⟩), hrow⟩, fun c' hc' hrow => ?_⟩
  · cases hsame : isRow (c.organizationId, c.queueName) c' with
    | false => rfl
    | true => exact absurd ((isRow_iff.1 hsame).symm.trans (isRow_iff.1 hrow)) hk
  · rcases mem_cons.1 hc' with rfl | hc'
    · rw [hother] at hrow
      nomatch hrow
    · exact h.disabled c' (mem_filter.1 hc').1 hrow

theorem Off.congr {db' : Db} (h : Off db k) (he : db'.queueConfig = db.queueConfig) : Off db' k :=
  ⟨he ▸ h.some_row, he ▸ h.disabled⟩

/-! ## Claim statements -/

variable {c : BoardCommand} {i : JobId} {j' : Job} {now : Time} {q : ClaimRequest}

/-- A claim statement for `q`: it moves only jobs that it may claim. -/
theorem job_claim_status {admits : Job → Bool} {worker : WorkerId}
    {lease : Job → LeaseId} {len : Nat} {started : Job → Time} {n : Nat}
    (h : (db.setStatus now (fun j => j.id ∈ db.selectForClaim admits n)
      fun j => Db.claimRow now worker (lease j) len (started j) j).job i = some j')
    (hadmits : ∀ j, admits j = true → q.eligible now j = true) (hp : j'.status = .processing) :
    (∃ j, db.job i = some j ∧ j.status = .processing) ∨
      ((j'.organizationId, j'.queueName) = (q.organizationId, q.queueName) ∧
        ∃ j, db.job i = some j ∧ admits j = true) := by
  rw [Db.job_setStatus (fun j _ _ => by rw [Db.claimRow_status]; exact nofun)] at h
  obtain ⟨j, hj, rfl⟩ := Option.map_eq_some_iff.1 h
  by_cases hsel : decide (j.id ∈ db.selectForClaim admits n) = true
  · rw [if_pos hsel] at hp ⊢
    have hadm := Db.of_mem_selectForClaim hj (of_decide_eq_true hsel)
    have helig := hadmits j hadm
    simp only [ClaimRequest.eligible, Bool.and_eq_true, beq_iff_eq] at helig
    refine .inr ⟨?_, j, hj, hadm⟩
    show (j.organizationId, j.queueName) = _
    rw [helig.1.1.1.1, helig.1.1.1.2]
  · rw [if_neg hsel] at hp
    exact .inl ⟨j, hj, hp⟩

theorem RestClaim.job_run {claim : RestClaim}
    (h : (claim.run db now q).job i = some j') (hp : j'.status = .processing) :
    (∃ j, db.job i = some j ∧ j.status = .processing) ∨
      (j'.organizationId, j'.queueName) = (q.organizationId, q.queueName) := by
  cases claim with
  | batch stem n =>
    unfold RestClaim.run Db.claimBatch at h
    exact (job_claim_status h (fun _ => id) hp).imp_right And.left
  | single lease =>
    unfold RestClaim.run Db.dequeue at h
    exact (job_claim_status h (fun _ => id) hp).imp_right And.left

theorem job_grpcClaim {lease : Uuid}
    (h : (db.claimJob now lease q).job i = some j') (hp : j'.status = .processing) :
    (∃ j, db.job i = some j ∧ j.status = .processing) ∨
      ((j'.organizationId, j'.queueName) = (q.organizationId, q.queueName) ∧
        db.paused q.organizationId q.queueName = false) := by
  unfold Db.claimJob at h
  refine (job_claim_status h (fun _ h => (Bool.and_eq_true_iff.1 h).1) hp).imp_right
    fun ⟨hkey, j, _, hadm⟩ => ⟨hkey, ?_⟩
  simpa using (Bool.and_eq_true_iff.1 hadm).2

theorem queueConfig_claim {claim : RestClaim} :
    (claim.run db now q).queueConfig = db.queueConfig := by
  cases claim with
  | batch | single => exact Db.setStatus_queueConfig

/-! ## Steps of a request -/

namespace BoardProc

inductive Runs : BoardProc → BoardCommand → Option BoardProc → Prop
  | pause {k : QueueKey} {scheduled : Bool} : Runs (.pausing k scheduled .writing) (.pause k) none
  | resume {k : QueueKey} : Runs (.resuming k true) (.resume k) none
  | put {k : QueueKey} {enabled : Option Bool} {maxRetries : Option Int}
      {existing : Option QueueConfig} : Runs (.configuring k enabled maxRetries (.read existing))
      (.put k enabled maxRetries existing) none
  | claim {q : ClaimRequest} {c : RestClaim} : Runs (.claiming q c true) (.claim q c) none
  | grpcClaim {q : ClaimRequest} {lease : Uuid} {leases : List Uuid} :
      Runs (.grpcClaiming q (lease :: leases)) (.grpcClaim q lease) (some (.grpcClaiming q leases))
  | advance {d : Time} : Runs (.waiting d) (.advance d) none

theorem runs_of_act {c : BoardCommand} {q : Option BoardProc} (h : act s os p = some (.run c q)) :
    Runs p c q := by
  unfold act at h
  split at h
  · nomatch h
  · split at h <;> nomatch h
  · cases h
    exact .pause
  · nomatch h
  · cases h
    exact .resume
  · split at h <;> nomatch h
  · nomatch h
  · cases h
    exact .put
  · split at h <;> nomatch h
  · cases h
    exact .claim
  · nomatch h
  · cases h
    exact .grpcClaim
  · cases h
    exact .advance

/-- It has seen the queue enabled, and acts on that: a claim over REST, or a PUT that writes
`enabled` back. -/
def countsOn (k : QueueKey) : BoardProc → Bool
  | claiming q _ true => (q.organizationId, q.queueName) == k
  | configuring k' enabled _ (.read existing) =>
    enabled.isNone && k' == k && putEnabled none existing
  | _ => false

/-- A pause takes effect while nobody counts on the queue being enabled. -/
def isQuiet (os : List BoardProc) : BoardProc → Bool
  | pausing k _ .writing => os.all fun r => !r.countsOn k
  | _ => true

/-- Nobody counts on a paused queue being enabled. -/
def Calm (s : Board) (p : BoardProc) : Prop := ∀ k ∈ s.pausedSince, p.countsOn k = false

theorem calm_of_stay (hs : ∀ k ∈ s.pausedSince, Off s.db k) (h : act s os p = some (.stay p')) :
    p'.Calm s := by
  intro k hk
  obtain ⟨c, hc, hoff⟩ := (hs k hk).configOf
  unfold act at h
  split at h
  · cases h
    rfl
  · split at h
    · cases h
      rfl
    · nomatch h
  · nomatch h
  · cases h
    rfl
  · nomatch h
  · split at h
    · nomatch h
    · cases h
      rfl
  · next k' enabled maxRetries =>
    cases h
    cases enabled with
    | some => rfl
    | none =>
      show (k' == k && putEnabled none (configOf s.db k')) = false
      by_cases hkk : k' = k
      · subst hkk
        rw [hc]
        simp [putEnabled, hoff]
      · rw [beq_false_of_ne hkk]
        rfl
  · nomatch h
  · next q claim =>
    split at h
    · nomatch h
    · next hno =>
      cases h
      refine beq_false_of_ne fun hkk => hno ?_
      rw [hkk, hc, Option.any_some, hoff]
      rfl
  · nomatch h
  · nomatch h
  · nomatch h
  · nomatch h

end BoardProc

@[reducible] def quietPauses (cfg : Config) : PoolSpec.Allow (board cfg).pool :=
  .onRun (board cfg).pool fun _ os p => BoardProc.isQuiet os p

theorem BoardProc.Runs.off {q : Option BoardProc} (h : Runs p c q)
    (hs : ∀ k ∈ s.pausedSince, Off s.db k) (hcalm : p.Calm s) :
    ∀ k ∈ (c.run cfg s).pausedSince, Off (c.run cfg s).db k := by
  intro k hk
  cases h with
  | @pause k₀ =>
    by_cases hkk : k = k₀
    · subst hkk
      exact off_putConfig (isRow_iff.2 key_rowOrDefault) rfl
    · have hk : k ∈ s.pausedSince := (mem_cons.1 hk).resolve_left hkk
      exact (hs k hk).putConfig fun he => hkk (he.symm.trans key_rowOrDefault)
  | @resume k₀ =>
    simp only [BoardCommand.run] at hk ⊢
    split at hk
    · exact hs k hk
    · next c hc =>
      obtain ⟨hk, hne⟩ := mem_filter.1 hk
      refine (hs k hk).putConfig fun he => ?_
      rw [← he, key_configOf hc] at hne
      simp at hne
  | @put k₀ enabled maxRetries existing =>
    by_cases hkk : k = k₀
    · subst hkk
      refine off_putConfig (isRow_iff.2 rfl) ?_
      show putEnabled enabled existing = false
      cases enabled with
      | some b =>
        cases b with
        | false => rfl
        | true =>
          have hk : k ∈ s.pausedSince.filter (· != k) := hk
          simp at hk
      | none =>
        have hno : (k == k && putEnabled none existing) = false := hcalm k hk
        simpa using hno
    · have hk : k ∈ s.pausedSince := by
        have hk : k ∈ (if enabled = some true then s.pausedSince.filter (· != k₀) else
          s.pausedSince) := hk
        split at hk
        · exact (mem_filter.1 hk).1
        · exact hk
      exact (hs k hk).putConfig fun he => hkk he.symm
  | claim => exact (hs k hk).congr queueConfig_claim
  | grpcClaim => exact (hs k hk).congr Db.setStatus_queueConfig
  | advance => exact hs k hk

theorem BoardCommand.pausedSince_run (h : k ∈ (c.run cfg s).pausedSince) :
    k ∈ s.pausedSince ∨ c = .pause k := by
  cases c with
  | pause k₀ =>
    rcases mem_cons.1 h with rfl | h
    · exact .inr rfl
    · exact .inl h
  | resume k₀ =>
    simp only [BoardCommand.run] at h
    split at h
    · exact .inl h
    · exact .inl (mem_filter.1 h).1
  | put k₀ enabled maxRetries existing =>
    have h : k ∈ (if enabled = some true then s.pausedSince.filter (· != k₀) else
      s.pausedSince) := h
    split at h
    · exact .inl (mem_filter.1 h).1
    · exact .inl h
  | claim | grpcClaim | advance => exact .inl h

theorem board_kept : PoolSpec.Kept (board cfg).pool (quietPauses cfg)
    (fun s => ∀ k ∈ s.pausedSince, Off s.db k) BoardProc.Calm fun _ _ _ => True := by
  refine @CommandSpec.Keeps.kept (board cfg) (quietPauses cfg) _ _ _ ?_
  refine ⟨fun _ => trivial, fun {s a} _ hs => ⟨hs, fun k _ => ?_⟩, fun _ _ hq => ⟨hq, trivial⟩,
    fun _ => trivial, fun {s os p p'} hact _ hb =>
      ⟨BoardProc.calm_of_stay hb.store hact, fun _ _ => trivial⟩,
    fun {s os p c p'} hact hA hb => ?_⟩
  · cases a <;> rfl
  · have hruns : BoardProc.Runs p c p' := BoardProc.runs_of_act hact
    have hA : BoardProc.isQuiet os p = true := hA
    refine ⟨hruns.off hb.store hb.own, fun r hr => ⟨fun k _ => ?_, fun _ _ => trivial⟩,
      fun r hr k hk => ?_, fun _ _ _ _ _ => trivial⟩
    · cases hruns with
      | grpcClaim =>
        cases hr
        rfl
      | pause | resume | put | claim | advance => exact absurd hr (Option.not_mem_none _)
    · rcases BoardCommand.pausedSince_run hk with hk | rfl
      · exact hb.others r hr k hk
      · cases hruns
        have hno := all_eq_true.1 hA r hr
        simpa using hno

def Board.IsStart (s : Board) : Prop := s.pausedSince = []

def boardSystem (cfg : Config) : Machine := (board cfg).pool.machine Board.IsStart

theorem BoardProc.Runs.job {q : Option BoardProc}
    (h : Runs p c q) (hs : ∀ k ∈ s.pausedSince, Off s.db k) (hcalm : p.Calm s)
    (hk : k ∈ s.pausedSince) (hj' : (c.run cfg s).db.job i = some j')
    (hkey : (j'.organizationId, j'.queueName) = k) (hp : j'.status = .processing) :
    ∃ j, s.db.job i = some j ∧ j.status = .processing := by
  cases h with
  | pause | put | advance => exact ⟨j', hj', hp⟩
  | resume =>
    simp only [BoardCommand.run] at hj'
    split at hj' <;> exact ⟨j', hj', hp⟩
  | claim =>
    refine (RestClaim.job_run hj' hp).resolve_right fun hq => ?_
    have hno := hcalm k hk
    simp [BoardProc.countsOn, ← hq, hkey] at hno
  | grpcClaim =>
    refine (job_grpcClaim hj' hp).resolve_right fun ⟨hq, hopen⟩ => ?_
    have hoff := (hs k hk).paused
    rw [hkey] at hq
    rw [hq, hopen] at hoff
    nomatch hoff

/-- **Paused means paused.** When pauses take effect while nobody who has seen the queue enabled is
about to claim from it or to write that back, then from the commit of a pause to the commit of a
resume, or of a PUT that enables the queue, no step makes a job of the queue a processing one. -/
theorem paused_queue_not_claimed {x x' : Pool Board BoardProc}
    {h : List (Pool Board BoardProc × PoolLabel BoardAsk)} {a : PoolLabel BoardAsk} {k : QueueKey}
    {i : JobId} {j' : Job} (hr : (boardSystem cfg).Run x h)
    (hquiet : (boardSystem cfg).Steps (quietPauses cfg).step h) (hk : k ∈ x.store.pausedSince)
    (hn : (boardSystem cfg).next x a = some x') (hj' : x'.store.db.job i = some j')
    (hkey : (j'.organizationId, j'.queueName) = k) (hp : j'.status = .processing) :
    ∃ j, x.store.db.job i = some j ∧ j.status = .processing := by
  have hinv := board_kept.invariant (fun s hs => by rw [hs]; exact nofun) hr hquiet
  rcases CommandSpec.store_of_next hn with ⟨b, -, he⟩ | he | ⟨n, p, c, q, hget, hact, he⟩
  · exact ⟨j', by rw [he] at hj'; exact hj', hp⟩
  · exact ⟨j', by rw [he] at hj'; exact hj', hp⟩
  · have hcalm : p.Calm x.store := hinv.each p (mem_of_getElem? hget)
    rw [he] at hj'
    exact (BoardProc.runs_of_act hact).job hinv.store hcalm hk hj' hkey hp

def waitingJob (i : JobId) : Job where
  id := i
  organizationId := 7
  queueName := "q"

def twoWaiting : Pool Board BoardProc :=
  ⟨{ db := { jobs := (Table.empty.insert (waitingJob 1)).insert (waitingJob 2) } }, []⟩

def claimQ : ClaimRequest where
  organizationId := 7
  queueName := "q"
  worker := 3
  leaseSecs := 30

def rowsOf (db : Db) : Option (Status × QueueKey) × Option (Status × QueueKey) :=
  let row (j : Job) := (j.status, j.organizationId, j.queueName)
  ((db.job 1).map row, (db.job 2).map row)

/-- The queue is paused, and the first process is about to run the step. -/
def jobsAre (x : Pool Board BoardProc) (before after : Status × Status) : Bool :=
  x.store.pausedSince.contains (7, "q") &&
    decide (rowsOf x.store.db = (some (before.1, 7, "q"), some (before.2, 7, "q"))) &&
    ((board {}).pool.next x (.run 0)).any fun x' =>
      decide (rowsOf x'.store.db = (some (after.1, 7, "q"), some (after.2, 7, "q")))

theorem jobsAre_iff {x : Pool Board BoardProc} {before after : Status × Status} :
    jobsAre x before after = true ↔ (7, "q") ∈ x.store.pausedSince ∧
      rowsOf x.store.db = (some (before.1, 7, "q"), some (before.2, 7, "q")) ∧
      ∃ x', (boardSystem {}).next x (.run 0) = some x' ∧
        rowsOf x'.store.db = (some (after.1, 7, "q"), some (after.2, 7, "q")) := by
  simp only [jobsAre, Bool.and_eq_true, contains_iff_mem, decide_eq_true_eq,
    Option.any_eq_true, and_assoc]
  rfl

theorem job_of_rowsOf {db : Db} {st : Status} {o : Option (Status × QueueKey)}
    (h : rowsOf db = (some (st, 7, "q"), o)) :
    ∃ j, db.job 1 = some j ∧ j.status = st ∧ (j.organizationId, j.queueName) = (7, "q") := by
  obtain ⟨j, hj, he⟩ := Option.map_eq_some_iff.1 (Prod.mk.inj h).1
  obtain ⟨hst, hkey⟩ := Prod.mk.inj he
  exact ⟨j, hj, hst, hkey⟩

/-- A job is claimed, the queue is paused, and the next claim leaves the other job alone. -/
theorem paused_queue_not_claimed_grpc : ∃ x h, (boardSystem {}).Run x h ∧
    (boardSystem {}).Steps (quietPauses {}).step h ∧ (7, "q") ∈ x.store.pausedSince ∧
    ∃ x', (boardSystem {}).next x (.run 0) = some x' ∧
      rowsOf x'.store.db = (some (.processing, 7, "q"), some (.pending, 7, "q")) ∧
      ∃ j, x.store.db.job 1 = some j ∧ j.status = .processing := by
  obtain ⟨x, h, hr, hsteps, hjobs⟩ := (quietPauses {}).run_of_exec Board.IsStart
    [.ask (.dequeue claimQ (.single 10)), .run 0, .run 0, .ask (.pause (7, "q") false), .run 0,
      .run 0, .run 0, .ask (.grpcDequeue claimQ [11])]
    twoWaiting (fun x => jobsAre x.1 (.processing, .pending) (.processing, .pending)) ⟨rfl, rfl⟩
    (by decide +kernel)
  obtain ⟨hk, -, x', hn, hrows⟩ := jobsAre_iff.1 hjobs
  obtain ⟨j', hj', hst, hkey⟩ := job_of_rowsOf hrows
  exact ⟨x, h, hr, hsteps, hk, x', hn, hrows,
    paused_queue_not_claimed hr hsteps hk hn hj' hkey hst⟩

/-- A claim over REST that has read the configuration before a pause takes a job after it. -/
theorem claimed_after_pause : ∃ x h x', (boardSystem {}).Run x h ∧
    (7, "q") ∈ x.store.pausedSince ∧
    rowsOf x.store.db = (some (.pending, 7, "q"), some (.pending, 7, "q")) ∧
    (boardSystem {}).next x (.run 0) = some x' ∧ x'.procs = [] ∧
    rowsOf x'.store.db = (some (.processing, 7, "q"), some (.pending, 7, "q")) := by
  obtain ⟨x, h, hr, hp⟩ := Machine.Run.of_exec (boardSystem {})
    [.ask (.dequeue claimQ (.single 10)), .run 0, .ask (.pause (7, "q") false), .run 0, .run 0,
      .run 0]
    twoWaiting (fun x => jobsAre x.1 (.pending, .pending) (.processing, .pending) &&
      ((board {}).pool.next x.1 (.run 0)).all (·.procs.isEmpty)) ⟨rfl, rfl⟩ (by decide +kernel)
  obtain ⟨hjobs, hend⟩ := Bool.and_eq_true _ _ ▸ hp
  obtain ⟨hk, hrows, x', hn, hrows'⟩ := jobsAre_iff.1 hjobs
  have hnext : (board {}).pool.next x (.run 0) = some x' := hn
  rw [hnext] at hend
  exact ⟨x, h, x', hr, hk, hrows, hn, List.isEmpty_iff.1 hend, hrows'⟩

end Spooled.Pause
