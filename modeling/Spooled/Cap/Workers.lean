import Spooled.Lib.Capped
import Spooled.Plan.Limits
import Spooled.Store.Row

/-!
# The cap on workers

Registrations over REST and gRPC, heartbeats, deregistrations, the stale-worker
sweep and the passing of time, for any number of organizations. A registration
takes `lock_resource`, asks whether its worker counts already, checks the cap
for one more if it does not, and writes the row. In its transaction `NOW()` is
the time at which the transaction began, also after it has waited for the lock.

A heartbeat writes a status without a look at the cap.
-/

namespace Spooled.Cap

/-! ## Rows -/

abbrev Workers := Table WorkerId Worker Worker.id

/-- `worker_counts_toward_cap`, with the `NOW()` of the statement. -/
def countsTowardCap (now : Time) (w : Worker) : Bool :=
  match w.status with
  | .healthy | .degraded => true
  | .draining => decide (now < w.lastHeartbeat + secs 120)
  | .offline => false

structure WorkerStore where
  now : Time := 0
  workers : Workers := .empty

/-- The workers of `get_org_resource_counts`. -/
def WorkerStore.count (s : WorkerStore) (now : Time) (org : OrgId) : Nat :=
  s.workers.rows.countP fun w => w.organizationId == org && countsTowardCap now w

/-! ## Requests -/

/-- `VALID_WORKER_STATUSES`. -/
def parseStatus : String → Option WorkerStatus
  | "healthy" => some .healthy
  | "degraded" => some .degraded
  | "draining" => some .draining
  | "offline" => some .offline
  | _ => none

/-- A heartbeat as its statement takes it; over gRPC a status is optional. -/
inductive Beat
  | rest (status : WorkerStatus)
  | grpc (status : Option WorkerStatus)

/-- Over REST what is not a status counts as healthy. -/
def Beat.ofRest (status : Option String) : Beat :=
  .rest ((parseStatus (status.getD "healthy")).getD .healthy)

/-- `requested_heartbeat_status`; `none`: refused. -/
def Beat.ofGrpc (status : String) : Option Beat :=
  if status = "" then some (.grpc none) else (parseStatus status).map fun st => .grpc (some st)

def Beat.status (b : Beat) (current : WorkerStatus) : WorkerStatus :=
  match b with
  | rest st => st
  | grpc st =>
    if current = .draining ∨ st = some .draining then .draining
    else st.getD (if current = .offline then .healthy else current)

structure Registration where
  org : OrgId
  id : WorkerId
  grpc : Bool
  /-- `Utc::now()` of the handler. -/
  asked : Time

inductive RegisterPhase
  | asked
  | opened (began : Time)
  | locked (began : Time)
  | counted (began : Time) (already : Bool)
  | paid (began : Time)

inductive WorkerProc
  | register (g : Registration) (phase : RegisterPhase)
  | heartbeat (org : OrgId) (id : WorkerId) (b : Option Beat) (seen : Bool)
  | deregister (org : OrgId) (id : WorkerId) (seen : Bool)
  /-- The renewal of a job's lease refreshes the worker too. -/
  | jobHeartbeat (org : OrgId) (id : WorkerId)
  | cleanupStaleWorkers
  | wait (d : Time)

inductive WorkerAsk
  | register (org : OrgId) (id : WorkerId) (grpc : Bool)
  | restHeartbeat (org : OrgId) (id : WorkerId) (status : Option String)
  | grpcHeartbeat (org : OrgId) (id : WorkerId) (status : String)
  | deregister (org : OrgId) (id : WorkerId)
  | jobHeartbeat (org : OrgId) (id : WorkerId)
  | cleanupStaleWorkers
  | wait (d : Time)

def WorkerAsk.proc (now : Time) : WorkerAsk → WorkerProc
  | register org id grpc => .register ⟨org, id, grpc, now⟩ .asked
  | restHeartbeat org id status => .heartbeat org id (some (.ofRest status)) false
  | grpcHeartbeat org id status => .heartbeat org id (Beat.ofGrpc status) false
  | deregister org id => .deregister org id false
  | jobHeartbeat org id => .jobHeartbeat org id
  | cleanupStaleWorkers => .cleanupStaleWorkers
  | wait d => .wait d

/-! ## Statements -/

inductive WorkerCommand
  | upsert (g : Registration) (began : Time)
  | beat (org : OrgId) (id : WorkerId) (b : Beat)
  | offline (org : OrgId) (id : WorkerId)
  | refresh (org : OrgId) (id : WorkerId)
  | sweep
  | advance (d : Time)

/-- `id = $1 AND organization_id = $2`. -/
def isWorker (org : OrgId) (id : WorkerId) (w : Worker) : Bool :=
  w.id == id && w.organizationId == org

/-- `status = 'healthy'`; `last_heartbeat` is `NOW()` over REST and the handler's clock over gRPC. -/
def Registration.reregister (g : Registration) (began : Time) (w : Worker) : Worker :=
  { w with status := .healthy, lastHeartbeat := if g.grpc then g.asked else began }

def Registration.worker (g : Registration) : Worker where
  id := g.id
  organizationId := g.org
  lastHeartbeat := g.asked

/-- `UPDATE workers SET f WHERE q`. -/
def WorkerStore.update (s : WorkerStore) (q : Worker → Bool) (f : Worker → Worker)
    (hf : ∀ w, (f w).id = w.id) : WorkerStore :=
  { s with workers := s.workers.update q f hf }

def WorkerCommand.run (c : WorkerCommand) (s : WorkerStore) : WorkerStore :=
  match c with
  | upsert g began =>
    -- a row of another organization is neither updated nor inserted
    let updated := s.update (isWorker g.org g.id) (g.reregister began) fun _ => rfl
    { updated with workers := updated.workers.insert g.worker }
  | beat org id b => s.update (isWorker org id)
      (fun w => { w with lastHeartbeat := s.now, status := b.status w.status }) fun _ => rfl
  | offline org id => s.update (isWorker org id) (fun w => { w with status := .offline })
      fun _ => rfl
  | refresh org id => s.update
      (fun w => isWorker org id w && (w.status == .healthy || w.status == .degraded))
      (fun w => { w with lastHeartbeat := s.now }) fun _ => rfl
  | sweep => s.update
      (fun w => w.status != .offline && decide (w.lastHeartbeat + secs 120 < s.now))
      (fun w => { w with status := .offline }) fun _ => rfl
  | advance d => { s with now := s.now + d }

namespace WorkerProc

/-- It has taken `lock_resource`. -/
def hasLock (org : OrgId) : WorkerProc → Bool
  | register g (.locked _) | register g (.counted ..) | register g (.paid _) => g.org == org
  | _ => false

def act (limits : OrgId → PlanLimits) (s : WorkerStore) (os : List WorkerProc) :
    WorkerProc → Option (Turn WorkerCommand WorkerProc)
  | register g .asked => some (.stay (.register g (.opened s.now)))
  | register g (.opened began) =>
    if os.any (hasLock g.org) then none else some (.stay (.register g (.locked began)))
  | register g (.locked began) =>
    let already := (s.workers.find g.id).any fun w =>
      w.organizationId == g.org && countsTowardCap began w
    some (.stay (.register g (.counted began already)))
  | register g (.counted began already) =>
    if (limits g.org).allows .maxWorkers (s.count began g.org) (if already then 0 else 1) then
      some (.stay (.register g (.paid began)))
    else some .quit
  | register g (.paid began) => some (.run (.upsert g began) none)
  | heartbeat _ _ none _ => some .quit
  | heartbeat org id (some b) false =>
    if (s.workers.find id).any (isWorker org id) then some (.stay (.heartbeat org id (some b) true))
    else some .quit
  | heartbeat org id (some b) true => some (.run (.beat org id b) none)
  | deregister org id false =>
    if (s.workers.find id).any (isWorker org id) then some (.stay (.deregister org id true))
    else some .quit
  | deregister org id true => some (.run (.offline org id) none)
  | jobHeartbeat org id => some (.run (.refresh org id) none)
  | cleanupStaleWorkers => some (.run .sweep none)
  | wait d => some (.run (.advance d) none)

end WorkerProc

@[reducible] def workerDesk (limits : OrgId → PlanLimits) : CommandSpec where
  Store := WorkerStore
  Proc := WorkerProc
  Ask := WorkerAsk
  Command := WorkerCommand
  start s a := (s, a.proc s.now)
  run s c := c.run s
  act := WorkerProc.act limits

/-! ## What a statement does to what counts -/

variable {limits : OrgId → PlanLimits} {s : WorkerStore} {os : List WorkerProc} {p p' : WorkerProc}
  {org : OrgId} {id : WorkerId} {c : WorkerCommand}

def WorkerStore.held (s : WorkerStore) (org : OrgId) : Finset WorkerId :=
  s.workers.keysWhere fun w => w.organizationId == org && countsTowardCap s.now w

theorem WorkerStore.card_held : (s.held org).card = s.count s.now org := Table.card_keysWhere _ _

theorem WorkerStore.mem_held : id ∈ s.held org ↔ ∃ w, s.workers.find id = some w ∧
    w.organizationId = org ∧ countsTowardCap s.now w = true := by
  rw [WorkerStore.held, Table.mem_keysWhere, Option.any_eq_true]
  simp only [Bool.and_eq_true, beq_iff_eq]

/-- With time, draining workers stop counting. -/
theorem countsTowardCap_anti {t t' : Time} {w : Worker} (ht : t ≤ t')
    (h : countsTowardCap t' w = true) : countsTowardCap t w = true := by
  unfold countsTowardCap at h ⊢
  split at h
  · rfl
  · rfl
  · exact decide_eq_true (Nat.lt_of_le_of_lt ht (of_decide_eq_true h))
  · nomatch h

theorem WorkerStore.count_anti {t t' : Time} (ht : t ≤ t') : s.count t' org ≤ s.count t org := by
  refine List.countP_mono_left fun w _ h => ?_
  rw [Bool.and_eq_true] at h ⊢
  exact ⟨h.1, countsTowardCap_anti ht h.2⟩

theorem WorkerStore.held_update {q : Worker → Bool} {f : Worker → Worker} (hf : ∀ w, (f w).id = w.id)
    (h : ∀ w, s.workers.find w.id = some w → q w = true → (f w).organizationId = org →
      countsTowardCap s.now (f w) = true → w.organizationId = org ∧ countsTowardCap s.now w = true) :
    (s.update q f hf).held org ⊆ s.held org := by
  intro k hk
  obtain ⟨w', hw', horg, hcounts⟩ := WorkerStore.mem_held.1 hk
  have hw' : (s.workers.update q f hf).find k = some w' := hw'
  rw [Table.find_update] at hw'
  obtain ⟨w, hw, rfl⟩ := Option.map_eq_some_iff.1 hw'
  refine WorkerStore.mem_held.2 ⟨w, hw, ?_⟩
  by_cases hq : q w = true
  · rw [if_pos hq] at horg hcounts
    exact h w (by rw [Table.key_of_find hw]; exact hw) hq horg hcounts
  · rw [if_neg hq] at horg hcounts
    exact ⟨horg, hcounts⟩

theorem WorkerCommand.held_upsert {g : Registration} {began : Time} {k : WorkerId}
    (hk : k ∈ ((WorkerCommand.upsert g began).run s).held org) :
    k ∈ s.held org ∨ (g.org = org ∧ k = g.id) := by
  obtain ⟨w, hw, horg, hcounts⟩ := WorkerStore.mem_held.1 hk
  have hw : ((s.workers.update (isWorker g.org g.id) (g.reregister began) fun _ => rfl).insert
    g.worker).find k = some w := hw
  rw [Table.find_insert] at hw
  split at hw
  · next h =>
    cases hw
    exact .inr ⟨horg, h.1⟩
  · rw [Table.find_update s.workers (isWorker g.org g.id) (g.reregister began) fun _ => rfl] at hw
    obtain ⟨w₀, hw₀, rfl⟩ := Option.map_eq_some_iff.1 hw
    by_cases hmine : isWorker g.org g.id w₀ = true
    · rw [if_pos hmine] at horg
      simp only [isWorker, Bool.and_eq_true, beq_iff_eq] at hmine
      exact .inr ⟨hmine.2.symm.trans horg, (Table.key_of_find hw₀).symm.trans hmine.1⟩
    · rw [if_neg hmine] at horg hcounts
      exact .inl (WorkerStore.mem_held.2 ⟨w₀, hw₀, horg, hcounts⟩)

theorem WorkerCommand.held_beat {b : Beat} {o : OrgId}
    (h : (s.workers.find id).all (fun w => !isWorker o id w || countsTowardCap s.now w ||
      b.status w.status == .offline) = true) :
    ((WorkerCommand.beat o id b).run s).held org ⊆ s.held org := by
  refine WorkerStore.held_update _ fun w hw hmine horg hcounts => ⟨horg, ?_⟩
  have hid : w.id = id := by
    simp only [isWorker, Bool.and_eq_true, beq_iff_eq] at hmine
    exact hmine.1
  rw [hid] at hw
  rw [hw, Option.all_some, hmine, Bool.not_true, Bool.false_or, Bool.or_eq_true, beq_iff_eq] at h
  refine h.resolve_right fun hoff => ?_
  simp only [countsTowardCap, hoff] at hcounts
  nomatch hcounts

theorem WorkerCommand.held_offline {o : OrgId} :
    ((WorkerCommand.offline o id).run s).held org ⊆ s.held org :=
  WorkerStore.held_update _ fun _ _ _ _ hcounts => nomatch hcounts

theorem WorkerCommand.held_sweep : (WorkerCommand.sweep.run s).held org ⊆ s.held org :=
  WorkerStore.held_update _ fun _ _ _ _ hcounts => nomatch hcounts

theorem WorkerCommand.held_refresh {o : OrgId} :
    ((WorkerCommand.refresh o id).run s).held org ⊆ s.held org := by
  refine WorkerStore.held_update _ fun w _ hq horg _ => ⟨horg, ?_⟩
  rw [Bool.and_eq_true, Bool.or_eq_true, beq_iff_eq, beq_iff_eq] at hq
  rcases hq.2 with h | h <;> simp only [countsTowardCap, h]

theorem WorkerCommand.held_advance {d : Time} :
    ((WorkerCommand.advance d).run s).held org ⊆ s.held org := by
  intro k hk
  obtain ⟨w, hw, horg, hcounts⟩ := WorkerStore.mem_held.1 hk
  exact WorkerStore.mem_held.2 ⟨w, hw, horg, countsTowardCap_anti (Nat.le_add_right _ _) hcounts⟩

/-! ## Steps of a request -/

namespace WorkerProc

inductive Goes (limits : OrgId → PlanLimits) (s : WorkerStore) (os : List WorkerProc) :
    WorkerProc → WorkerProc → Prop
  | begin {g : Registration} : Goes limits s os (.register g .asked) (.register g (.opened s.now))
  | lock {g : Registration} {began : Time} (h : os.any (hasLock g.org) = false) :
      Goes limits s os (.register g (.opened began)) (.register g (.locked began))
  | count {g : Registration} {began : Time} : Goes limits s os (.register g (.locked began))
      (.register g (.counted began ((s.workers.find g.id).any fun w =>
        w.organizationId == g.org && countsTowardCap began w)))
  | pay {g : Registration} {began : Time} {already : Bool}
      (h : (limits g.org).allows .maxWorkers (s.count began g.org) (if already then 0 else 1) = true) :
      Goes limits s os (.register g (.counted began already)) (.register g (.paid began))
  | heartbeat {org : OrgId} {id : WorkerId} {b : Beat} :
      Goes limits s os (.heartbeat org id (some b) false) (.heartbeat org id (some b) true)
  | deregister {org : OrgId} {id : WorkerId} :
      Goes limits s os (.deregister org id false) (.deregister org id true)

inductive Runs : WorkerProc → WorkerCommand → Prop
  | upsert {g : Registration} {began : Time} : Runs (.register g (.paid began)) (.upsert g began)
  | beat {org : OrgId} {id : WorkerId} {b : Beat} :
      Runs (.heartbeat org id (some b) true) (.beat org id b)
  | offline {org : OrgId} {id : WorkerId} : Runs (.deregister org id true) (.offline org id)
  | refresh {org : OrgId} {id : WorkerId} : Runs (.jobHeartbeat org id) (.refresh org id)
  | sweep : Runs .cleanupStaleWorkers .sweep
  | advance {d : Time} : Runs (.wait d) (.advance d)

theorem turns (p : WorkerProc) : Turn.Allowed (Goes limits s os p) (fun c q => q = none ∧ Runs p c)
    (act limits s os p) := by
  unfold act
  split
  · exact .stay .begin
  · split
    · exact .wait
    · next hfree => exact .stay (.lock (by simpa using hfree))
  · exact .stay .count
  · next already =>
    generalize hadd : (if already = true then 0 else 1) = adding
    split
    · next hok => exact .stay (.pay (by rw [hadd]; exact hok))
    · exact .quit
  · exact .run ⟨rfl, .upsert⟩
  · exact .quit
  · split
    · exact .stay .heartbeat
    · exact .quit
  · exact .run ⟨rfl, .beat⟩
  · split
    · exact .stay .deregister
    · exact .quit
  · exact .run ⟨rfl, .offline⟩
  · exact .run ⟨rfl, .refresh⟩
  · exact .run ⟨rfl, .sweep⟩
  · exact .run ⟨rfl, .advance⟩

/-! ## The cap -/

/-- The time at which the transaction of a registration began. -/
def began : WorkerProc → Option Time
  | register _ (.opened t) | register _ (.locked t) | register _ (.counted t _)
  | register _ (.paid t) => some t
  | _ => none

/-- Transactions began in the past. -/
def Timely (s : WorkerStore) (p : WorkerProc) : Prop := ∀ t, p.began = some t → t ≤ s.now

def dueWorker (org : OrgId) : WorkerProc → Option WorkerId
  | register g (.counted _ true) | register g (.paid _) => if g.org = org then some g.id else none
  | _ => none

/-- A heartbeat reaches a worker that counts, or leaves it offline; and a registration finds its
worker counting only if it still counts. -/
def isLive (s : WorkerStore) : WorkerProc → Bool
  | heartbeat org id (some b) true => (s.workers.find id).all fun w =>
      !isWorker org id w || countsTowardCap s.now w || b.status w.status == .offline
  | register g (.locked began) => (s.workers.find g.id).all fun w =>
      w.organizationId != g.org || !countsTowardCap began w || countsTowardCap s.now w
  | _ => true

end WorkerProc

@[reducible] def liveWorkers (limits : OrgId → PlanLimits) :
    PoolSpec.Allow (workerDesk limits).pool :=
  .onRun (workerDesk limits).pool fun s _ p => WorkerProc.isLive s p

theorem WorkerCommand.now_le (c : WorkerCommand) : s.now ≤ (c.run s).now := by
  cases c with
  | advance d => exact Nat.le_add_right _ _
  | upsert | beat | offline | refresh | sweep => exact Nat.le_refl _

theorem workerDesk_timely (limits : OrgId → PlanLimits) (A : PoolSpec.Allow (workerDesk limits).pool) :
    PoolSpec.Kept (workerDesk limits).pool A (fun _ => True) WorkerProc.Timely fun _ _ _ => True := by
  refine @CommandSpec.Keeps.kept (workerDesk limits) A _ _ _ ?_
  refine ⟨fun _ => trivial, fun {s a} _ _ => ⟨trivial, ?_⟩, fun _ _ hq => ⟨hq, trivial⟩,
    fun _ => trivial, fun {s os p p'} hact _ hb => ⟨?_, fun _ _ => trivial⟩,
    fun {s os p c p'} hact _ hb => ?_⟩
  · cases a <;> exact nofun
  · have htimely : WorkerProc.Timely s p := hb.own
    cases p.turns.of_stay hact with
    | begin =>
      rintro t ⟨⟩
      exact Nat.le_refl _
    | lock | count | pay => exact htimely
    | heartbeat | deregister => exact nofun
  · obtain ⟨rfl, -⟩ := p.turns.of_run hact
    exact ⟨trivial, fun _ h => absurd h (Option.not_mem_none _),
      fun q hq t ht => Nat.le_trans (hb.others q hq t ht) c.now_le, fun _ _ _ _ _ => trivial⟩

/-- **Who raises the count has the lock.** -/
theorem workers_capped {org : OrgId} {m : Nat} (hm : m ∈ (limits org).cap .maxWorkers) :
    CommandSpec.Capped (workerDesk limits) (liveWorkers limits) (fun _ => True) WorkerProc.Timely
      (fun _ _ _ => True) (WorkerStore.held · org) (fun p => p.hasLock org = true)
      (WorkerProc.dueWorker org) m where
  start {s a} := ⟨Finset.Subset.refl _, by cases a <;> exact Bool.false_ne_true⟩
  due_locks {p k} h := by
    unfold WorkerProc.dueWorker at h
    split at h
    · split at h
      · next hg => exact beq_iff_eq.2 hg
      · cases h
    · split at h
      · next hg => exact beq_iff_eq.2 hg
      · cases h
    · cases h
  stay_locks {s os p p'} hact hlock := by
    cases p.turns.of_stay hact with
    | begin | heartbeat | deregister => cases hlock
    | lock hfree =>
      obtain rfl := beq_iff_eq.1 hlock
      exact .inr fun q hq => List.any_eq_false.1 hfree q hq
    | count | pay => exact .inl hlock
  stay_due {s os p p' k} hact hA hb hdue := by
    have hA : WorkerProc.isLive s p = true := hA
    have htimely : WorkerProc.Timely s p := hb.own
    cases p.turns.of_stay hact with
    | begin | heartbeat | deregister | lock => cases hdue
    | @count g began =>
      cases hany : (s.workers.find g.id).any fun w =>
          w.organizationId == g.org && countsTowardCap began w with
      | false =>
        rw [hany] at hdue
        cases hdue
      | true =>
        rw [hany] at hdue
        obtain ⟨hg, hk⟩ : g.org = org ∧ g.id = k := by
          simpa [WorkerProc.dueWorker] using hdue
        obtain ⟨w, hw, hcounts⟩ := (Option.any_eq_true _ _).1 hany
        obtain ⟨horg, hcounts⟩ := Bool.and_eq_true_iff.1 hcounts
        have horg : w.organizationId = g.org := beq_iff_eq.1 horg
        have hlive : countsTowardCap s.now w = true := by
          simpa [WorkerProc.isLive, hw, horg, hcounts] using hA
        exact .inr (.inl (WorkerStore.mem_held.2 ⟨w, hk ▸ hw, horg.trans hg, hlive⟩))
    | @pay g began already h =>
      cases already with
      | true => exact .inl hdue
      | false =>
        obtain ⟨hg, -⟩ : g.org = org ∧ g.id = k := by
          simpa [WorkerProc.dueWorker] using hdue
        subst hg
        have hle : s.count began g.org + 1 ≤ m := PlanLimits.le_of_allows h hm
        have hanti : s.count s.now g.org ≤ s.count began g.org :=
          WorkerStore.count_anti (htimely began rfl)
        refine .inr (.inr ?_)
        rw [WorkerStore.card_held]
        omega
  run_held {s os p c p'} hact hA hb := by
    have hA : WorkerProc.isLive s p = true := hA
    obtain ⟨-, hruns⟩ := p.turns.of_run hact
    cases hruns with
    | @upsert g began =>
      by_cases hg : g.org = org
      · refine .inr ⟨g.id, if_pos hg, fun k hk => ?_⟩
        rcases WorkerCommand.held_upsert hk with hmem | ⟨-, rfl⟩
        · exact Finset.mem_insert_of_mem hmem
        · exact Finset.mem_insert_self _ _
      · exact .inl fun k hk => (WorkerCommand.held_upsert hk).resolve_right fun h => hg h.1
    | beat => exact .inl (WorkerCommand.held_beat hA)
    | offline => exact .inl WorkerCommand.held_offline
    | refresh => exact .inl WorkerCommand.held_refresh
    | sweep => exact .inl WorkerCommand.held_sweep
    | advance => exact .inl WorkerCommand.held_advance
  run_next {s os p c p'} hact := by
    cases (p.turns.of_run hact).1

/-- Every organization is at or below its limit. -/
def WorkerStore.IsStart (limits : OrgId → PlanLimits) (s : WorkerStore) : Prop :=
  ∀ org, (limits org).Within .maxWorkers (s.count s.now org)

def workerSystem (limits : OrgId → PlanLimits) : Machine :=
  (workerDesk limits).pool.machine (WorkerStore.IsStart limits)

/-- **The cap on workers is exact**, as long as heartbeats come from workers that count, and no
worker stops counting between the start of a registration's transaction and its look at it. -/
theorem worker_cap_exact {limits : OrgId → PlanLimits} {x : Pool WorkerStore WorkerProc}
    {h : List (Pool WorkerStore WorkerProc × PoolLabel WorkerAsk)}
    (hr : (workerSystem limits).Run x h)
    (hlive : (workerSystem limits).Steps (liveWorkers limits).step h) (org : OrgId) :
    (limits org).Within .maxWorkers (x.store.count x.store.now org) := by
  intro m hm
  have hle := (workers_capped hm).card_le (workerDesk_timely limits _)
    (fun s hs => ⟨trivial, by rw [WorkerStore.card_held]; exact hs org m hm⟩) hr hlive
  rwa [WorkerStore.card_held] at hle

def noWorkers : Pool WorkerStore WorkerProc := ⟨{}, []⟩

theorem noWorkers_isStart : WorkerStore.IsStart (fun _ => .free) noWorkers.store :=
  fun _ _ _ => Nat.zero_le _

/-- A worker goes silent, is marked offline, and another one takes its slot; the first one asks to
be registered again and is refused. -/
theorem worker_cap_exact_refusal : ∃ x h, (workerSystem fun _ => .free).Run x h ∧
    (workerSystem fun _ => .free).Steps (liveWorkers fun _ => .free).step h ∧
    x.store.count x.store.now 7 = 1 ∧
    PlanLimits.free.Within .maxWorkers (x.store.count x.store.now 7) := by
  obtain ⟨x, h, hr, hsteps, hcount⟩ := (liveWorkers fun _ => .free).run_of_exec
    (WorkerStore.IsStart fun _ => .free)
    [.ask (.register 7 1 false), .run 0, .run 0, .run 0, .run 0, .run 0,
      .ask (.restHeartbeat 7 1 none), .run 0, .run 0, .ask (.wait (secs 200)), .run 0,
      .ask .cleanupStaleWorkers, .run 0,
      .ask (.register 7 2 true), .run 0, .run 0, .run 0, .run 0, .run 0,
      .ask (.register 7 1 false), .run 0, .run 0, .run 0, .run 0]
    noWorkers (fun x => decide (x.1.store.count x.1.store.now 7 = 1)) ⟨noWorkers_isStart, rfl⟩
    (by decide +kernel)
  exact ⟨x, h, hr, hsteps, of_decide_eq_true hcount, worker_cap_exact hr hsteps 7⟩

/-- The same, but the first worker sends a heartbeat. -/
theorem heartbeat_over_cap : ∃ x h, (workerSystem fun _ => .free).Run x h ∧ x.procs = [] ∧
    ¬ PlanLimits.free.Within .maxWorkers (x.store.count x.store.now 7) := by
  obtain ⟨x, h, hr, hp⟩ := Machine.Run.of_exec (workerSystem fun _ => .free)
    [.ask (.register 7 1 false), .run 0, .run 0, .run 0, .run 0, .run 0,
      .ask (.wait (secs 200)), .run 0, .ask .cleanupStaleWorkers, .run 0,
      .ask (.register 7 2 true), .run 0, .run 0, .run 0, .run 0, .run 0,
      .ask (.restHeartbeat 7 1 none), .run 0, .run 0]
    noWorkers (fun x => !PlanLimits.free.checkLimit .maxWorkers (x.1.store.count x.1.store.now 7) 0 &&
      x.1.procs.isEmpty) ⟨noWorkers_isStart, rfl⟩ (by decide +kernel)
  obtain ⟨hover, hprocs⟩ := Bool.and_eq_true _ _ ▸ hp
  refine ⟨x, h, hr, List.isEmpty_iff.1 hprocs, fun hwithin => ?_⟩
  rw [PlanLimits.within_iff] at hwithin
  rw [hwithin] at hover
  nomatch hover

end Spooled.Cap
