import Spooled.Create.Insert
import Mathlib

/-!
# Steps of the creation handlers

The inversion of `CreateSys.next`, and what a step means for the job store: the
keys stay unique, and every row that is not deleted stays with its organization,
queue, key and creation time.
-/

namespace Spooled

def Handler.Expects (x : Handler) : Request → Prop
  | .single _ => x.count = 1
  | .bulk b => x.count = b.jobCount x.existingKeys
  | .workflow _ defs => x.count = defs.length ∧ 0 < defs.length

/-- The check of the caller's scope has passed for the request's own queue. -/
def Request.Admitted (q : Request) : Prop :=
  match q with
  | .single r => r.allows r.job.queueName = true
  | .bulk b => b.scope b.queueName = true
  | .workflow .. => True

namespace CreateSys

/-- What `next` does, label by label. -/
inductive Step (cfg : CreateConfig) (s : CreateSys) : CreateLabel → CreateSys → Prop
  | tick (d : Nat) : Step cfg s (.tick d) { s with now := s.now + d }
  | other (c : Stmt) : c.creates = false → Step cfg s (.other c)
      { s with store := { s.store with db := c.exec cfg.server s.now s.store.db } }
  | begin (r : Request) : Step cfg s (.begin r) (s.begin r)
  | refuse (n : Nat) (x : Handler) (why : Refusal) : s.live[n]? = some x → x.stage = .opened →
      Step cfg s (.refuse n why) (s.answer n x (.refused why))
  | check (n : Nat) (x : Handler) (met : Bool) : s.live[n]? = some x → x.stage = .opened →
      Step cfg s (.check n) (s.put n { x with stage := .checked met })
  | orphan (n : Nat) (x : Handler) : s.live[n]? = some x → x.stage = .opened →
      Step cfg s (.check n) (s.answer n x (.refused .validation))
  | reserve (n : Nat) (x : Handler) (met planFails fails : Bool) : s.live[n]? = some x →
      x.stage = .checked met →
      Step cfg s (.reserve n planFails fails) (s.reserve cfg n x met planFails fails)
  | insert (n : Nat) (x : Handler) (met quota : Bool) (tx : TxEnd) : s.live[n]? = some x →
      x.stage = .reserved met quota → Step cfg s (.insert n tx) (s.insert cfg n x met quota tx)
  | settle (n : Nat) (x : Handler) (unused : Int) (reply : Reply) (fails : Bool) :
      s.live[n]? = some x → x.stage = .settling unused reply →
      Step cfg s (.settle n fails) (s.settle n x unused reply fails)
  | record (n : Nat) (x : Handler) (reply : Reply) (fails : Bool) : s.live[n]? = some x →
      x.stage = .recording reply →
      Step cfg s (.record n fails) (s.answer n x (if fails then .refused .database else reply))
  | drop (n : Nat) (x : Handler) : s.live[n]? = some x →
      Step cfg s (.drop n) { s with live := s.live.eraseIdx n, dropped := x :: s.dropped }

variable {cfg : CreateConfig} {s t : CreateSys} {a : CreateLabel} {n : Nat} {x : Handler}

theorem step_of_next (h : s.next cfg a = some t) : Step cfg s a t := by
  cases a with
  | tick d =>
    obtain rfl := Option.some.inj h
    exact .tick d
  | other c =>
    simp only [next] at h
    split at h <;> cases h
    next hc => exact .other c (Bool.eq_false_iff.2 hc)
  | begin r =>
    obtain rfl := Option.some.inj h
    exact .begin r
  | refuse n why =>
    obtain ⟨x, hx, h⟩ := Option.bind_eq_some_iff.1 h
    split at h <;> cases h
    next hs => exact .refuse n x why hx hs
  | check n =>
    obtain ⟨x, hx, h⟩ := Option.bind_eq_some_iff.1 h
    split at h
    · next hs =>
      split at h
      · next met _ =>
        obtain rfl := Option.some.inj h
        exact .check n x met hx hs
      · obtain rfl := Option.some.inj h
        exact .orphan n x hx hs
    · cases h
  | reserve n planFails fails =>
    obtain ⟨x, hx, h⟩ := Option.bind_eq_some_iff.1 h
    split at h <;> cases h
    next met hs => exact .reserve n x met planFails fails hx hs
  | insert n tx =>
    obtain ⟨x, hx, h⟩ := Option.bind_eq_some_iff.1 h
    split at h <;> cases h
    next met quota hs => exact .insert n x met quota tx hx hs
  | settle n fails =>
    obtain ⟨x, hx, h⟩ := Option.bind_eq_some_iff.1 h
    split at h <;> cases h
    next unused reply hs => exact .settle n x unused reply fails hx hs
  | record n fails =>
    obtain ⟨x, hx, h⟩ := Option.bind_eq_some_iff.1 h
    split at h <;> cases h
    next reply hs => exact .record n x reply fails hx hs
  | drop n =>
    obtain ⟨x, hx, rfl⟩ := Option.map_eq_some_iff.1 h
    exact .drop n x hx

structure Entered (s : CreateSys) (r : Request) (x : Handler) : Prop where
  request : x.request = r
  started : x.started = s.now
  stage : x.stage = .opened
  charged : x.charged = 0
  made : x.made = []
  count : x.Expects r
  keys : ∀ b, r = .bulk b → x.existingKeys = (b.existing s.store).map (·.1)
  admitted : r.Admitted

/-- **A request is answered at once or gets a handler.** -/
theorem begin_cases (s : CreateSys) (r : Request) :
    (∃ why, s.begin r = s.reply r (.refused why)) ∨
    (∃ q k j, r = .single q ∧ normalizeIdempotencyKey q.key = some k ∧
      s.store.existingIdempotentJob q.job.organizationId k = some j ∧ q.allows j.queueName = true ∧
      s.begin r = s.reply r (.job j.id false)) ∨
    ∃ x, s.begin r = s.enter x ∧ Entered s r x := by
  cases r with
  | single q =>
    simp only [begin]
    split
    · exact .inl ⟨_, rfl⟩
    · next hscope =>
      split
      · next j hj =>
        split
        · next hs =>
          obtain ⟨k, hk, hex⟩ : ∃ k, normalizeIdempotencyKey q.key = some k ∧
              s.store.existingIdempotentJob q.job.organizationId k = some j := by
            split at hj
            · exact Option.bind_eq_some_iff.1 hj
            · exact Option.bind_eq_some_iff.1 hj
            · cases hj
          exact .inr (.inl ⟨q, k, j, rfl, hk, hex, hs, rfl⟩)
        · exact .inl ⟨_, rfl⟩
      · exact .inr (.inr ⟨_, rfl, rfl, rfl, rfl, rfl, rfl, rfl, fun b hb => (by cases hb),
          by simpa [Request.Admitted] using hscope⟩)
  | bulk q =>
    simp only [begin]
    split
    · exact .inl ⟨_, rfl⟩
    · next hscope =>
      split
      · exact .inl ⟨_, rfl⟩
      · split
        · exact .inl ⟨_, rfl⟩
        · refine .inr (.inr ⟨_, rfl, rfl, rfl, rfl, rfl, rfl, rfl, ?_,
            by simpa [Request.Admitted] using hscope⟩)
          rintro b ⟨⟩
          rfl
  | workflow org defs =>
    simp only [begin]
    split
    · next hc =>
      simp only [Bool.and_eq_true, Bool.not_eq_true', List.isEmpty_eq_false_iff] at hc
      exact .inr (.inr ⟨_, rfl, rfl, rfl, rfl, rfl, rfl, ⟨rfl, List.length_pos_iff.2 hc.2⟩,
        fun b hb => (by cases hb), trivial⟩)
    · exact .inl ⟨_, rfl⟩

/-- The reservation of handler `x`: skipped, made, or refused. -/
theorem reserve_cases (cfg : CreateConfig) (s : CreateSys) (n : Nat) (x : Handler)
    (met planFails fails : Bool) :
    ((x.count = 0 ∨ fails = true) ∧
      s.reserve cfg n x met planFails fails = s.put n { x with stage := .reserved met false }) ∨
    (0 < x.count ∧ fails = false ∧
      let r := tryIncrementDailyJobs (s.usage x.request.organizationId) (dayOf s.now) x.count
        (cfg.readLimit x.request.organizationId planFails)
      let s' := s.setUsage x.request.organizationId r.1
      (0 ≤ r.2 ∧ s.reserve cfg n x met planFails fails = s'.put n { x with
        stage := .reserved met true
        charged := x.charged +
          (s'.count x.request.organizationId - s.count x.request.organizationId) }) ∨
      (r.2 < 0 ∧ s.reserve cfg n x met planFails fails = s'.answer n x (.refused .limitExceeded))) := by
  unfold reserve
  dsimp only
  by_cases hc : x.count = 0 ∨ fails = true
  · rw [if_pos (by simpa using hc)]
    exact .inl ⟨hc, rfl⟩
  · rw [if_neg (by simpa using hc)]
    rw [not_or] at hc
    refine .inr ⟨Nat.pos_of_ne_zero hc.1, by simpa using hc.2, ?_⟩
    split
    · next h => exact .inl ⟨h, rfl⟩
    · next h => exact .inr ⟨Int.not_le.1 h, rfl⟩

def madeRows (s : CreateSys) (x : Handler) (st : JobStore) : List JobId :=
  (List.range' s.uuid x.request.idCount).filter fun i =>
    (s.store.db.job i).isNone && (st.db.job i).isSome

/-- The insert of handler `x`: without effect, committed with its reply lost, or committed. -/
theorem insert_cases (cfg : CreateConfig) (s : CreateSys) (n : Nat) (x : Handler)
    (met quota : Bool) (tx : TxEnd) :
    let reserved : Int := if quota then x.count else 0
    let s₁ := { s with uuid := s.uuid + x.request.idCount }
    (∃ why, s.insert cfg n x met quota tx = s₁.conclude n x reserved (.refused why)) ∨
    ∃ st reply, x.request.insertRows s.now x.started cfg.server.defaultMaxRetries s.store s.uuid met =
        .ok (st, reply) ∧
      (tx = .lost ∧ s.insert cfg n x met quota tx = { s₁ with store := st }.conclude n
          { x with made := s.madeRows x st } reserved (.refused .database) ∨
        tx ≠ .lost ∧ s.insert cfg n x met quota tx = { s₁ with store := st }.conclude n
          { x with made := s.madeRows x st } (reply.unused s.uuid reserved) reply) := by
  unfold insert
  dsimp only
  split
  · exact .inl ⟨_, rfl⟩
  · exact .inl ⟨_, rfl⟩
  · next st reply _ hins =>
    refine .inr ⟨st, reply, hins, ?_⟩
    split
    · next htx => exact .inl ⟨htx, rfl⟩
    · next htx => exact .inr ⟨htx, rfl⟩

theorem finish_cases (s : CreateSys) (n : Nat) (x : Handler) (reply : Reply) :
    s.finish n x reply = s.answer n x reply ∨
    (x.request.recordsDelivery = true ∧ reply.isRefused = false ∧
      s.finish n x reply = s.put n { x with stage := .recording reply }) := by
  unfold finish
  split
  · next h =>
    rw [Bool.and_eq_true, Bool.not_eq_true'] at h
    exact .inr ⟨h.1, h.2, rfl⟩
  · exact .inl rfl

theorem finish_frame (s : CreateSys) (n : Nat) (x : Handler) (reply : Reply) :
    (s.finish n x reply).store = s.store ∧ (s.finish n x reply).uuid = s.uuid ∧
      (s.finish n x reply).usage = s.usage := by
  unfold finish
  split <;> exact ⟨rfl, rfl, rfl⟩

theorem conclude_frame (s : CreateSys) (n : Nat) (x : Handler) (unused : Int) (reply : Reply) :
    (s.conclude n x unused reply).store = s.store ∧ (s.conclude n x unused reply).uuid = s.uuid ∧
      (s.conclude n x unused reply).usage = s.usage := by
  unfold conclude
  split
  · exact finish_frame ..
  · exact ⟨rfl, rfl, rfl⟩

/-- What a step does to the job store: nothing, a statement of somebody else, or an
insert that commits. -/
inductive StoreStep (cfg : CreateConfig) (s : CreateSys) (a : CreateLabel) (t : CreateSys) : Prop
  | same : t.store = s.store → s.uuid ≤ t.uuid → StoreStep cfg s a t
  | other (c : Stmt) : a = .other c → c.creates = false →
      t.store = { s.store with db := c.exec cfg.server s.now s.store.db } → t.uuid = s.uuid →
      StoreStep cfg s a t
  | commit (x : Handler) (st : JobStore) (met : Bool) (reply : Reply) :
      x.request.insertRows s.now x.started cfg.server.defaultMaxRetries s.store s.uuid met =
        .ok (st, reply) →
      t.store = st → t.uuid = s.uuid + x.request.idCount → StoreStep cfg s a t

theorem storeStep_of_next (h : s.next cfg a = some t) : StoreStep cfg s a t := by
  cases step_of_next h with
  | other c hc => exact .other c rfl hc rfl rfl
  | begin r =>
    rcases begin_cases s r with ⟨_, he⟩ | ⟨_, _, _, _, _, _, _, he⟩ | ⟨_, he, -⟩ <;>
      exact .same (by rw [he]; rfl) (by rw [he]; exact le_refl _)
  | reserve n x met planFails fails hx hs =>
    rcases reserve_cases cfg s n x met planFails fails with ⟨-, he⟩ | ⟨-, -, ⟨-, he⟩ | ⟨-, he⟩⟩ <;>
      exact .same (by rw [he]; rfl) (by rw [he]; exact le_refl _)
  | insert n x met quota tx hx hs =>
    rcases insert_cases cfg s n x met quota tx with ⟨_, he⟩ | ⟨st, reply, hins, ⟨-, he⟩ | ⟨-, he⟩⟩
    · exact .same (by rw [he, (conclude_frame ..).1])
        (by rw [he, (conclude_frame ..).2.1]; exact Nat.le_add_right _ _)
    · exact .commit x st met reply hins (by rw [he, (conclude_frame ..).1])
        (by rw [he, (conclude_frame ..).2.1])
    · exact .commit x st met reply hins (by rw [he, (conclude_frame ..).1])
        (by rw [he, (conclude_frame ..).2.1])
  | settle n x unused reply fails hx hs =>
    unfold settle
    dsimp only
    split
    · exact .same (finish_frame ..).1 (by rw [(finish_frame ..).2.1])
    · exact .same (finish_frame ..).1 (by rw [(finish_frame ..).2.1]; exact le_refl _)
  | tick | refuse | check | orphan | record | drop => exact .same rfl (le_refl _)

end CreateSys

/-! ## Rows through a step -/

theorem Job.Moves.createdAt {now : Time} {j j' : Job} (h : j.Moves now j') :
    j'.createdAt = j.createdAt := by
  induction h with
  | refl => rfl
  | tail _ hm ih => rw [← ih]; cases hm <;> rfl

theorem RowStep.createdAt {cfg : Config} {now : Time} {db : Db} {c : Stmt} {j j' : Job}
    (h : RowStep cfg now db c (some j) (some j')) : j'.createdAt = j.createdAt := by
  cases h with
  | moved _ hm | revived _ _ _ _ hm => exact hm.createdAt
  | ended _ he => cases he <;> rfl
  | claimed | deadlettered | failed | unsent => rfl

namespace JobStore

/-- The row of `st'` is one of `st`, with its organization, queue, key and creation time. -/
def SameRow (st st' : JobStore) (i : JobId) (j j' : Job) : Prop :=
  st.db.job i = some j ∧ st'.db.job i = some j' ∧ j'.organizationId = j.organizationId ∧
    j'.queueName = j.queueName ∧ j'.createdAt = j.createdAt ∧ st'.keyOf i = st.keyOf i

/-- The rows that `P` picks by their organization and key stay. -/
def Keeps (P : OrgId → Option String → Bool) (st st' : JobStore) : Prop :=
  ∀ i j, st.db.job i = some j → P j.organizationId (st.keyOf i) = true → ∃ j', SameRow st st' i j j'

theorem Keeps.refl (P : OrgId → Option String → Bool) (st : JobStore) : Keeps P st st :=
  fun _ j hj _ => ⟨j, hj, hj, rfl, rfl, rfl, rfl⟩

variable {cfg : Config} {now : Time} {st st' : JobStore} {c : Stmt} {i : JobId} {j j' : Job}
  {P : OrgId → Option String → Bool}

theorem sameRow_of_exec (hc : c.creates = false) (hj' : (c.exec cfg now st.db).job i = some j') :
    ∃ j, SameRow st { st with db := c.exec cfg now st.db } i j j' := by
  have hr := c.exec_rowStep cfg now st.db i
  rw [hj'] at hr
  cases hj : st.db.job i with
  | none =>
    rw [hj] at hr
    cases hr with
    | created hi => cases hi <;> cases hc
  | some j =>
    rw [hj] at hr
    have hsame := hr.sameJob
    exact ⟨j, hj, hj', hsame.organizationId, hsame.queueName, hr.createdAt, rfl⟩

/-- The statement deletes none of the rows that `P` picks. -/
def spares (P : OrgId → Option String → Bool) (now : Time) (st : JobStore) (c : Stmt) : Bool :=
  (c.deletes now st.db).all fun p => st.db.jobs.rows.all fun j =>
    !(P j.organizationId (st.keyOf j.id) && p j)

theorem keeps_of_exec (hd : st.spares P now c = true) :
    Keeps P st { st with db := c.exec cfg now st.db } := by
  intro i j hj hP
  have hr := c.exec_rowStep cfg now st.db i
  rw [hj] at hr
  cases hj' : (c.exec cfg now st.db).job i with
  | none =>
    rw [hj'] at hr
    cases hr with
    | deleted p _ hp hpj =>
      unfold spares at hd
      rw [hp] at hd
      have hno := List.all_eq_true.1 hd j (Table.mem_of_find hj)
      rw [show j.id = i from Table.key_of_find hj, hP, hpj] at hno
      cases hno
  | some j' =>
    rw [hj'] at hr
    have hsame := hr.sameJob
    exact ⟨j', hj, hj', hsame.organizationId, hsame.queueName, hr.createdAt, rfl⟩

theorem Adds.keeps {new : List (Job × Option String)} (h : Adds st st' new) : Keeps P st st' := by
  intro i j hj _
  obtain ⟨j', hj', ht⟩ := h.old i j hj
  obtain ⟨ho, hq, hat⟩ := ht.same
  exact ⟨j', hj, hj', ho, hq, hat, h.key i (h.ne_of_some hj)⟩

/-! ## The unique index through a step -/

/-- Rows that come from rows of `st` keep the index. -/
theorem Ok.of_sameRow {uuid uuid' : Nat} (hok : st.Ok uuid) (hle : uuid ≤ uuid')
    (hkeys : st'.keys = st.keys)
    (hrow : ∀ i j', st'.db.job i = some j' → ∃ j, SameRow st st' i j j') : st'.Ok uuid' := by
  have hkeyOf : ∀ i, st'.keyOf i = st.keyOf i := fun i => by rw [keyOf, keyOf, hkeys]
  refine ⟨?_, ?_, ?_⟩
  · intro i j' hj'
    obtain ⟨j, hj, -⟩ := hrow i j' hj'
    exact lt_of_lt_of_le (hok.ids i j hj) hle
  · intro i k hk
    rw [hkeyOf] at hk
    exact lt_of_lt_of_le (hok.keyIds i k hk) hle
  · intro i i' j₁ j₂ k h₁ h₂ hk₁ hk₂ ho
    obtain ⟨a, ha, -, hoa, -⟩ := hrow i j₁ h₁
    obtain ⟨b, hb, -, hob, -⟩ := hrow i' j₂ h₂
    rw [hkeyOf] at hk₁ hk₂
    exact hok.unique i i' a b k ha hb hk₁ hk₂ (by rw [← hoa, ← hob, ho])

theorem Ok.of_commit {q : Request} {started : Time} {uuid : Nat} {reply : Reply}
    {new : List (Job × Option String)} (hok : st.Ok uuid)
    (C : q.Commit started uuid st st' reply new) : st'.Ok (uuid + q.idCount) := by
  have hcase : ∀ i j', st'.db.job i = some j' →
      (∃ j, SameRow st st' i j j') ∨ ∃ x ∈ new, x.1.id = i ∧ j'.organizationId = q.organizationId ∧
        st'.keyOf i = x.2 := by
    intro i j' hj'
    rcases C.adds.only i j' hj' with ⟨j, hj⟩ | ⟨x, hx, rfl⟩
    · obtain ⟨j'', h⟩ := C.adds.keeps (P := fun _ _ => true) i j hj rfl
      obtain rfl := Option.some.inj (hj'.symm.trans h.2.1)
      exact .inl ⟨j, h⟩
    · obtain ⟨-, j'', hj'', ht⟩ := C.adds.added x hx
      obtain rfl := Option.some.inj (hj'.symm.trans hj'')
      exact .inr ⟨x, hx, rfl, ht.same.1.trans (C.columns x hx).1, C.adds.newKey x hx⟩
  refine ⟨?_, ?_, ?_⟩
  · intro i j' hj'
    rcases hcase i j' hj' with ⟨j, hj, -⟩ | ⟨x, hx, rfl, -⟩
    · exact lt_of_lt_of_le (hok.ids i j hj) (Nat.le_add_right _ _)
    · exact (C.columns x hx).2.2.2
  · intro i k hk
    by_cases hi : ∀ x ∈ new, x.1.id ≠ i
    · rw [C.adds.key i hi] at hk
      exact lt_of_lt_of_le (hok.keyIds i k hk) (Nat.le_add_right _ _)
    · push Not at hi
      obtain ⟨x, hx, rfl⟩ := hi
      exact (C.columns x hx).2.2.2
  · intro i i' j₁ j₂ k h₁ h₂ hk₁ hk₂ ho
    rcases hcase i j₁ h₁ with ⟨a, ha, -, hoa, -, -, hka⟩ | ⟨x, hx, hix, hox, hkx⟩ <;>
      rcases hcase i' j₂ h₂ with ⟨b, hb, -, hob, -, -, hkb⟩ | ⟨y, hy, hiy, hoy, hky⟩
    · rw [hka] at hk₁
      rw [hkb] at hk₂
      exact hok.unique i i' a b k ha hb hk₁ hk₂ (by rw [← hoa, ← hob, ho])
    · -- an old row with the key of a new one
      rw [hka] at hk₁
      exact absurd hk₁ (C.newKey y hy k i a (hky.symm.trans hk₂) ha (by rw [← hoa, ho, hoy]))
    · rw [hkb] at hk₂
      exact absurd hk₂ (C.newKey x hx k i' b (hkx.symm.trans hk₁) hb (by rw [← hob, ← ho, hox]))
    · rw [← hix, ← hiy]
      exact C.distinct x hx y hy k (hkx.symm.trans hk₁) (hky.symm.trans hk₂)

end JobStore

namespace CreateSys

variable {cfg : CreateConfig} {s t : CreateSys} {a : CreateLabel} {P : OrgId → Option String → Bool}

theorem store_ok_step (hok : s.store.Ok s.uuid) (h : s.next cfg a = some t) :
    t.store.Ok t.uuid := by
  cases storeStep_of_next h with
  | same hst hid =>
    rw [hst]
    exact hok.of_sameRow hid rfl fun i j hj => ⟨j, hj, hj, rfl, rfl, rfl, rfl⟩
  | other c _ hc hst hid =>
    rw [hst, hid]
    exact hok.of_sameRow (le_refl _) rfl fun i j' => JobStore.sameRow_of_exec hc
  | commit x st met reply hins hst hid =>
    obtain ⟨new, C⟩ := Request.insertRows_spec hok hins
    rw [hst, hid]
    exact hok.of_commit C

/-- **The partial unique index holds along every run.** -/
theorem store_ok_of_run {h : List (CreateSys × CreateLabel)} (hr : (createSystem cfg).Run s h) :
    s.store.Ok s.uuid :=
  hr.state_invariant (M := createSystem cfg) (I := fun s => s.store.Ok s.uuid)
    (fun _ hi => hi.2.2.2.1) fun _ _ _ hok hn => store_ok_step hok hn

/-- The step deletes none of the rows that `P` picks. -/
def Spares (P : OrgId → Option String → Bool) (s : CreateSys) : CreateLabel → Bool
  | .other c => s.store.spares P s.now c
  | _ => true

theorem spares_nothing (s : CreateSys) (a : CreateLabel) :
    s.Spares (fun _ _ => false) a = true := by
  cases a with
  | other c => exact (Option.all_eq_true _ _).2 fun p _ => List.all_eq_true.2 fun j _ => rfl
  | _ => rfl

end CreateSys

end Spooled
