import Spooled.Create.Step
import Mathlib

/-!
# The daily quota is exact

What a handler did to the counter is what it still holds plus the rows it made. So
within a day the change of `jobs_created_today` is the number of jobs created plus the
reservations of the handlers that are on their way, or ended there. This needs working
counter statements, commits whose answer arrives and, for the rows, that no job of the
organization is deleted. That the counter stays within the limit needs besides that the
plan is read: a read that fails counts as no limit.
-/

namespace Spooled

open List

/-- The reservation a handler holds: not yet used, and not given back. -/
def Handler.held (x : Handler) : Int :=
  match x.stage with
  | .reserved _ quota => if quota then x.count else 0
  | .settling unused _ => unused
  | .opened | .checked _ | .recording _ => 0

/-- What a request did to the counter of its organization. -/
structure Account where
  org : OrgId
  charged : Int
  held : Int
  made : Nat

def Handler.account (x : Handler) : Account :=
  ⟨x.request.organizationId, x.charged, x.held, x.made.length⟩

def CreateAnswer.account (a : CreateAnswer) : Account :=
  ⟨a.request.organizationId, a.charged, 0, a.made.length⟩

/-- The sum of `f` over the accounts of an organization. -/
def sumFor (org : OrgId) (f : Account → Int) (l : List Account) : Int :=
  ((l.filter (·.org == org)).map f).sum

section Sums

variable {org : OrgId} {f g : Account → Int} {l l' : List Account} {e : Account}

theorem sumFor_cons : sumFor org f (e :: l) = (if e.org = org then f e else 0) + sumFor org f l := by
  simp only [sumFor, filter_cons, beq_iff_eq]
  split
  · rw [map_cons, sum_cons]
  · rw [Int.zero_add]

theorem sumFor_append : sumFor org f (l ++ l') = sumFor org f l + sumFor org f l' := by
  simp [sumFor]

theorem sumFor_perm (h : l.Perm l') : sumFor org f l = sumFor org f l' :=
  ((h.filter _).map f).sum_eq

theorem sumFor_add (h : ∀ e ∈ l, f e = g e + e.made) :
    sumFor org f l = sumFor org g l + sumFor org (fun e => e.made) l := by
  induction l with
  | nil => rfl
  | cons e l ih =>
    have he := h e mem_cons_self
    have hl := ih fun e' he' => h e' (mem_cons_of_mem _ he')
    simp only [sumFor_cons]
    split <;> omega

theorem sumFor_nonneg (h : ∀ e ∈ l, e.org = org → 0 ≤ f e) : 0 ≤ sumFor org f l := by
  refine sum_nonneg fun v hv => ?_
  obtain ⟨e, he, rfl⟩ := mem_map.1 hv
  obtain ⟨he, ho⟩ := mem_filter.1 he
  exact h e he (beq_iff_eq.1 ho)

end Sums

/-! ## The rows of a day -/

section Rows

variable {started : Time} {base : JobId} {st st' : JobStore} {q : Request} {reply : Reply}
  {new : List (Job × Option String)} {day : Day} {org : OrgId}

def Job.createdOn (org : OrgId) (day : Day) (j : Job) : Bool :=
  j.organizationId == org && dayOf j.createdAt == day

theorem JobStore.Keeps.countP (hkeep : st.Keeps (fun o _ => o == org) st')
    (hrow : ∀ i j', st'.db.job i = some j' → ∃ j, st.SameRow st' i j j') :
    st'.db.jobs.rows.countP (Job.createdOn org day) =
      st.db.jobs.rows.countP (Job.createdOn org day) := by
  refine Table.countP_rows nodup_nil (fun _ h => absurd h not_mem_nil) fun i => ?_
  show (st'.db.job i).any _ = true ↔ (st.db.job i).any _ = true ∨ _
  cases hj' : st'.db.job i with
  | some j' =>
    obtain ⟨j, hj, -, ho, -, hat, -⟩ := hrow i j' hj'
    rw [hj]
    simp [Job.createdOn, ho, hat]
  | none =>
    cases hj : st.db.job i with
    | none => simp
    | some j =>
      -- a row that is gone is another organization's
      have hno : j.organizationId ≠ org := by
        intro ho
        obtain ⟨j', -, hj'', -⟩ := hkeep i j hj (beq_iff_eq.2 ho)
        rw [hj'] at hj''
        cases hj''
      simp [Job.createdOn, hno]

theorem Request.Commit.countP (C : q.Commit started base st st' reply new) (org : OrgId) :
    st'.db.jobs.rows.countP (Job.createdOn org (dayOf started)) =
      st.db.jobs.rows.countP (Job.createdOn org (dayOf started)) +
        if org = q.organizationId then new.length else 0 := by
  have hks : (if org = q.organizationId then new.length else 0) =
      (if org = q.organizationId then new.map (·.1.id) else []).length := by
    split
    · rw [length_map]
    · rfl
  rw [hks]
  refine Table.countP_rows ?_ ?_ fun i => ?_
  · split
    · exact C.adds.nodup
    · exact .nil
  · intro i hi
    split at hi
    · obtain ⟨x, hx, rfl⟩ := mem_map.1 hi
      show (st.db.job x.1.id).any _ = false
      rw [(C.adds.added x hx).1]
      rfl
    · cases hi
  · show (st'.db.job i).any _ = true ↔ (st.db.job i).any _ = true ∨ _
    cases hj : st.db.job i with
    | some j =>
      obtain ⟨j', hj', ht⟩ := C.adds.old i j hj
      obtain ⟨ho, -, hat⟩ := ht.same
      have hno : i ∉ if org = q.organizationId then new.map (·.1.id) else [] := by
        split
        · intro hi
          obtain ⟨x, hx, hxi⟩ := mem_map.1 hi
          exact C.adds.ne_of_some hj x hx hxi
        · exact not_mem_nil
      rw [hj']
      simp [Job.createdOn, ho, hat, hno]
    | none =>
      cases hj' : st'.db.job i with
      | none =>
        have hno : i ∉ if org = q.organizationId then new.map (·.1.id) else [] := by
          split
          · intro hi
            obtain ⟨x, hx, rfl⟩ := mem_map.1 hi
            obtain ⟨-, j, hj, -⟩ := C.adds.added x hx
            rw [hj'] at hj
            cases hj
          · exact not_mem_nil
        simp [hno]
      | some j' =>
        rcases C.adds.only i j' hj' with ⟨j, hj₀⟩ | ⟨x, hx, rfl⟩
        · rw [hj] at hj₀
          cases hj₀
        · obtain ⟨-, j'', hj'', ht⟩ := C.adds.added x hx
          obtain rfl := Option.some.inj (hj'.symm.trans hj'')
          obtain ⟨ho, -, hat⟩ := ht.same
          obtain ⟨hxo, hxat, -⟩ := C.columns x hx
          have hmem : x.1.id ∈ new.map (·.1.id) := mem_map_of_mem hx
          by_cases horg : org = q.organizationId
          · simp [Job.createdOn, ho, hat, hxo, hxat, horg, hmem]
          · simp [Job.createdOn, ho, hat, hxo, hxat, horg, Ne.symm horg]

theorem BulkRequest.of_mem_existing {b : BulkRequest} {k : String} {j : Job}
    (h : (k, j) ∈ b.existing st) : st.existingIdempotentJob b.organizationId k = some j := by
  obtain ⟨⟨_, _, key⟩, -, hk⟩ := mem_filterMap.1 h
  obtain ⟨k', -, hk⟩ := Option.bind_eq_some_iff.1 hk
  obtain ⟨j', hj', he⟩ := Option.map_eq_some_iff.1 hk
  obtain ⟨rfl, rfl⟩ := Prod.mk.inj he
  exact hj'

theorem Request.Commit.not_refused (C : q.Commit started base st st' reply new) :
    reply.isRefused = false := by
  have hrep := C.reports
  cases q with
  | single r =>
    obtain ⟨i, rfl, -⟩ := hrep
    unfold SingleRequest.response
    split <;> rfl
  | bulk b =>
    obtain ⟨resp, rfl, -⟩ := hrep
    rfl
  | workflow org defs =>
    obtain ⟨w, rfl, -⟩ := hrep
    rfl

theorem Request.Commit.unused (C : q.Commit started base st st' reply new) {x : Handler}
    (hexp : x.Expects q) : reply.unused base x.count = x.count - new.length := by
  have hrep := C.reports
  cases q with
  | single r =>
    obtain ⟨i, rfl, hn⟩ := hrep
    have hone : x.count = 1 := hexp
    rw [hn, hone]
    unfold SingleRequest.response
    split <;> by_cases hi : i = base <;> simp [Reply.unused, hi]
  | bulk b =>
    obtain ⟨resp, rfl, hn⟩ := hrep
    rw [hn]
    rfl
  | workflow org defs =>
    obtain ⟨w, rfl, hn⟩ := hrep
    have hcount : x.count = defs.length := hexp.1
    rw [hn, hcount]
    exact (Int.sub_self _).symm

theorem Request.Commit.length_le {now : Time} {x : Handler} {server : Int} {met : Bool}
    (C : q.Commit started base st st' reply new) (hok : st.Ok base) (hexp : x.Expects q)
    (hkeys : ∀ b, q = .bulk b → ∀ k ∈ x.existingKeys,
      ∃ j, st.existingIdempotentJob b.organizationId k = some j)
    (h : q.insertRows now started server st base met = .ok (st', reply)) :
    new.length ≤ x.count := by
  have hrep := C.reports
  cases q with
  | single r =>
    obtain ⟨i, -, hn⟩ := hrep
    have hone : x.count = 1 := hexp
    rw [hn, hone]
    split <;> decide
  | bulk b =>
    obtain ⟨ins, res, new', S, -, rfl⟩ := BulkRequest.insertBulk_spec hok h
    obtain ⟨resp, hresp, hn⟩ := hrep
    obtain rfl := Reply.bulk.inj hresp
    have hcount : x.count = b.jobCount x.existingKeys := hexp
    rw [hn, S.countP_created hok, hcount]
    exact S.length_le hok (hkeys b rfl)
  | workflow org defs =>
    obtain ⟨w, -, hn⟩ := hrep
    rw [hn, show x.count = defs.length from hexp.1]

end Rows

/-- A handler whose charge is what it holds and the rows it made. -/
def Handler.Balanced (x : Handler) : Prop :=
  match x.stage with
  | .opened | .checked _ => x.charged = 0 ∧ x.made = []
  | .reserved _ quota => x.charged = x.count ∧ x.made = [] ∧ (quota = true ∨ x.count = 0)
  | .settling unused reply => x.charged = unused + x.made.length ∧ 0 ≤ x.charged ∧
      (reply.isRefused = true → x.made = [])
  | .recording _ => x.charged = x.made.length ∧ x.request.recordsDelivery = true

/-- An answered request is charged for the rows it made. Only webhook ingestion, which
records the delivery afterwards, makes a row and then fails. -/
structure CreateAnswer.Settled (a : CreateAnswer) : Prop where
  charged : a.charged = a.made.length
  refused : a.reply.isRefused = true → a.request.recordsDelivery = false → a.made = []

namespace Handler

variable {x : Handler}

theorem Balanced.charged_eq (h : x.Balanced) : x.charged = x.held + x.made.length := by
  unfold Balanced at h
  unfold held
  cases hs : x.stage with
  | opened | checked =>
    simp only [hs] at h
    rw [h.1, h.2]
    rfl
  | reserved met quota =>
    simp only [hs] at h
    obtain ⟨hc, hm, hq⟩ := h
    rw [hc, hm]
    rcases hq with rfl | h0
    · exact (Int.add_zero _).symm
    · simp [h0]
  | settling =>
    simp only [hs] at h
    exact h.1
  | recording =>
    simp only [hs] at h
    rw [h.1, Int.zero_add]

theorem Balanced.nonneg (h : x.Balanced) : 0 ≤ x.charged := by
  unfold Balanced at h
  split at h
  · rw [h.1]
  · rw [h.1]
  · rw [h.1]
    exact Int.natCast_nonneg _
  · exact h.2.1
  · rw [h.1]
    exact Int.natCast_nonneg _

end Handler

namespace CreateSys

/-- The reservations that are neither used nor given back, of the handlers that are on
their way and of those that ended there. -/
def outstanding (s : CreateSys) (org : OrgId) : Int :=
  (((s.live ++ s.dropped).filter (·.request.organizationId == org)).map Handler.held).sum

/-- The step is taken on the day of the state, its counter statement works, and the
answer to its commit arrives. -/
def Works (s : CreateSys) : CreateLabel → Prop
  | .tick d => dayOf (s.now + d) = dayOf s.now
  | .reserve _ _ fails | .settle _ fails => fails = false
  | .insert _ tx => tx ≠ .lost
  | _ => True

instance (s : CreateSys) (a : CreateLabel) : Decidable (s.Works a) :=
  match a with
  | .tick d => inferInstanceAs (Decidable (dayOf (s.now + d) = dayOf s.now))
  | .reserve _ _ fails | .settle _ fails => inferInstanceAs (Decidable (fails = false))
  | .insert _ tx => inferInstanceAs (Decidable (tx ≠ .lost))
  | .other _ | .begin _ | .refuse .. | .check _ | .record .. | .drop _ => isTrue trivial

/-- The step works and deletes no job of the organizations in `W`. -/
def Quiet (W : OrgId → Bool) (s : CreateSys) (a : CreateLabel) : Prop :=
  s.Works a ∧ s.Spares (fun o _ => W o) a = true

instance (W : OrgId → Bool) (s : CreateSys) (a : CreateLabel) : Decidable (s.Quiet W a) :=
  inferInstanceAs (Decidable (_ ∧ _))

def PlanRead (org : OrgId) (s : CreateSys) : CreateLabel → Bool
  | .reserve n planFails _ =>
    !(planFails && s.live[n]?.any fun x => x.request.organizationId == org)
  | _ => true

def accounts (s : CreateSys) : List Account :=
  (s.live ++ s.dropped).map Handler.account ++ s.answers.map CreateAnswer.account

/-- The accounts of everybody but handler `n`. -/
def others (s : CreateSys) (n : Nat) : List Account :=
  (s.live.eraseIdx n ++ s.dropped).map Handler.account ++ s.answers.map CreateAnswer.account

def total (s : CreateSys) (org : OrgId) (f : Account → Int) : Int := sumFor org f s.accounts

/-- A handler that is on its way, or ended there: its books balance, and in the
organizations in `W` it holds no negative reservation. -/
structure Open (W : OrgId → Bool) (x : Handler) : Prop where
  balanced : x.Balanced
  held : W x.request.organizationId = true → 0 ≤ x.held

/-- A handler on its way: it started today, and the keys it found are still there. -/
structure Current (W : OrgId → Bool) (s : CreateSys) (x : Handler) : Prop extends Open W x where
  today : dayOf x.started = dayOf s.now
  expects : x.Expects x.request
  keys : ∀ b, x.request = .bulk b → W b.organizationId = true →
    ∀ k ∈ x.existingKeys, ∃ j, s.store.existingIdempotentJob b.organizationId k = some j

/-- Since `start` the counter has changed by what was charged, and in the organizations in `W`
the rows by what was made. -/
structure Balances (W : OrgId → Bool) (start s : CreateSys) : Prop where
  count : ∀ org, s.count org = start.count org + s.total org Account.charged
  rows : ∀ org, W org = true →
    (s.rowsToday org : Int) = start.rowsToday org + s.total org fun e => e.made

/-- **The invariant of the accounting.** -/
structure QuotaOk (W : OrgId → Bool) (start s : CreateSys) : Prop extends Balances W start s where
  day : dayOf s.now = dayOf start.now
  upTo : ∀ org, Usage.upTo (dayOf s.now) (s.usage org)
  floor : ∀ org, 0 ≤ start.count org
  live : ∀ x ∈ s.live, Current W s x
  dropped : ∀ x ∈ s.dropped, Open W x
  answers : ∀ a ∈ s.answers, a.Settled

variable {W : OrgId → Bool} {cfg : CreateConfig} {start s s' t : CreateSys} {a : CreateLabel}
  {n : Nat} {x y : Handler} {org : OrgId} {reply : Reply} {charge : Int} {made : Nat}

/-! ## The accounts through a step -/

theorem accounts_perm (hx : s.live[n]? = some x) : s.accounts.Perm (x.account :: s.others n) := by
  obtain ⟨hn, rfl⟩ := List.getElem?_eq_some_iff.1 hx
  have hperm := ((getElem_cons_eraseIdx_perm hn).symm.append_right s.dropped).map Handler.account
  exact hperm.append_right _

theorem total_eq {e : Account} {l : List Account} (h : s.accounts.Perm (e :: l)) (org : OrgId)
    (f : Account → Int) :
    s.total org f = (if e.org = org then f e else 0) + sumFor org f l := by
  unfold total
  rw [sumFor_perm h, sumFor_cons]

theorem total_held (s : CreateSys) (org : OrgId) : s.total org Account.held = s.outstanding org := by
  have hans : sumFor org Account.held (s.answers.map CreateAnswer.account) = 0 := by
    refine sum_eq_zero fun v hv => ?_
    obtain ⟨e, he, rfl⟩ := mem_map.1 hv
    obtain ⟨a, -, rfl⟩ := mem_map.1 (mem_filter.1 he).1
    rfl
  unfold total accounts
  rw [sumFor_append, hans, Int.add_zero]
  unfold sumFor outstanding
  rw [filter_map, map_map]
  rfl

/-- What may change around a move of handler `x`: the counter of its organization, by
`charge`, and the store, by `made` rows of its organization. -/
structure Passes (W : OrgId → Bool) (s s' : CreateSys) (x : Handler) (charge : Int) (made : Nat) :
    Prop where
  live : s'.live = s.live
  dropped : s'.dropped = s.dropped
  answers : s'.answers = s.answers
  now : s'.now = s.now
  upTo : ∀ org, Usage.upTo (dayOf s.now) (s'.usage org)
  count : ∀ org, s'.count org = s.count org + if x.request.organizationId = org then charge else 0
  keeps : s.store.Keeps (fun o _ => W o) s'.store
  rows : ∀ org, W org = true → s'.rowsToday org =
    s.rowsToday org + if x.request.organizationId = org then made else 0

theorem count_setUsage_self (s : CreateSys) (org : OrgId) (row : Option Usage) :
    (s.setUsage org row).count org = getDailyJobs row (dayOf s.now) :=
  congrArg (getDailyJobs · _) (if_pos rfl)

theorem Current.keeps (h : Current W s x) (hday : dayOf t.now = dayOf s.now)
    (hkeeps : s.store.Keeps (fun o _ => W o) t.store) : Current W t x where
  toOpen := h.toOpen
  today := h.today.trans hday.symm
  expects := h.expects
  keys b hb hW k hk := by
    obtain ⟨j, hj⟩ := h.keys b hb hW k hk
    obtain ⟨hrow, ho, hkey⟩ := JobStore.of_existingIdempotentJob hj
    obtain ⟨j', -, hj', ho', -, -, hkey'⟩ := hkeeps j.id j hrow (by rw [ho]; exact hW)
    exact JobStore.existingIdempotentJob_some hj' (ho'.trans ho) (hkey'.trans hkey)

/-- `y` is the handler `x` at another stage. -/
structure SameRequest (x y : Handler) : Prop where
  request : y.request = x.request
  started : y.started = x.started
  count : y.count = x.count
  existingKeys : y.existingKeys = x.existingKeys

theorem SameRequest.expects (h : SameRequest x y) (hx : x.Expects x.request) :
    y.Expects y.request := by
  rw [h.request]
  unfold Handler.Expects at hx ⊢
  rw [h.count, h.existingKeys]
  exact hx

theorem total_of_empty {e : Account} (h : t.accounts.Perm (e :: s.accounts)) (hcharged : e.charged = 0)
    (hmade : e.made = 0) (org : OrgId) : t.total org Account.charged = s.total org Account.charged ∧
      t.total org (fun e => e.made) = s.total org fun e => e.made := by
  rw [total_eq h, total_eq h, hcharged, hmade]
  simp [total]

theorem madeRows_perm {st : JobStore} {reply : Reply} {new : List (Job × Option String)}
    (C : x.request.Commit x.started s.uuid s.store st reply new) :
    (s.madeRows x st).Perm (new.map (·.1.id)) := by
  refine (perm_ext_iff_of_nodup ((nodup_range' ..).filter _) C.adds.nodup).2 fun i => ?_
  rw [mem_filter, mem_range'_1, Bool.and_eq_true, Option.isNone_iff_eq_none,
    Option.isSome_iff_exists]
  constructor
  · rintro ⟨-, hnone, j, hj⟩
    rcases C.adds.only i j hj with ⟨j₀, hj₀⟩ | ⟨y, hy, rfl⟩
    · rw [hnone] at hj₀
      cases hj₀
    · exact mem_map_of_mem hy
  · intro hi
    obtain ⟨y, hy, rfl⟩ := mem_map.1 hi
    obtain ⟨hnone, j, hj, -⟩ := C.adds.added y hy
    exact ⟨(C.columns y hy).2.2, hnone, j, hj⟩

section Step

variable (I : QuotaOk W start s)

include I

theorem QuotaOk.reserved (x : Handler) (hx : x ∈ s.live ++ s.dropped) : Open W x :=
  (mem_append.1 hx).elim (fun hx => (I.live x hx).toOpen) (I.dropped x)

theorem QuotaOk.account {e : Account} (he : e ∈ s.accounts) :
    e.charged = e.held + e.made ∧ 0 ≤ e.charged := by
  rcases mem_append.1 he with he | he
  · obtain ⟨y, hy, rfl⟩ := mem_map.1 he
    exact ⟨(I.reserved y hy).balanced.charged_eq, (I.reserved y hy).balanced.nonneg⟩
  · obtain ⟨a, ha, rfl⟩ := mem_map.1 he
    have hc : a.account.charged = a.made.length := (I.answers a ha).charged
    exact ⟨hc.trans (Int.zero_add _).symm, by rw [hc]; exact Int.natCast_nonneg _⟩

theorem QuotaOk.nonneg (org : OrgId) : 0 ≤ s.count org := by
  rw [I.count]
  exact Int.add_nonneg (I.floor org) (sumFor_nonneg fun e he _ => (I.account he).2)

theorem Passes.refl (x : Handler) : Passes W s s x 0 0 :=
  ⟨rfl, rfl, rfl, rfl, I.upTo, fun _ => by rw [ite_self, Int.add_zero], .refl _ _,
    fun _ _ => by rw [ite_self, Nat.add_zero]⟩

theorem Passes.usage {row : Option Usage} (hupTo : Usage.upTo (dayOf s.now) row)
    (hget : getDailyJobs row (dayOf s.now) = s.count x.request.organizationId + charge) :
    Passes W s (s.setUsage x.request.organizationId row) x charge 0 := by
  refine ⟨rfl, rfl, rfl, rfl, fun org => ?_, fun org => ?_, .refl _ _,
    fun _ _ => by rw [ite_self]; rfl⟩
  · show Usage.upTo _ (if org = x.request.organizationId then row else s.usage org)
    split
    · exact hupTo
    · exact I.upTo org
  · split
    · next ho =>
      rw [← ho, count_setUsage_self, hget]
    · next ho =>
      rw [Int.add_zero]
      exact congrArg (getDailyJobs · _) (if_neg (Ne.symm ho))

/-- What carries the invariant over: the books of `t`, and that its handlers and answers
are those of `s`, or are as they should be. -/
theorem QuotaOk.next (hday : dayOf t.now = dayOf s.now)
    (hupTo : ∀ org, Usage.upTo (dayOf s.now) (t.usage org))
    (hkeeps : s.store.Keeps (fun o _ => W o) t.store) (hbooks : Balances W start t)
    (hlive : ∀ z ∈ t.live, z ∈ s.live ∨ Current W t z)
    (hdrop : ∀ z ∈ t.dropped, z ∈ s.dropped ∨ Open W z)
    (hans : ∀ a ∈ t.answers, a ∈ s.answers ∨ a.Settled) : QuotaOk W start t where
  toBalances := hbooks
  day := hday.trans I.day
  upTo org := hday ▸ hupTo org
  floor := I.floor
  live z hz := (hlive z hz).elim (fun hz => (I.live z hz).keeps hday hkeeps) id
  dropped z hz := (hdrop z hz).elim (I.dropped z) id
  answers a ha := (hans a ha).elim (I.answers a) id

/-- A step that leaves the sum of every organization's accounts. -/
theorem QuotaOk.books (hday : dayOf t.now = dayOf s.now) (husage : t.usage = s.usage)
    (hrows : ∀ org, W org = true → t.rowsToday org = s.rowsToday org)
    (htotal : ∀ org, t.total org Account.charged = s.total org Account.charged ∧
      t.total org (fun e => e.made) = s.total org fun e => e.made) : Balances W start t := by
  refine ⟨fun org => ?_, fun org hW => ?_⟩
  · rw [(htotal org).1, ← I.count]
    unfold CreateSys.count
    rw [husage, hday]
  · rw [(htotal org).2, hrows org hW, I.rows org hW]

/-- The clock goes on within the day, or other commands are executed. -/
theorem QuotaOk.frame (hlive : t.live = s.live) (hdrop : t.dropped = s.dropped)
    (hans : t.answers = s.answers) (husage : t.usage = s.usage) (hday : dayOf t.now = dayOf s.now)
    (hkeeps : s.store.Keeps (fun o _ => W o) t.store)
    (hrows : ∀ org, W org = true → t.rowsToday org = s.rowsToday org) : QuotaOk W start t := by
  have hacc : t.accounts = s.accounts := by
    unfold accounts
    rw [hlive, hdrop, hans]
  refine I.next hday (husage ▸ I.upTo) hkeeps (I.books hday husage hrows fun org => ?_)
    (fun z hz => .inl (hlive ▸ hz)) (fun z hz => .inl (hdrop ▸ hz)) fun a ha => .inl (hans ▸ ha)
  unfold total
  rw [hacc]
  exact ⟨rfl, rfl⟩

theorem QuotaOk.of_reply (r : Request) (reply : Reply) : QuotaOk W start (s.reply r reply) := by
  refine I.next rfl I.upTo (.refl _ _)
    (I.books rfl rfl (fun _ _ => rfl) (total_of_empty perm_middle rfl rfl))
    (fun _ => .inl) (fun _ => .inl) fun a ha => ?_
  rcases mem_cons.1 ha with rfl | ha
  · exact .inr ⟨rfl, fun _ _ => rfl⟩
  · exact .inl ha

theorem QuotaOk.of_enter {r : Request} (E : Entered s r x) : QuotaOk W start (s.enter x) := by
  refine I.next rfl I.upTo (.refl _ _)
    (I.books rfl rfl (fun _ _ => rfl) (total_of_empty (.refl _) E.charged (congrArg length E.made)))
    (fun z hz => ?_) (fun _ => .inl) fun _ => .inl
  rcases mem_cons.1 hz with rfl | hz
  · refine .inr ⟨⟨?_, fun _ => ?_⟩, congrArg dayOf E.started, E.request ▸ E.count, fun b hb _ k hk => ?_⟩
    · unfold Handler.Balanced
      rw [E.stage]
      exact ⟨E.charged, E.made⟩
    · unfold Handler.held
      rw [E.stage]
    · rw [E.keys b (E.request.symm.trans hb)] at hk
      obtain ⟨⟨k', j⟩, hmem, rfl⟩ := mem_map.1 hk
      exact ⟨j, BulkRequest.of_mem_existing hmem⟩
  · exact .inl hz

theorem QuotaOk.of_begin (r : Request) : QuotaOk W start (s.begin r) := by
  rcases begin_cases s r with ⟨why, he⟩ | ⟨_, _, _, _, _, _, _, he⟩ | ⟨x, he, E⟩
  · rw [he]
    exact I.of_reply r _
  · rw [he]
    exact I.of_reply r _
  · rw [he]
    exact I.of_enter E

/-! ## The steps of a handler -/

variable (hx : s.live[n]? = some x)

include hx

theorem QuotaOk.charged_le : x.charged ≤ s.count x.request.organizationId := by
  have hperm := accounts_perm hx
  have hrest : 0 ≤ sumFor x.request.organizationId Account.charged (s.others n) :=
    sumFor_nonneg fun e he _ => (I.account (hperm.mem_iff.2 (mem_cons_of_mem _ he))).2
  have hstart := I.floor x.request.organizationId
  have htotal := total_eq hperm x.request.organizationId Account.charged
  rw [if_pos (show x.account.org = x.request.organizationId from rfl)] at htotal
  have hself : x.account.charged = x.charged := rfl
  rw [I.count, htotal]
  omega

/-- **One account changes**, by `charge` and `made`. -/
theorem QuotaOk.totals (T : Passes W s s' x charge made) {e : Account}
    (hperm : t.accounts.Perm (e :: s.others n)) (hnow : t.now = s'.now)
    (husage : t.usage = s'.usage) (hstore : t.store = s'.store)
    (horg : e.org = x.request.organizationId) (hcharged : e.charged = x.charged + charge)
    (hmade : e.made = x.made.length + made) : Balances W start t := by
  have hbefore := accounts_perm hx
  refine ⟨fun org => ?_, fun org hW => ?_⟩
  · have hcount : t.count org = s'.count org := by
      unfold CreateSys.count
      rw [hnow, husage]
    rw [hcount, T.count, I.count, total_eq hperm, total_eq hbefore, horg, hcharged]
    show _ + ((if x.request.organizationId = org then x.charged else 0) + _) + _ = _
    split <;> omega
  · have hrows : t.rowsToday org = s'.rowsToday org := by
      unfold rowsToday
      rw [hnow, hstore]
    rw [hrows, T.rows org hW, Int.natCast_add, I.rows org hW, total_eq hperm, total_eq hbefore,
      horg, hmade]
    show _ + ((if x.request.organizationId = org then (x.made.length : Int) else 0) + _) + _ = _
    split <;> omega

/-- **A handler goes on.** -/
theorem QuotaOk.put (T : Passes W s s' x charge made) (hy : SameRequest x y)
    (hcharged : y.charged = x.charged + charge) (hmade : y.made.length = x.made.length + made)
    (hbalanced : y.Balanced) (hheld : W x.request.organizationId = true → 0 ≤ y.held) :
    QuotaOk W start (s'.put n y) := by
  have hcur := I.live x (mem_of_getElem? hx)
  have hday : dayOf (s'.put n y).now = dayOf s.now := congrArg dayOf T.now
  have hperm : (s'.put n y).accounts.Perm (y.account :: s.others n) := by
    unfold CreateSys.put accounts others
    rw [T.live, T.dropped, T.answers]
    exact .refl _
  refine I.next hday T.upTo T.keeps
    (I.totals hx T hperm rfl rfl rfl (congrArg Request.organizationId hy.request) hcharged hmade)
    (fun z hz => ?_) (fun z hz => .inl (T.dropped ▸ hz)) fun a ha => .inl (T.answers ▸ ha)
  rcases mem_cons.1 hz with rfl | hz
  · refine .inr ⟨⟨hbalanced, fun hW => hheld (hy.request ▸ hW)⟩, ?_, hy.expects hcur.expects,
      fun b hb hW => ?_⟩
    · rw [hy.started, hday]
      exact hcur.today
    · rw [hy.existingKeys]
      exact (hcur.keeps hday T.keeps).keys b (hy.request.symm.trans hb) hW
  · rw [T.live] at hz
    exact .inl (mem_of_mem_eraseIdx hz)

/-- **A handler answers.** -/
theorem QuotaOk.answer (T : Passes W s s' x charge made) (hy : y.request = x.request)
    (hcharged : y.charged = x.charged + charge) (hmade : y.made.length = x.made.length + made)
    (hsettled : CreateAnswer.Settled ⟨y.request, reply, y.charged, y.made⟩) :
    QuotaOk W start (s'.answer n y reply) := by
  have hperm : (s'.answer n y reply).accounts.Perm
      ((⟨y.request, reply, y.charged, y.made⟩ : CreateAnswer).account :: s.others n) := by
    unfold CreateSys.answer accounts others
    rw [T.live, T.dropped, T.answers]
    exact perm_middle
  refine I.next (congrArg dayOf T.now) T.upTo T.keeps
    (I.totals hx T hperm rfl rfl rfl (congrArg Request.organizationId hy) hcharged hmade)
    (fun z hz => .inl ?_) (fun z hz => .inl (T.dropped ▸ hz)) fun a ha => ?_
  · have hz : z ∈ s'.live.eraseIdx n := hz
    rw [T.live] at hz
    exact mem_of_mem_eraseIdx hz
  · rcases mem_cons.1 ha with rfl | ha
    · exact .inr hsettled
    · exact .inl (T.answers ▸ ha)

theorem QuotaOk.finish (T : Passes W s s' x charge made) (hy : SameRequest x y)
    (hcharged : y.charged = x.charged + charge) (hmade : y.made.length = x.made.length + made)
    (hsettled : y.charged = y.made.length) (hrefused : reply.isRefused = true → y.made = []) :
    QuotaOk W start (s'.finish n y reply) := by
  rcases finish_cases s' n y reply with he | ⟨hrec, -, he⟩
  · rw [he]
    exact I.answer hx T hy.request hcharged hmade ⟨hsettled, fun h _ => hrefused h⟩
  · rw [he]
    exact I.put hx T (y := { y with stage := .recording reply })
      ⟨hy.request, hy.started, hy.count, hy.existingKeys⟩ hcharged hmade ⟨hsettled, hrec⟩
      fun _ => le_refl _

theorem QuotaOk.conclude {unused : Int} (T : Passes W s s' x charge made) (hy : SameRequest x y)
    (hcharged : y.charged = x.charged + charge) (hmade : y.made.length = x.made.length + made)
    (hbalance : y.charged = unused + y.made.length) (hnonneg : 0 ≤ y.charged)
    (hrefused : reply.isRefused = true → y.made = [])
    (hheld : W x.request.organizationId = true → 0 ≤ unused) :
    QuotaOk W start (s'.conclude n y unused reply) := by
  unfold CreateSys.conclude
  split
  · next hu =>
    refine I.finish hx T hy hcharged hmade ?_ hrefused
    rw [hbalance, hu, Int.zero_add]
  · exact I.put hx T (y := { y with stage := .settling unused reply })
      ⟨hy.request, hy.started, hy.count, hy.existingKeys⟩ hcharged hmade
      ⟨hbalance, hnonneg, hrefused⟩ hheld

theorem QuotaOk.early (hs : x.stage = .opened ∨ ∃ met, x.stage = .checked met) :
    x.charged = 0 ∧ x.made = [] := by
  have hb := (I.live x (mem_of_getElem? hx)).balanced
  unfold Handler.Balanced at hb
  rcases hs with hs | ⟨met, hs⟩
  · simp only [hs] at hb
    exact hb
  · simp only [hs] at hb
    exact hb

theorem QuotaOk.of_answer (hs : x.stage = .opened) (reply : Reply) :
    QuotaOk W start (s.answer n x reply) := by
  obtain ⟨hc, hm⟩ := I.early hx (.inl hs)
  exact I.answer hx (.refl I x) rfl (Int.add_zero _).symm rfl
    ⟨by rw [hc, hm]; rfl, fun _ _ => hm⟩

theorem QuotaOk.of_check (hs : x.stage = .opened) (met : Bool) :
    QuotaOk W start (s.put n { x with stage := .checked met }) := by
  have hearly := I.early hx (.inl hs)
  exact I.put hx (.refl I x) ⟨rfl, rfl, rfl, rfl⟩ (Int.add_zero _).symm rfl hearly
    fun _ => le_refl _

/-- **Reserve.** The counter goes up by what the handler then holds, or the request is refused. -/
theorem QuotaOk.of_reserve {met : Bool} (hs : x.stage = .checked met) (planFails : Bool) :
    QuotaOk W start (s.reserve cfg n x met planFails false) := by
  obtain ⟨hc, hm⟩ := I.early hx (.inr ⟨met, hs⟩)
  rcases reserve_cases cfg s n x met planFails false with ⟨hcount, he⟩ | ⟨-, -, hcase⟩
  · -- nothing to reserve
    have hcount : x.count = 0 := hcount.resolve_right Bool.false_ne_true
    rw [he]
    exact I.put hx (.refl I x) ⟨rfl, rfl, rfl, rfl⟩ (Int.add_zero _).symm rfl
      ⟨by rw [hc, hcount]; rfl, hm, .inr hcount⟩ fun _ => le_refl _
  · have hspec := tryIncrementDailyJobs_spec (s.usage x.request.organizationId) (dayOf s.now) x.count
      (cfg.readLimit x.request.organizationId planFails)
    have hupTo := upTo_tryIncrementDailyJobs x.count
      (cfg.readLimit x.request.organizationId planFails) (I.upTo x.request.organizationId)
    have hnonneg : 0 ≤ getDailyJobs (s.usage x.request.organizationId) (dayOf s.now) := I.nonneg _
    dsimp only at hcase
    generalize tryIncrementDailyJobs (s.usage x.request.organizationId) (dayOf s.now) x.count
      (cfg.readLimit x.request.organizationId planFails) = r at hspec hupTo hcase
    rcases hcase with ⟨hr, he⟩ | ⟨hr, he⟩
    · obtain ⟨-, -, hget⟩ : _ ∧ _ ∧ _ := hspec.resolve_left fun h => by omega
      have hcount : (s.setUsage x.request.organizationId r.1).count x.request.organizationId =
          s.count x.request.organizationId + x.count := (count_setUsage_self ..).trans hget
      have hcharge : x.charged + ((s.setUsage x.request.organizationId r.1).count
          x.request.organizationId - s.count x.request.organizationId) = x.charged + x.count := by
        rw [hcount]
        omega
      rw [he]
      refine I.put hx (.usage I hupTo hget) ⟨rfl, rfl, rfl, rfl⟩ hcharge rfl ⟨?_, hm, .inl rfl⟩
        fun _ => Int.natCast_nonneg _
      rw [hcharge, hc, Int.zero_add]
    · obtain ⟨-, -, -, hget⟩ : _ ∧ _ ∧ _ ∧ _ := hspec.resolve_right fun h => by omega
      rw [he]
      exact I.answer hx (.usage I hupTo (hget.trans (Int.add_zero _).symm)) rfl (Int.add_zero _).symm
        rfl ⟨by rw [hc, hm]; rfl, fun _ _ => hm⟩

/-- **Insert.** What the handler no longer holds are rows of the day. -/
theorem QuotaOk.of_insert (hok : s.store.Ok s.uuid) {met quota : Bool}
    (hs : x.stage = .reserved met quota) {tx : TxEnd} (htx : tx ≠ .lost) :
    QuotaOk W start (s.insert cfg n x met quota tx) := by
  have hmem := mem_of_getElem? hx
  obtain ⟨hc, hm, hq⟩ : x.charged = x.count ∧ x.made = [] ∧ (quota = true ∨ x.count = 0) := by
    have hb := (I.live x hmem).balanced
    unfold Handler.Balanced at hb
    simp only [hs] at hb
    exact hb
  have hreserved : (if quota then (x.count : Int) else 0) = x.count := by
    rcases hq with rfl | h0
    · rfl
    · rw [h0]
      exact ite_self _
  have hnonneg : 0 ≤ x.charged := by
    rw [hc]
    exact Int.natCast_nonneg _
  have hcases := insert_cases cfg s n x met quota tx
  dsimp only at hcases
  rw [hreserved] at hcases
  rcases hcases with ⟨why, he⟩ | ⟨st, reply, hins, ⟨hlost, -⟩ | ⟨-, he⟩⟩
  · -- the transaction has no effect
    have T : Passes W s { s with uuid := s.uuid + x.request.idCount } x 0 0 :=
      { Passes.refl I x with }
    rw [he]
    refine I.conclude hx T ⟨rfl, rfl, rfl, rfl⟩ (Int.add_zero _).symm rfl ?_ hnonneg (fun _ => hm)
      fun _ => Int.natCast_nonneg _
    rw [hc, hm]
    exact (Int.add_zero _).symm
  · exact absurd hlost htx
  · obtain ⟨new, C⟩ := Request.insertRows_spec hok hins
    have hexp := (I.live x hmem).expects
    have hlen : (s.madeRows x st).length = new.length := by
      rw [(madeRows_perm C).length_eq, length_map]
    have T : Passes W s { s with uuid := s.uuid + x.request.idCount, store := st } x 0 new.length :=
      { Passes.refl I x with
        keeps := C.adds.keeps
        rows := fun org _ => by
          have hcount := C.countP org
          rw [(I.live x hmem).today] at hcount
          simp only [eq_comm (a := org)] at hcount
          exact hcount }
    rw [he, C.unused hexp]
    refine I.conclude hx T ⟨rfl, rfl, rfl, rfl⟩ (Int.add_zero _).symm ?_ ?_ hnonneg
      (fun h => absurd h (by rw [C.not_refused]; exact Bool.false_ne_true)) fun hW => ?_
    · rw [hm, hlen]
      exact (Nat.zero_add _).symm
    · show x.charged = x.count - new.length + ((s.madeRows x st).length : Int)
      rw [hc, hlen]
      omega
    · have hle := C.length_le hok hexp (fun b hb => (I.live x hmem).keys b hb (by rw [hb] at hW; exact hW))
        hins
      omega

/-- **Settle.** What is given back was charged. -/
theorem QuotaOk.of_settle {unused : Int} (hs : x.stage = .settling unused reply) :
    QuotaOk W start (s.settle n x unused reply false) := by
  obtain ⟨hbalance, -, hrefused⟩ : x.charged = unused + x.made.length ∧ 0 ≤ x.charged ∧
      (reply.isRefused = true → x.made = []) := by
    have hb := (I.live x (mem_of_getElem? hx)).balanced
    unfold Handler.Balanced at hb
    simp only [hs] at hb
    exact hb
  have hle := I.charged_le hx
  unfold settle
  dsimp only
  rw [if_neg Bool.false_ne_true]
  generalize hrow : (if 0 < unused then _ else _ : Option Usage) = row
  have hspec : Usage.upTo (dayOf s.now) row ∧
      getDailyJobs row (dayOf s.now) = s.count x.request.organizationId + -unused := by
    rw [← hrow]
    split
    · next hpos =>
      refine ⟨upTo_refundDailyJobs (I.upTo _), ?_⟩
      rw [getDailyJobs_refundDailyJobs (I.upTo _) hpos (I.nonneg _)]
      exact max_eq_right (by unfold CreateSys.count at hle; omega)
    · exact ⟨upTo_incrementDailyJobs, getDailyJobs_incrementDailyJobs⟩
  obtain ⟨hupTo, hget⟩ := hspec
  have hcharge : x.charged + ((s.setUsage x.request.organizationId row).count
      x.request.organizationId - s.count x.request.organizationId) = x.charged + -unused := by
    rw [count_setUsage_self, hget]
    omega
  refine I.finish hx (.usage I hupTo hget) ⟨rfl, rfl, rfl, rfl⟩ hcharge rfl ?_ hrefused
  rw [hcharge]
  show x.charged + -unused = (x.made.length : Int)
  omega

theorem QuotaOk.of_record (hs : x.stage = .recording reply) (reply' : Reply) :
    QuotaOk W start (s.answer n x reply') := by
  have hb := (I.live x (mem_of_getElem? hx)).balanced
  unfold Handler.Balanced at hb
  simp only [hs] at hb
  refine I.answer hx (.refl I x) rfl (Int.add_zero _).symm rfl ⟨hb.1, fun _ hno => ?_⟩
  exact absurd hb.2 (by rw [show x.request.recordsDelivery = false from hno]; exact Bool.false_ne_true)

theorem QuotaOk.of_drop :
    QuotaOk W start { s with live := s.live.eraseIdx n, dropped := x :: s.dropped } := by
  have hperm : CreateSys.accounts { s with live := s.live.eraseIdx n, dropped := x :: s.dropped } ~
      s.accounts :=
    ((perm_middle.map _).append_right _).trans (accounts_perm hx).symm
  refine I.next rfl I.upTo (.refl _ _)
    (I.books rfl rfl (fun _ _ => rfl) fun _ => ⟨sumFor_perm hperm, sumFor_perm hperm⟩)
    (fun z hz => .inl (mem_of_mem_eraseIdx hz)) (fun z hz => ?_) fun _ => .inl
  rcases mem_cons.1 hz with rfl | hz
  · exact .inr (I.live z (mem_of_getElem? hx)).toOpen
  · exact .inl hz

end Step

/-- **Every quiet step keeps the accounting.** -/
theorem QuotaOk.step (I : QuotaOk W start s) (hok : s.store.Ok s.uuid) (hq : s.Quiet W a)
    (h : s.next cfg a = some t) : QuotaOk W start t := by
  obtain ⟨hworks, hspares⟩ := hq
  cases step_of_next h with
  | tick d =>
    have hday : dayOf (s.now + d) = dayOf s.now := hworks
    refine I.frame rfl rfl rfl rfl hday (.refl _ _) fun org _ => ?_
    unfold rowsToday
    rw [hday]
  | other c hc =>
    have hrow : ∀ i j', (c.exec cfg.server s.now s.store.db).job i = some j' → _ :=
      fun i j' => JobStore.sameRow_of_exec hc
    have hkeeps : s.store.Keeps (fun o _ => W o)
        { s.store with db := c.exec cfg.server s.now s.store.db } :=
      JobStore.keeps_of_exec hspares
    refine I.frame rfl rfl rfl rfl rfl hkeeps fun org hW => ?_
    refine JobStore.Keeps.countP (fun i j hj ho => hkeeps i j hj ?_) hrow
    rw [beq_iff_eq.1 ho]
    exact hW
  | begin r => exact I.of_begin r
  | refuse n x why hx hs | orphan n x hx hs => exact I.of_answer hx hs _
  | check n x met hx hs => exact I.of_check hx hs met
  | reserve n x met planFails fails hx hs =>
    obtain rfl : fails = false := hworks
    exact I.of_reserve hx hs planFails
  | insert n x met quota tx hx hs => exact I.of_insert hx hok hs hworks
  | settle n x unused reply fails hx hs =>
    obtain rfl : fails = false := hworks
    exact I.of_settle hx hs
  | record n x reply fails hx hs => exact I.of_record hx hs _
  | drop n x hx => exact I.of_drop hx

theorem QuotaOk.init (h : (createSystem cfg).Init s) : QuotaOk W s s := by
  obtain ⟨hlive, hdrop, hans, -, hcounter⟩ := h
  have hacc : s.accounts = [] := by
    unfold accounts
    rw [hlive, hdrop, hans]
    rfl
  have htotal : ∀ org f, s.total org f = 0 := by
    intro org f
    unfold total
    rw [hacc]
    rfl
  refine ⟨⟨fun org => ?_, fun org _ => ?_⟩, rfl, fun org => (hcounter org).1,
    fun org => (hcounter org).2, fun x hx => ?_, fun x hx => ?_, fun a ha => ?_⟩
  · rw [htotal, Int.add_zero]
  · rw [htotal, Int.add_zero]
  · rw [hlive] at hx
    cases hx
  · rw [hdrop] at hx
    cases hx
  · rw [hans] at ha
    cases ha

theorem quotaOk_of_run {h : List (CreateSys × CreateLabel)} (hr : (createSystem cfg).Run s h)
    (hq : (createSystem cfg).Steps (Quiet W) h) : QuotaOk W (Machine.origin (M := createSystem cfg) s h) s :=
  hr.invariant (M := createSystem cfg) (C := Quiet W)
    (I := fun s h => QuotaOk W (Machine.origin (M := createSystem cfg) s h) s)
    (fun _ hi => .init hi) (fun _ _ _ _ hr _ I hq hn => I.step (store_ok_of_run hr) hq hn) hq

def settledRow (s : CreateSys) (org : OrgId) (unused : Int) : Option Usage :=
  if 0 < unused then (refundDailyJobs (s.usage org) (dayOf s.now) unused).1
  else (incrementDailyJobs (s.usage org) (dayOf s.now) (-unused)).1

/-- What a step does to the counters: nothing, or it sets the one of its handler. -/
inductive CounterStep (cfg : CreateConfig) (s : CreateSys) (a : CreateLabel) (t : CreateSys) : Prop
  | same : t.usage = s.usage → CounterStep cfg s a t
  | reserve (n : Nat) (x : Handler) (planFails fails : Bool) : a = .reserve n planFails fails →
      s.live[n]? = some x →
      t.usage = (s.setUsage x.request.organizationId (tryIncrementDailyJobs
        (s.usage x.request.organizationId) (dayOf s.now) x.count
        (cfg.readLimit x.request.organizationId planFails)).1).usage →
      CounterStep cfg s a t
  | settle (n : Nat) (x : Handler) (unused : Int) (reply : Reply) : s.live[n]? = some x →
      x.stage = .settling unused reply →
      t.usage = (s.setUsage x.request.organizationId
        (s.settledRow x.request.organizationId unused)).usage →
      CounterStep cfg s a t

theorem counterStep_of_next (h : s.next cfg a = some t) : CounterStep cfg s a t := by
  cases step_of_next h with
  | begin r =>
    rcases begin_cases s r with ⟨_, he⟩ | ⟨_, _, _, _, _, _, _, he⟩ | ⟨_, he, -⟩ <;>
      rw [he] <;> exact .same rfl
  | reserve n x met planFails fails hx hs =>
    rcases reserve_cases cfg s n x met planFails fails with ⟨-, he⟩ | ⟨-, -, ⟨-, he⟩ | ⟨-, he⟩⟩
    · rw [he]
      exact .same rfl
    · rw [he]
      exact .reserve n x planFails fails rfl hx rfl
    · rw [he]
      exact .reserve n x planFails fails rfl hx rfl
  | insert n x met quota tx hx hs =>
    rcases insert_cases cfg s n x met quota tx with ⟨_, he⟩ | ⟨_, _, -, ⟨-, he⟩ | ⟨-, he⟩⟩ <;>
      rw [he] <;> exact .same (conclude_frame ..).2.2
  | settle n x unused reply fails hx hs =>
    unfold settle
    dsimp only
    split
    · exact .same (finish_frame ..).2.2
    · exact .settle n x unused reply hx hs (finish_frame ..).2.2
  | tick | other | refuse | check | orphan | record | drop => exact .same rfl

theorem count_of_setUsage {o : OrgId} {row : Option Usage} (hday : dayOf t.now = dayOf s.now)
    (husage : t.usage = (s.setUsage o row).usage) (org : OrgId) :
    t.count org = if o = org then getDailyJobs row (dayOf s.now) else s.count org := by
  unfold CreateSys.count
  rw [husage, hday]
  show getDailyJobs (if org = o then row else s.usage org) _ = _
  split
  · next ho => rw [if_pos ho.symm]
  · next ho => rw [if_neg (Ne.symm ho)]

/-- **The limit.** A reservation that reads the plan takes the counter to the limit at
most, and a settlement gives back. -/
theorem QuotaOk.count_le (I : QuotaOk W start s) (It : QuotaOk W start t) (hW : W org = true)
    (hplan : s.PlanRead org a = true) (hl : 0 ≤ cfg.dailyLimit org) (h : s.next cfg a = some t) :
    t.count org ≤ max (s.count org) (cfg.dailyLimit org) := by
  have hday : dayOf t.now = dayOf s.now := It.day.trans I.day.symm
  have hself : s.count org ≤ max (s.count org) (cfg.dailyLimit org) := le_max_left _ _
  cases counterStep_of_next h with
  | same husage =>
    unfold CreateSys.count
    rw [hday, husage]
    exact hself
  | reserve n x planFails fails ha hx husage =>
    rw [count_of_setUsage hday husage]
    split
    · next ho =>
      subst ho ha
      have hread : planFails = false := by simpa [PlanRead, hx] using hplan
      rcases tryIncrementDailyJobs_spec (s.usage x.request.organizationId) (dayOf s.now) x.count
        (cfg.readLimit x.request.organizationId planFails) with ⟨-, -, -, hget⟩ | ⟨hlimit, -, hget⟩
      · rw [hget]
        exact hself
      · rw [hread] at hlimit
        rw [hget]
        exact le_max_of_le_right (hlimit hl)
    · exact hself
  | settle n x unused reply hx hs husage =>
    rw [count_of_setUsage hday husage]
    split
    · next ho =>
      subst ho
      have hheld := (I.live x (mem_of_getElem? hx)).held hW
      unfold Handler.held at hheld
      simp only [hs] at hheld
      have hnonneg : 0 ≤ getDailyJobs (s.usage x.request.organizationId) (dayOf s.now) := I.nonneg _
      refine le_max_of_le_left ?_
      unfold settledRow CreateSys.count
      split
      · next hpos =>
        rw [getDailyJobs_refundDailyJobs (I.upTo _) hpos hnonneg]
        omega
      · rw [getDailyJobs_incrementDailyJobs]
        omega
    · exact hself

theorem count_le_of_run {h : List (CreateSys × CreateLabel)} (hr : (createSystem cfg).Run s h)
    (hW : W org = true) (hq : (createSystem cfg).Steps (Quiet W) h)
    (hplan : (createSystem cfg).Steps (fun s a => PlanRead org s a) h)
    (hl : 0 ≤ cfg.dailyLimit org) :
    s.count org ≤ max ((Machine.origin (M := createSystem cfg) s h).count org)
      (cfg.dailyLimit org) := by
  refine hr.invariant (M := createSystem cfg) (C := fun s a => Quiet W s a ∧ PlanRead org s a = true)
    (I := fun s h => s.count org ≤
      max ((Machine.origin (M := createSystem cfg) s h).count org) (cfg.dailyLimit org))
    (fun _ _ => le_max_left _ _) (fun _ _ _ _ hr hc ih hC hn => ?_)
    fun y hy => ⟨hq y hy, hplan y hy⟩
  have I := quotaOk_of_run hr fun y hy => (hc y hy).1
  have It := I.step (store_ok_of_run hr) hC.1 hn
  exact (I.count_le It hW hC.2 hl hn).trans (max_le ih (le_max_right _ _))

end CreateSys

/-- **The daily quota is exact.** Within a day, with working counter statements, commits
whose answer arrives and no deletion in the organization: the counter changes by the rows
created plus the reservations that are out, and it is never negative. If every reservation
reads the plan, it never passes the limit. -/
theorem daily_quota_exact {cfg : CreateConfig} {s : CreateSys} {h : List (CreateSys × CreateLabel)}
    (hr : (createSystem cfg).Run s h) (org : OrgId)
    (hq : (createSystem cfg).Steps (CreateSys.Quiet (· == org)) h) :
    let start : CreateSys := Machine.origin (M := createSystem cfg) s h
    s.count org - start.count org =
        (s.rowsToday org : Int) - start.rowsToday org + s.outstanding org ∧
      0 ≤ s.outstanding org ∧ 0 ≤ s.count org ∧
      ((createSystem cfg).Steps (fun s a => CreateSys.PlanRead org s a) h → 0 ≤ cfg.dailyLimit org →
        s.count org ≤ max (start.count org) (cfg.dailyLimit org) ∧
        (s.rowsToday org : Int) - start.rowsToday org ≤ max 0 (cfg.dailyLimit org - start.count org)) := by
  intro start
  have I : CreateSys.QuotaOk (· == org) start s := CreateSys.quotaOk_of_run hr hq
  have hself : (org == org) = true := beq_self_eq_true org
  have hout : 0 ≤ s.outstanding org := by
    rw [← CreateSys.total_held]
    refine sumFor_nonneg fun e he ho => ?_
    rcases mem_append.1 he with he | he
    · obtain ⟨y, hy, rfl⟩ := mem_map.1 he
      exact (I.reserved y hy).held (beq_iff_eq.2 ho)
    · obtain ⟨a, -, rfl⟩ := mem_map.1 he
      exact le_refl _
  have hexact : s.count org - start.count org =
      (s.rowsToday org : Int) - start.rowsToday org + s.outstanding org := by
    have htotal : s.total org Account.charged = s.outstanding org + s.total org fun e => e.made := by
      rw [← CreateSys.total_held]
      exact sumFor_add fun e he => (I.account he).1
    rw [I.count, I.rows org hself, htotal]
    omega
  refine ⟨hexact, hout, I.nonneg org, fun hplan hl => ?_⟩
  have hle : s.count org ≤ max (start.count org) (cfg.dailyLimit org) :=
    CreateSys.count_le_of_run (W := (· == org)) hr hself hq hplan hl
  exact ⟨hle, by omega⟩

theorem CreateSys.steps_quiet {cfg : CreateConfig} {W : OrgId → Bool}
    {h : List (CreateSys × CreateLabel)} (hq : (h.all fun y => decide (y.1.Quiet W y.2)) = true) :
    (createSystem cfg).Steps (CreateSys.Quiet W) h :=
  fun (y : CreateSys × CreateLabel) hy =>
    have hd : decide (y.1.Quiet W y.2) = true := all_eq_true.1 hq y hy
    of_decide_eq_true hd

theorem init_createSystem {cfg : CreateConfig} (now : Time) :
    (createSystem cfg).Init { now := now } := by
  refine ⟨rfl, rfl, rfl, ⟨fun _ _ h => ?_, fun _ _ h => ?_, fun _ _ _ _ _ h => ?_⟩, fun org =>
    ⟨fun _ h => ?_, le_refl _⟩⟩ <;> cases h

/-- A request for a job in queue `mail` of organization 0. -/
def mailRequest (key : Option String) (path : CreatePath) : Request :=
  .single { job := { path := path, organizationId := 0, queueName := "mail" }, key := key }

/-- A REST and a gRPC request race for one key under a limit of 2; while the one that
lost has not given its reservation back, a third request is refused. -/
theorem daily_quota_exact_race : ∃ s h,
    (createSystem { dailyLimit := fun _ => 2 }).Run s h ∧ s.rowsToday 0 = 1 ∧ s.outstanding 0 = 1 ∧
      s.answers.length = 2 ∧
      (let start : CreateSys := Machine.origin (M := createSystem { dailyLimit := fun _ => 2 }) s h
       s.count 0 - start.count 0 = (s.rowsToday 0 : Int) - start.rowsToday 0 + s.outstanding 0 ∧
        0 ≤ s.outstanding 0 ∧ 0 ≤ s.count 0 ∧
        ((createSystem { dailyLimit := fun _ => 2 }).Steps (fun s a => CreateSys.PlanRead 0 s a) h →
          0 ≤ (2 : Int) → s.count 0 ≤ max (start.count 0) 2 ∧
          (s.rowsToday 0 : Int) - start.rowsToday 0 ≤ max 0 (2 - start.count 0))) := by
  obtain ⟨s, h, hr, hp⟩ := Machine.Run.of_exec (createSystem { dailyLimit := fun _ => 2 })
    [.begin (mailRequest (some "k") .rest), .begin (mailRequest (some "k") .grpc), .check 0, .check 1,
      .reserve 0 false false, .reserve 1 false false, .insert 0 .committed, .insert 0 .committed,
      .begin (mailRequest none .rest), .check 0, .reserve 0 false false] {}
    (fun x => x.2.all (fun y : CreateSys × CreateLabel => decide (y.1.Quiet (· == 0) y.2)) &&
      x.1.rowsToday 0 == 1 && x.1.outstanding 0 == 1 && x.1.answers.length == 2)
    (init_createSystem 0) (by decide +kernel)
  simp only [Bool.and_eq_true, beq_iff_eq] at hp
  obtain ⟨⟨⟨hq, hrows⟩, hout⟩, hans⟩ := hp
  exact ⟨s, h, hr, hrows, hout, hans, daily_quota_exact hr 0 (CreateSys.steps_quiet hq)⟩

inductive Mishap
  | plan | counter | commit | delivery
deriving DecidableEq

def CreateLabel.mishaps : CreateLabel → List Mishap
  | .reserve _ planFails fails =>
    (if planFails then [.plan] else []) ++ if fails then [.counter] else []
  | .insert _ .lost => [.commit]
  | .settle _ true => [.counter]
  | .record _ true => [.delivery]
  | _ => []

/-- The run begins with counter and rows at 0, and ends at time 0, with no job deleted. -/
def Undisturbed (cfg : CreateConfig) (mishaps : List Mishap) (s : CreateSys)
    (h : List (CreateSys × CreateLabel)) : Prop :=
  let start : CreateSys := Machine.origin (M := createSystem cfg) s h
  (start.count 0 = 0 ∧ start.rowsToday 0 = 0) ∧ s.now = 0 ∧
    h.flatMap (fun y => CreateLabel.mishaps y.2) = mishaps ∧
    (h.all fun y => y.1.Spares (fun _ _ => true) y.2) = true

instance (cfg : CreateConfig) (m : List Mishap) (s : CreateSys) (h : List (CreateSys × CreateLabel)) :
    Decidable (Undisturbed cfg m s h) :=
  inferInstanceAs (Decidable ((_ ∧ _) ∧ _ ∧ _ ∧ _))

/-- Two runs without a deletion, on one day and with working counter statements. In one
the plan of the second request is not read, and it is let in at the limit of 1; in the
other the commit takes effect and reports an error, and the job is not counted. -/
theorem quota_missed :
    (∃ s h, (createSystem { dailyLimit := fun _ => 1 }).Run s h ∧
      Undisturbed { dailyLimit := fun _ => 1 } [.plan] s h ∧
      s.count 0 = 2 ∧ s.rowsToday 0 = 2 ∧ s.outstanding 0 = 0) ∧
    ∃ s h, (createSystem { dailyLimit := fun _ => 1 }).Run s h ∧
      Undisturbed { dailyLimit := fun _ => 1 } [.commit] s h ∧
      s.count 0 = 0 ∧ s.rowsToday 0 = 1 ∧ s.outstanding 0 = 0 := by
  have hrun : ∀ (as : List CreateLabel) (m : List Mishap) (c : Int) (r : Nat),
      (((createSystem { dailyLimit := fun _ => 1 }).exec as ({}, [])).any fun x =>
        decide (Undisturbed { dailyLimit := fun _ => 1 } m x.1 x.2) &&
          x.1.count 0 == c && x.1.rowsToday 0 == r && x.1.outstanding 0 == 0) = true →
      ∃ s h, (createSystem { dailyLimit := fun _ => 1 }).Run s h ∧
        Undisturbed { dailyLimit := fun _ => 1 } m s h ∧
        s.count 0 = c ∧ s.rowsToday 0 = r ∧ s.outstanding 0 = 0 := by
    intro as m c r he
    obtain ⟨s, h, hr, hp⟩ := Machine.Run.of_exec (createSystem { dailyLimit := fun _ => 1 }) as {} _
      (init_createSystem 0) he
    simp only [Bool.and_eq_true, beq_iff_eq, decide_eq_true_eq, and_assoc] at hp
    exact ⟨s, h, hr, hp⟩
  exact ⟨hrun [.begin (mailRequest none .rest), .begin (mailRequest none .rest), .check 0, .check 1,
      .reserve 0 false false, .reserve 1 true false, .insert 0 .committed, .insert 0 .committed]
      _ _ _ (by decide +kernel),
    hrun [.begin (mailRequest none .rest), .check 0, .reserve 0 false false, .insert 0 .lost,
      .settle 0 false] _ _ _ (by decide +kernel)⟩

end Spooled
