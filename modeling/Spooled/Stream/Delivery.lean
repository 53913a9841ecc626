import Mathlib
import Spooled.Job.Settle

/-!
# The `StreamJobs` loop

One stream beside everything else that works on the job store. `run_job_stream`
claims a job only when it holds none: it asks `delivery_still_held` about the
last one until the answer is no. A claimed job waits in a one-slot channel; the
transport takes it, or the message is dropped with the channel and its
destructor spawns `release_unsent_claim`.
-/

namespace Spooled

open List

structure StreamRequest where
  organizationId : OrgId
  queueName : String
  worker : WorkerId
  leaseSecs : Nat

/-- The request of one claim: `skip` are locked rows, `admits` the key's conditions. -/
def StreamRequest.claim (k : StreamRequest) (skip : JobId → Bool) (admits : Job → Bool) :
    ClaimRequest where
  organizationId := k.organizationId
  queueName := k.queueName
  worker := k.worker
  leaseSecs := k.leaseSecs
  skip := skip
  admits := admits

structure StreamClaim where
  job : JobId
  lease : LeaseId
  retryCount : Int
deriving DecidableEq, Repr

/-- Where `run_job_stream` stands. -/
inductive Phase
  | polling
  | reserved
  | oversized (c : StreamClaim)
  /-- `held` is set. -/
  | holding (c : StreamClaim)
  /-- The loop has ended; `c` is what it held. -/
  | ended (c : Option StreamClaim)
deriving DecidableEq, Repr

def Phase.current : Phase → Option StreamClaim
  | .oversized c | .holding c => some c
  | .ended c => c
  | .polling | .reserved => none

def Phase.oversize : Phase → Option StreamClaim
  | .oversized c => some c
  | _ => none

def Phase.waits : Phase → Bool
  | .polling | .holding _ => true
  | .reserved | .oversized _ | .ended _ => false

structure StreamSys where
  sys : Sys := {}
  phase : Phase := .polling
  closed : Bool := false
  slot : Option StreamClaim := none
  /-- Dropped messages whose release is spawned and has not run. -/
  dropped : List StreamClaim := []
  issued : List StreamClaim := []
  delivered : List StreamClaim := []
  /-- Released, or dead-lettered for their size. -/
  undone : List StreamClaim := []
  /-- Found not held any more. -/
  lost : List StreamClaim := []

inductive StreamLabel
  /-- A step of anybody else. -/
  | other (a : Label)
  | check
  | reserve
  | claim (skip : JobId → Bool) (admits : Job → Bool) (fits : Bool)
  /-- The claim transaction is rolled back: the stream is over its rate limit. -/
  | holdBack
  | deadLetter (reason : String)
  | deliver
  | disconnect
  | stop
  | release (n : Nat)

/-- `delivery_still_held`. -/
def Db.deliveryStillHeld (db : Db) (now : Time) (org : OrgId) (i : JobId) (lease : LeaseId) : Bool :=
  (db.job i).any fun j => j.organizationId == org && j.leaseId == some lease &&
    j.status == .processing && j.leaseLive now

def Sys.claimTarget (s : Sys) (q : ClaimRequest) : Option Job :=
  let free := !s.db.paused q.organizationId q.queueName
  (s.db.selectForClaim (fun j => q.eligible s.now j && free) 1).head?.bind s.db.job

namespace StreamSys

def next (cfg : Config) (k : StreamRequest) (s : StreamSys) : StreamLabel → Option StreamSys
  | .other a => (s.sys.next cfg a).map fun t => { s with sys := t }
  | .check => match s.phase with
    | .holding c =>
      if s.sys.db.deliveryStillHeld s.sys.now k.organizationId c.job c.lease then some s
      else some { s with phase := .polling, lost := c :: s.lost }
    | _ => none
  | .reserve =>
    if s.phase = .polling ∧ s.slot = none ∧ s.closed = false then
      some { s with phase := .reserved } else none
  | .claim skip admits fits =>
    if s.phase = .reserved then
      let q := k.claim skip admits
      let t := s.sys.run cfg (.claimJob s.sys.uuid q)
      match s.sys.claimTarget q with
      | none => some { s with sys := t, phase := .polling }
      | some j =>
        let c := ⟨j.id, .single s.sys.uuid, j.retryCount⟩
        if fits then
          some { s with sys := t, phase := .holding c, slot := some c, issued := c :: s.issued }
        else some { s with sys := t, phase := .oversized c, issued := c :: s.issued }
    else none
  | .holdBack => if s.phase = .reserved then some { s with phase := .polling } else none
  | .deadLetter reason => match s.phase with
    | .oversized c => some { s with
        sys := s.sys.run cfg (.deadLetterOversized c.job k.organizationId c.lease reason)
        phase := .polling
        undone := c :: s.undone }
    | _ => none
  | .deliver => match s.slot with
    | some c => if s.closed then none
      else some { s with slot := none, delivered := c :: s.delivered }
    | none => none
  | .disconnect =>
    -- the receiver goes, and the message with it
    if s.closed then none
    else some { s with closed := true, slot := none, dropped := s.slot.toList ++ s.dropped }
  | .stop => match s.phase with
    | .oversized _ | .ended _ => none
    | .reserved =>
      -- the key was revoked, or the client is gone
      some { s with phase := .ended none }
    | p =>
      -- a message sent after the client had gone is dropped with the sender
      if s.closed then some { s with
        phase := .ended p.current, slot := none, dropped := s.slot.toList ++ s.dropped }
      else none
  | .release n => match s.dropped[n]? with
    | some c => some { s with
        sys := s.sys.run cfg (.releaseUnsentClaim c.job k.organizationId c.lease)
        dropped := s.dropped.eraseIdx n
        undone := c :: s.undone }
    | none => none

end StreamSys

/-- A stream opened in any reachable state of the job store. -/
def streamSystem (cfg : Config) (k : StreamRequest) : Machine where
  State := StreamSys
  Label := StreamLabel
  Init s := (∃ h, (system cfg).Run s.sys h) ∧ s = { sys := s.sys }
  next := StreamSys.next cfg k

/-! ## What a step of the store leaves of older claims -/

theorem Job.Moves.scheduledAt {now : Time} {j j' : Job} (h : j.Moves now j') :
    j'.scheduledAt = j.scheduledAt := by
  induction h with
  | refl => rfl
  | tail _ hm ih => rw [← ih]; cases hm <;> rfl

structure Sys.Follows (s t : Sys) : Prop where
  uuid : s.uuid ≤ t.uuid
  now : s.now ≤ t.now
  row : ∀ i j' lease, t.db.job i = some j' → j'.status = .processing → j'.leaseId = some lease →
    lease.uuid < s.uuid → ∃ j, s.db.job i = some j ∧ j.Moves s.now j'
  fresh : (∀ i lease, s.db.Holds i lease → lease.uuid < s.uuid) →
    ∀ i lease, t.db.Holds i lease → lease.uuid < t.uuid

section Follows

variable {cfg : Config} {s t : Sys} {a : Label} {c : Stmt}

theorem Sys.follows_of_db (hdb : t.db = s.db) (hnow : s.now ≤ t.now) (hu : s.uuid ≤ t.uuid) :
    s.Follows t := by
  refine ⟨hu, hnow, fun i j lease hj _ _ _ => ⟨j, ?_, .refl⟩, fun hfresh i lease h => ?_⟩
  · rw [← hdb]
    exact hj
  · rw [hdb] at h
    have := hfresh i lease h
    omega

theorem Sys.follows_of_exec (hdb : t.db = c.exec cfg s.now s.db) (hnow : t.now = s.now)
    (hu : t.uuid = s.uuid + c.idCount)
    (hiss : ∀ i lease, c.issues s.now s.db i = some lease → lease.uuid = s.uuid ∧ c.idCount = 1) :
    s.Follows t := by
  refine ⟨by omega, le_of_eq hnow.symm, fun i j' lease hj' hs hl hlt => ?_, fun hfresh i lease h => ?_⟩
  · rw [hdb] at hj'
    refine Db.exec_goesOn hj' hs ?_
    -- a lease issued by the statement has the next uuid
    rcases Db.exec_processing hj' hs with ⟨hi, -⟩ | ⟨hi, -⟩
    · have := (hiss i lease (hi.trans hl)).1
      omega
    · exact hi
  · rw [hdb] at h
    rcases Db.holds_exec h with hi | ⟨-, hold⟩
    · obtain ⟨h₁, h₂⟩ := hiss i lease hi
      omega
    · have := hfresh i lease hold
      omega

theorem Sys.follows_run (cfg : Config) (s : Sys) (c : Stmt)
    (hiss : ∀ i lease, c.issues s.now s.db i = some lease → lease.uuid = s.uuid ∧ c.idCount = 1) :
    s.Follows (s.run cfg c) :=
  Sys.follows_of_exec (show _ = c.exec cfg s.now s.db from rfl) rfl rfl hiss

theorem Sys.follows_of_next (hn : s.next cfg a = some t) : s.Follows t := by
  cases Sys.step_of_next hn with
  | stmt c k _ hacts _ hdb hnow hu =>
    exact Sys.follows_of_exec hdb hnow hu fun i lease => hacts.issues
  | idle _ _ hdb hnow hu => exact Sys.follows_of_db hdb hnow (le_of_eq hu.symm)

theorem Sys.Follows.leaseLive (F : s.Follows t) {i : JobId} {j' : Job} {lease : LeaseId}
    (hj' : t.db.job i = some j') (hs : j'.status = .processing) (hl : j'.leaseId = some lease)
    (hlt : lease.uuid < s.uuid) (hlive : j'.leaseLive t.now = true) :
    ∃ j, s.db.job i = some j ∧ j.status = .processing ∧ j.leaseId = some lease ∧
      j.leaseLive s.now = true := by
  obtain ⟨j, hj, hm⟩ := F.row i j' lease hj' hs hl hlt
  have hsame := hm.sameClaim hs
  exact ⟨j, hj, hsame.processing, hsame.leaseId.symm.trans hl, hm.leaseLive F.now hlive⟩

end Follows

/-! ## The statements that undo a claim -/

section Undo

variable {db : Db} {now : Time} {i : JobId} {j : Job} {org : OrgId} {lease : LeaseId}

theorem Db.exec_releaseUnsentClaim (cfg : Config) (hj : db.job i = some j)
    (hu : Db.claimedUnder i org lease j = true) :
    ((Stmt.releaseUnsentClaim i org lease).exec cfg now db).job i =
      some (j.written now fun j => Db.clearLease { j with status := .pending }) := by
  show (db.setStatus now (claimedUnder i org lease) _).job i = _
  rw [Db.job_setStatus (fun _ _ _ h => by cases h), hj, Option.map_some, if_pos hu]

theorem Db.exec_deadLetterOversized (cfg : Config) (reason : String) (hj : db.job i = some j)
    (hu : Db.claimedUnder i org lease j = true) :
    ∃ error, ((Stmt.deadLetterOversized i org lease reason).exec cfg now db).job i =
      some (j.written now (Db.deadletterRow error)) := by
  have hrow := (Stmt.deadLetterOversized i org lease reason).exec_rowStep cfg now db i
  have hno : ¬ (Stmt.deadLetterOversized i org lease reason).Spares now db j := by
    intro hc
    have := hc.deadletters
    rw [Stmt.deadletters, hu] at this
    cases this
  rw [hj] at hrow
  generalize ((Stmt.deadLetterOversized i org lease reason).exec cfg now db).job i = o at hrow
  cases hrow with
  | deleted _ hc | moved hc | ended hc => exact absurd hc hno
  | claimed _ _ _ _ _ hi => cases hi
  | deadlettered error => exact ⟨error, rfl⟩
  | failed _ _ _ _ _ he => cases he
  | unsent _ _ _ he => cases he
  | revived _ _ _ he => cases he

end Undo

/-! ## The steps of a stream -/

namespace StreamSys

/-- What `next` does, label by label. -/
inductive Step (cfg : Config) (k : StreamRequest) (s : StreamSys) : StreamLabel → StreamSys → Prop
  | other (a : Label) (t : Sys) : s.sys.next cfg a = some t → Step cfg k s (.other a) { s with sys := t }
  | held (c : StreamClaim) : s.phase = .holding c → Step cfg k s .check s
  | lost (c : StreamClaim) : s.phase = .holding c →
      s.sys.db.deliveryStillHeld s.sys.now k.organizationId c.job c.lease = false →
      Step cfg k s .check { s with phase := .polling, lost := c :: s.lost }
  | reserve : s.phase = .polling → s.slot = none →
      Step cfg k s .reserve { s with phase := .reserved }
  | nothing (skip : JobId → Bool) (admits : Job → Bool) (fits : Bool) : s.phase = .reserved →
      Step cfg k s (.claim skip admits fits)
        { s with sys := s.sys.run cfg (.claimJob s.sys.uuid (k.claim skip admits)), phase := .polling }
  | claimed (skip : JobId → Bool) (admits : Job → Bool) (j : Job) (c : StreamClaim) :
      s.phase = .reserved → s.sys.claimTarget (k.claim skip admits) = some j →
      c = ⟨j.id, .single s.sys.uuid, j.retryCount⟩ →
      Step cfg k s (.claim skip admits true) { s with
        sys := s.sys.run cfg (.claimJob s.sys.uuid (k.claim skip admits))
        phase := .holding c
        slot := some c
        issued := c :: s.issued }
  | tooLarge (skip : JobId → Bool) (admits : Job → Bool) (j : Job) (c : StreamClaim) :
      s.phase = .reserved → s.sys.claimTarget (k.claim skip admits) = some j →
      c = ⟨j.id, .single s.sys.uuid, j.retryCount⟩ →
      Step cfg k s (.claim skip admits false) { s with
        sys := s.sys.run cfg (.claimJob s.sys.uuid (k.claim skip admits))
        phase := .oversized c
        issued := c :: s.issued }
  | holdBack : s.phase = .reserved → Step cfg k s .holdBack { s with phase := .polling }
  | deadLetter (c : StreamClaim) (reason : String) : s.phase = .oversized c →
      Step cfg k s (.deadLetter reason) { s with
        sys := s.sys.run cfg (.deadLetterOversized c.job k.organizationId c.lease reason)
        phase := .polling
        undone := c :: s.undone }
  | deliver (c : StreamClaim) : s.slot = some c →
      Step cfg k s .deliver { s with slot := none, delivered := c :: s.delivered }
  | disconnect : Step cfg k s .disconnect
      { s with closed := true, slot := none, dropped := s.slot.toList ++ s.dropped }
  | revoked : s.phase = .reserved → Step cfg k s .stop { s with phase := .ended none }
  | stop : s.phase.oversize = none → Step cfg k s .stop
      { s with phase := .ended s.phase.current, slot := none, dropped := s.slot.toList ++ s.dropped }
  | release (n : Nat) (c : StreamClaim) : s.dropped[n]? = some c →
      Step cfg k s (.release n) { s with
        sys := s.sys.run cfg (.releaseUnsentClaim c.job k.organizationId c.lease)
        dropped := s.dropped.eraseIdx n
        undone := c :: s.undone }

variable {cfg : Config} {k : StreamRequest} {s t : StreamSys} {a : StreamLabel}

theorem step_of_next (h : s.next cfg k a = some t) : Step cfg k s a t := by
  cases a <;> simp only [next] at h
  case other a =>
    obtain ⟨u, hu, rfl⟩ := Option.map_eq_some_iff.1 h
    exact .other a u hu
  case check =>
    split at h
    · next c hc =>
      split at h <;> obtain rfl := Option.some.inj h
      · exact .held c hc
      · next hno => exact .lost c hc (Bool.eq_false_iff.2 hno)
    · cases h
  case reserve =>
    split at h <;> cases h
    next hc => exact .reserve hc.1 hc.2.1
  case claim skip admits fits =>
    split at h
    · next hp =>
      split at h
      · obtain rfl := Option.some.inj h
        exact .nothing skip admits fits hp
      · next j hj =>
        cases fits <;> obtain rfl := Option.some.inj h
        · exact .tooLarge skip admits j _ hp hj rfl
        · exact .claimed skip admits j _ hp hj rfl
    · cases h
  case holdBack =>
    split at h <;> cases h
    next hp => exact .holdBack hp
  case deadLetter reason =>
    split at h <;> cases h
    next c hp => exact .deadLetter c reason hp
  case deliver =>
    split at h
    · next c hc =>
      split at h <;> cases h
      exact .deliver c hc
    · cases h
  case disconnect =>
    split at h <;> cases h
    exact .disconnect
  case stop =>
    split at h
    · cases h
    · cases h
    · next hp =>
      obtain rfl := Option.some.inj h
      exact .revoked hp
    · next p hover hend hres =>
      split at h <;> cases h
      refine .stop ?_
      unfold Phase.oversize
      split
      · next c hc => exact absurd hc (hover c)
      · rfl
  case release n =>
    split at h <;> cases h
    next c hc => exact .release n c hc

end StreamSys

/-! ## Where the messages are -/

namespace StreamSys

def inFlight (s : StreamSys) : List StreamClaim :=
  s.phase.oversize.toList ++ s.slot.toList ++ s.dropped

/-- Every claim is delivered, undone or in flight, and one of these only. -/
structure ChannelOk (s : StreamSys) : Prop where
  empty : s.phase.waits = false → s.slot = none
  current : ∀ c, s.phase.current = some c → c ∈ s.issued
  flow : s.issued.Perm (s.delivered ++ s.undone ++ s.inFlight)

variable {cfg : Config} {k : StreamRequest} {s t : StreamSys} {a : StreamLabel}

theorem ChannelOk.step (I : s.ChannelOk) (h : Step cfg k s a t) : t.ChannelOk := by
  have hflow := perm_iff_count.1 I.flow
  simp only [inFlight, count_append] at hflow
  cases h with
  | other a u hu => exact ⟨I.empty, I.current, I.flow⟩
  | held c hc => exact I
  | lost c hc =>
    refine ⟨nofun, nofun, ?_⟩
    have := I.flow
    rwa [inFlight, hc] at this
  | reserve hp hslot =>
    refine ⟨fun _ => hslot, nofun, ?_⟩
    have := I.flow
    rwa [inFlight, hp] at this
  | nothing skip admits fits hp | holdBack hp =>
    refine ⟨nofun, nofun, ?_⟩
    have := I.flow
    rwa [inFlight, hp] at this
  | revoked hp =>
    refine ⟨fun _ => I.empty (by rw [hp]; rfl), nofun, ?_⟩
    have := I.flow
    rwa [inFlight, hp] at this
  | claimed skip admits j c hp =>
    refine ⟨nofun, ?_, perm_iff_count.2 fun x => ?_⟩
    · rintro c' ⟨⟩
      exact mem_cons_self
    · have hx := hflow x
      rw [I.empty (by rw [hp]; rfl), hp] at hx
      simp only [Phase.oversize, Option.toList_none, count_nil] at hx
      simp only [inFlight, Phase.oversize, count_append, count_cons, Option.toList_none,
        Option.toList_some, count_nil]
      omega
  | tooLarge skip admits j c hp =>
    refine ⟨fun _ => I.empty (by rw [hp]; rfl), ?_, perm_iff_count.2 fun x => ?_⟩
    · rintro c' ⟨⟩
      exact mem_cons_self
    · have hx := hflow x
      rw [hp] at hx
      simp only [Phase.oversize, Option.toList_none, count_nil] at hx
      simp only [inFlight, Phase.oversize, count_append, count_cons, Option.toList_some,
        count_nil]
      omega
  | deadLetter c reason hp =>
    refine ⟨nofun, nofun, perm_iff_count.2 fun x => ?_⟩
    have hx := hflow x
    rw [hp] at hx
    simp only [Phase.oversize, Option.toList_some, count_cons, count_nil] at hx
    simp only [inFlight, Phase.oversize, count_append, count_cons, Option.toList_none,
      count_nil]
    omega
  | deliver c hc =>
    refine ⟨fun _ => rfl, I.current, perm_iff_count.2 fun x => ?_⟩
    have hx := hflow x
    rw [hc] at hx
    simp only [Option.toList_some, count_cons, count_nil] at hx
    simp only [inFlight, count_append, count_cons, Option.toList_none, count_nil]
    omega
  | disconnect =>
    refine ⟨fun _ => rfl, I.current, perm_iff_count.2 fun x => ?_⟩
    have hx := hflow x
    simp only [inFlight, count_append, Option.toList_none, count_nil]
    omega
  | stop hp =>
    refine ⟨fun _ => rfl, I.current, perm_iff_count.2 fun x => ?_⟩
    have hx := hflow x
    rw [hp] at hx
    simp only [Option.toList_none, count_nil] at hx
    simp only [inFlight, Phase.oversize, count_append, Option.toList_none, count_nil]
    omega
  | release n c hc =>
    refine ⟨I.empty, I.current, perm_iff_count.2 fun x => ?_⟩
    have hx := hflow x
    obtain ⟨hn, rfl⟩ := List.getElem?_eq_some_iff.1 hc
    have hd := (getElem_cons_eraseIdx_perm hn).count_eq x
    simp only [count_cons] at hd
    simp only [inFlight, count_append, count_cons]
    omega

end StreamSys

/-! ## What the claims of a stream come to -/

namespace StreamSys

/-- The job of `c` is processing under its lease, which has not run out. -/
def Live (s : StreamSys) (c : StreamClaim) : Prop :=
  ∃ j, s.sys.db.job c.job = some j ∧ j.status = .processing ∧ j.leaseId = some c.lease ∧
    j.leaseLive s.sys.now = true

structure ClaimsOk (k : StreamRequest) (s : StreamSys) : Prop where
  fresh : ∀ i lease, s.sys.db.Holds i lease → lease.uuid < s.sys.uuid
  older : ∀ c ∈ s.issued, c.lease.uuid < s.sys.uuid
  distinct : (s.issued.map StreamClaim.lease).Nodup
  foreign : ∀ lease ∈ s.sys.buffered, lease.uuid < s.sys.uuid ∧ ∀ c ∈ s.issued, c.lease ≠ lease
  row : ∀ c ∈ s.issued, ∀ j, s.sys.db.job c.job = some j → j.status = .processing →
    j.leaseId = some c.lease → j.retryCount = c.retryCount ∧ j.organizationId = k.organizationId ∧
      j.due s.sys.now = true
  one : ∀ c ∈ s.issued, s.Live c → s.phase.current = some c
  lost : ∀ c ∈ s.lost, c ∈ s.issued ∧ ¬ s.Live c

variable {cfg : Config} {k : StreamRequest} {s t : StreamSys} {a : StreamLabel} {u : Sys}
  {c : StreamClaim}

theorem Live.of_follows (F : s.sys.Follows u) (hlt : c.lease.uuid < s.sys.uuid)
    (h : Live { s with sys := u } c) : s.Live c := by
  obtain ⟨j, hj, hs, hl, hlive⟩ := h
  exact F.leaseLive hj hs hl hlt hlive

theorem ClaimsOk.follow (I : ClaimsOk k s) (F : s.sys.Follows u)
    (hb : ∀ lease ∈ u.buffered, lease ∈ s.sys.buffered ∨ lease.uuid = s.sys.uuid ∧ s.sys.uuid < u.uuid) :
    ClaimsOk k { s with sys := u } where
  fresh := F.fresh I.fresh
  older c hc := lt_of_lt_of_le (I.older c hc) F.uuid
  distinct := I.distinct
  foreign lease hl := by
    rcases hb lease hl with h | ⟨h, hlt⟩
    · exact ⟨lt_of_lt_of_le (I.foreign lease h).1 F.uuid, (I.foreign lease h).2⟩
    · refine ⟨(le_of_eq h).trans_lt hlt, fun c hc he => ?_⟩
      have := I.older c hc
      rw [he] at this
      omega
  row c hc j' hj' hs hl := by
    obtain ⟨j, hj, hm⟩ := F.row c.job j' c.lease hj' hs hl (I.older c hc)
    have hsame := hm.sameClaim hs
    obtain ⟨h₁, h₂, h₃⟩ := I.row c hc j hj hsame.processing (hsame.leaseId.symm.trans hl)
    refine ⟨hsame.retryCount.trans h₁, hm.sameJob.organizationId.trans h₂, ?_⟩
    simp only [Job.due, Option.all_eq_true, decide_eq_true_eq, hm.scheduledAt] at h₃ ⊢
    exact fun x hx => le_trans (h₃ x hx) F.now
  one c hc h := I.one c hc (h.of_follows F (I.older c hc))
  lost c hc := ⟨(I.lost c hc).1, fun h => (I.lost c hc).2
    (h.of_follows F (I.older c (I.lost c hc).1))⟩

theorem ClaimsOk.of_current (I : ClaimsOk k s) (hsys : t.sys = s.sys) (hissued : t.issued = s.issued)
    (hlost : ∀ c ∈ t.lost, c ∈ s.issued ∧ ¬ s.Live c)
    (hone : ∀ c ∈ s.issued, s.Live c → t.phase.current = some c) : ClaimsOk k t := by
  have hlive : ∀ c, t.Live c = s.Live c := fun c => by rw [Live, Live, hsys]
  refine ⟨?_, ?_, ?_, ?_, ?_, ?_, ?_⟩ <;> simp only [hsys, hissued, hlive]
  · exact I.fresh
  · exact I.older
  · exact I.distinct
  · exact I.foreign
  · exact I.row
  · exact hone
  · exact hlost

theorem ClaimsOk.run (I : ClaimsOk k s) (cfg : Config) (st : Stmt) (hiss : ∀ i lease,
    st.issues s.sys.now s.sys.db i = some lease → lease.uuid = s.sys.uuid ∧ st.idCount = 1) :
    ClaimsOk k { s with sys := s.sys.run cfg st } :=
  I.follow (Sys.follows_run cfg s.sys st hiss) fun _ h => .inl h

theorem claimTarget_row {q : ClaimRequest} {j : Job} (cfg : Config)
    (h : u.claimTarget q = some j) : u.db.job j.id = some j ∧ q.eligible u.now j = true ∧
      ∃ worker len started, (u.run cfg (.claimJob u.uuid q)).db.job j.id =
        some (j.written u.now (Db.claimRow u.now worker (.single u.uuid) len started)) := by
  obtain ⟨i, hi, hj⟩ := Option.bind_eq_some_iff.1 h
  obtain rfl := Db.job_id hj
  have hmem := mem_of_mem_head? hi
  have hel := Db.of_mem_selectForClaim hj hmem
  rw [Bool.and_eq_true] at hel
  refine ⟨hj, hel.1, Db.exec_issued cfg hj ?_⟩
  rw [Stmt.issues]
  exact if_pos hmem

theorem ClaimsOk.claim (I : ClaimsOk k s) {skip : JobId → Bool} {admits : Job → Bool} {j : Job}
    (hp : s.phase = .reserved) (hj : s.sys.claimTarget (k.claim skip admits) = some j)
    (hc : c = ⟨j.id, .single s.sys.uuid, j.retryCount⟩) {p : Phase} (hcur : p.current = some c)
    {slot : Option StreamClaim} :
    ClaimsOk k { s with
      sys := s.sys.run cfg (.claimJob s.sys.uuid (k.claim skip admits))
      phase := p
      slot := slot
      issued := c :: s.issued } := by
  obtain ⟨-, hel, worker, len, started, hrow⟩ := claimTarget_row cfg hj
  have J := I.run cfg _ fun i lease => (Sys.Acts.claimJob (s := s.sys) (k.claim skip admits)).issues
  have hlease : c.lease = .single s.sys.uuid := by rw [hc]
  have hnew : ∀ c' ∈ s.issued, c'.lease ≠ c.lease := by
    intro c' hc' he
    have := I.older c' hc'
    rw [he, hlease] at this
    exact lt_irrefl _ this
  refine ⟨J.fresh, ?_, ?_, ?_, ?_, ?_, ?_⟩
  · intro c' hc'
    rcases mem_cons.1 hc' with rfl | hc'
    · rw [hlease]
      exact Nat.lt_succ_self _
    · exact J.older c' hc'
  · refine nodup_cons.2 ⟨fun hmem => ?_, I.distinct⟩
    obtain ⟨c', hc', he⟩ := mem_map.1 hmem
    exact hnew c' hc' he
  · intro lease hl
    refine ⟨(J.foreign lease hl).1, fun c' hc' => ?_⟩
    rcases mem_cons.1 hc' with rfl | hc'
    · rintro rfl
      have := (I.foreign _ hl).1
      rw [hlease] at this
      exact lt_irrefl _ this
    · exact (J.foreign lease hl).2 c' hc'
  · intro c' hc' j' hj' hs hl
    rcases mem_cons.1 hc' with rfl | hc'
    · rw [hc] at hj'
      obtain rfl := Option.some.inj (hrow.symm.trans hj')
      simp only [ClaimRequest.eligible, Job.claimable, Bool.and_eq_true, beq_iff_eq] at hel
      obtain ⟨⟨⟨⟨horg, -⟩, ⟨⟨-, hdue⟩, -⟩, -⟩, -⟩, -⟩ := hel
      rw [hc]
      exact ⟨rfl, horg, hdue⟩
    · exact J.row c' hc' j' hj' hs hl
  · intro c' hc' hlive
    rcases mem_cons.1 hc' with rfl | hc'
    · exact hcur
    · -- an older claim is not live: the loop had found it lost
      have hcurrent : s.phase.current = some c' := J.one c' hc' hlive
      rw [hp] at hcurrent
      cases hcurrent
  · intro c' hc'
    exact ⟨mem_cons_of_mem _ (J.lost c' hc').1, (J.lost c' hc').2⟩

theorem ClaimsOk.claimedUnder (I : ClaimsOk k s) (hc : c ∈ s.issued) {j : Job}
    (hj : s.sys.db.job c.job = some j) (hs : j.status = .processing)
    (hl : j.leaseId = some c.lease) : Db.claimedUnder c.job k.organizationId c.lease j = true := by
  obtain ⟨-, horg, -⟩ := I.row c hc j hj hs hl
  simp [Db.claimedUnder, Db.job_id hj, horg, hl, hs]

theorem ClaimsOk.not_live_deadLetter (I : ClaimsOk k s) (hc : c ∈ s.issued) (reason : String) :
    ¬ Live { s with sys :=
      (s.sys.run cfg (.deadLetterOversized c.job k.organizationId c.lease reason)) } c := by
  rintro ⟨j', hj', hs, hl, -⟩
  have F := Sys.follows_run cfg s.sys (.deadLetterOversized c.job k.organizationId c.lease reason)
    nofun
  obtain ⟨j, hj, hm⟩ := F.row c.job j' c.lease hj' hs hl (I.older c hc)
  have hsame := hm.sameClaim hs
  have hunder := I.claimedUnder hc hj hsame.processing (hsame.leaseId.symm.trans hl)
  obtain ⟨error, hrow⟩ := Db.exec_deadLetterOversized cfg reason hj hunder
  rw [show (s.sys.run cfg _).db.job c.job = _ from hrow] at hj'
  obtain rfl := Option.some.inj hj'
  cases hs

theorem ClaimsOk.step (I : ClaimsOk k s) (hcur : ∀ c, s.phase.current = some c → c ∈ s.issued)
    (h : Step cfg k s a t) : ClaimsOk k t := by
  cases h with
  | other a u hu =>
    refine I.follow (Sys.follows_of_next hu) fun lease hl => ?_
    rcases Sys.buffered_step hu with hsub | ⟨heq, hlt⟩
    · exact .inl (hsub.subset hl)
    · rw [heq] at hl
      rcases mem_cons.1 hl with rfl | hl
      · exact .inr ⟨rfl, hlt⟩
      · exact .inl hl
  | held c hc => exact I
  | lost c hc hno =>
    have hmem := hcur c (by rw [hc]; rfl)
    have hdead : ¬ s.Live c := by
      rintro ⟨j, hj, hs, hl, hlive⟩
      obtain ⟨-, horg, -⟩ := I.row c hmem j hj hs hl
      simp [Db.deliveryStillHeld, hj, horg, hl, hs, hlive] at hno
    refine I.of_current rfl rfl ?_ ?_
    · intro c' hc'
      rcases mem_cons.1 hc' with rfl | hc'
      · exact ⟨hmem, hdead⟩
      · exact I.lost c' hc'
    · intro c' hc' hlive
      have := I.one c' hc' hlive
      rw [hc] at this
      cases this
      exact absurd hlive hdead
  | reserve hp | holdBack hp | revoked hp =>
    refine I.of_current rfl rfl I.lost fun c' hc' hlive => ?_
    have := I.one c' hc' hlive
    rw [hp] at this
    cases this
  | nothing skip admits fits hp =>
    have J := I.run cfg _
      fun i lease => (Sys.Acts.claimJob (s := s.sys) (k.claim skip admits)).issues
    refine J.of_current rfl rfl J.lost fun c' hc' hlive => ?_
    have hcurrent : s.phase.current = some c' := J.one c' hc' hlive
    rw [hp] at hcurrent
    cases hcurrent
  | claimed skip admits j c hp hj hc | tooLarge skip admits j c hp hj hc =>
    exact I.claim hp hj hc rfl
  | deadLetter c reason hp =>
    have J := I.run cfg (.deadLetterOversized c.job k.organizationId c.lease reason) nofun
    refine J.of_current rfl rfl J.lost fun c' hc' hlive => ?_
    have hcurrent : s.phase.current = some c' := J.one c' hc' hlive
    rw [hp] at hcurrent
    cases hcurrent
    exact absurd hlive (I.not_live_deadLetter hc' reason)
  | deliver | disconnect | stop => exact I.of_current rfl rfl I.lost I.one
  | release n c hc =>
    have J := I.run cfg (.releaseUnsentClaim c.job k.organizationId c.lease) nofun
    exact J.of_current rfl rfl J.lost J.one

end StreamSys

/-! ## Claims that end by themselves -/

namespace StreamSys

/-- The claim `c` ends in a step other than by the stream undoing it: its lease has
run out, it is settled, or its job is deleted. -/
def Loses (cfg : Config) (k : StreamRequest) (s : StreamSys) (a : StreamLabel) (c : StreamClaim) :
    Prop :=
  ∃ j, s.sys.db.job c.job = some j ∧ j.status = .processing ∧ j.leaseId = some c.lease ∧
    (j.leaseOver s.sys.now = true ∨
      (∃ b, a = .other b ∧ s.sys.settles b = some c.lease) ∨
      ∃ t, s.next cfg k a = some t ∧ t.sys.db.job c.job = none)

variable {cfg : Config} {k : StreamRequest} {s t : StreamSys} {a : StreamLabel} {c : StreamClaim}

theorem loses_of_exec (st : Stmt) (hn : s.next cfg k a = some t)
    (hdb : t.sys.db = st.exec cfg s.sys.now s.sys.db)
    (hset : ∀ q, st.settling = some q → q.leaseId = some c.lease →
      s.sys.db.jobs.rows.any (·.heldBy s.sys.now q) = true →
      ∃ b, a = .other b ∧ s.sys.settles b = some c.lease)
    (hold : s.sys.db.Holds c.job c.lease) :
    t.sys.db.Holds c.job c.lease ∨ s.Loses cfg k a c ∨
      (∃ org, st = .releaseUnsentClaim c.job org c.lease) ∨
      ∃ org reason, st = .deadLetterOversized c.job org c.lease reason := by
  by_cases hno : t.sys.db.Holds c.job c.lease
  · exact .inl hno
  right
  obtain ⟨j, hj, hs, hl⟩ := hold
  rw [hdb] at hno
  rcases Stmt.ends_cases hj hs hl hno with hgone | ⟨q, hq, hh⟩ | hover | hrel | hdl
  · exact .inl ⟨j, hj, hs, hl, .inr (.inr ⟨t, hn, by rw [hdb]; exact hgone⟩)⟩
  · have hlease : q.leaseId = some c.lease := by
      simp only [Job.heldBy, Bool.and_eq_true, beq_iff_eq] at hh
      rw [← hl, hh.1.2.2]
    have hany : s.sys.db.jobs.rows.any (·.heldBy s.sys.now q) = true :=
      any_eq_true.2 ⟨j, Db.job_mem hj, hh⟩
    exact .inl ⟨j, hj, hs, hl, .inr (.inl (hset q hq hlease hany))⟩
  · exact .inl ⟨j, hj, hs, hl, .inl hover⟩
  · exact .inr (.inl hrel)
  · exact .inr (.inr hdl)

/-- **A held claim stays held, is lost, or is undone by the stream.** -/
theorem ClaimsOk.kept (I : ClaimsOk k s) (hcur : ∀ c, s.phase.current = some c → c ∈ s.issued)
    (hdrop : ∀ c ∈ s.dropped, c ∈ s.issued) (hn : s.next cfg k a = some t) (hc : c ∈ s.issued)
    (hold : s.sys.db.Holds c.job c.lease) :
    t.sys.db.Holds c.job c.lease ∨ s.Loses cfg k a c ∨ c ∈ t.undone := by
  cases step_of_next hn with
  | other b u hu =>
    cases Sys.step_of_next hu with
    | idle _ _ hdb => exact .inl (by rw [hdb]; exact hold)
    | stmt st f hact hacts _ hdb =>
      have hset : ∀ q, st.settling = some q → q.leaseId = some c.lease →
          s.sys.db.jobs.rows.any (·.heldBy s.sys.now q) = true →
          ∃ b', StreamLabel.other b = .other b' ∧ s.sys.settles b' = some c.lease := by
        intro q hq hlease hany
        refine ⟨b, rfl, ?_⟩
        rw [Sys.settles, hact]
        show (st.settling.bind _) = _
        rw [hq, Option.bind_some, if_pos hany, hlease]
      rcases loses_of_exec st hn hdb hset hold with h | h | ⟨org, rfl⟩ | ⟨org, reason, rfl⟩
      · exact .inl h
      · exact .inr (.inl h)
      · cases hacts with
        | stmt _ hd => cases hd
        | releaseUnsent n i _ lease hp =>
          exact absurd rfl
            ((I.foreign _ (Sys.mem_buffered.2 ⟨_, _, mem_of_getElem? hp⟩)).2 c hc)
      · cases hacts with
        | stmt _ hd => cases hd
        | oversized n i _ lease _ hp =>
          exact absurd rfl
            ((I.foreign _ (Sys.mem_buffered.2 ⟨_, _, mem_of_getElem? hp⟩)).2 c hc)
  | nothing skip admits | claimed skip admits | tooLarge skip admits =>
    rcases loses_of_exec (.claimJob s.sys.uuid (k.claim skip admits)) hn rfl nofun hold with
      h | h | ⟨org, he⟩ | ⟨org, reason, he⟩
    · exact .inl h
    · exact .inr (.inl h)
    · cases he
    · cases he
  | deadLetter c' reason hp =>
    rcases loses_of_exec (.deadLetterOversized c'.job k.organizationId c'.lease reason) hn rfl nofun
      hold with h | h | ⟨org, he⟩ | ⟨org, reason, he⟩
    · exact .inl h
    · exact .inr (.inl h)
    · cases he
    · have hlease : c'.lease = c.lease := (Stmt.deadLetterOversized.inj he).2.2.1
      obtain rfl := inj_on_of_nodup_map I.distinct (hcur c' (by rw [hp]; rfl)) hc hlease
      exact .inr (.inr mem_cons_self)
  | release n c' hc' =>
    rcases loses_of_exec (.releaseUnsentClaim c'.job k.organizationId c'.lease) hn rfl nofun
      hold with h | h | ⟨org, he⟩ | ⟨org, reason, he⟩
    · exact .inl h
    · exact .inr (.inl h)
    · have hlease : c'.lease = c.lease := (Stmt.releaseUnsentClaim.inj he).2.2
      obtain rfl := inj_on_of_nodup_map I.distinct (hdrop c' (mem_of_getElem? hc')) hc hlease
      exact .inr (.inr mem_cons_self)
    · cases he
  | held | lost | reserve | holdBack | deliver | disconnect | revoked | stop => exact .inl hold

structure Invariant (cfg : Config) (k : StreamRequest) (s : StreamSys)
    (h : List (StreamSys × StreamLabel)) : Prop where
  channel : s.ChannelOk
  claims : s.ClaimsOk k
  kept : ∀ c ∈ s.issued, c ∉ s.undone →
    s.sys.db.Holds c.job c.lease ∨ ∃ x ∈ h, x.1.Loses cfg k x.2 c

end StreamSys

theorem buffered_lt_uuid {cfg : Config} {s : Sys} {h : List (Sys × Label)}
    (hr : (system cfg).Run s h) : ∀ lease ∈ s.buffered, lease.uuid < s.uuid := by
  refine hr.state_invariant (M := system cfg)
    (I := fun s : Sys => ∀ lease ∈ s.buffered, lease.uuid < s.uuid) ?_ ?_
  · rintro s ⟨-, hp⟩
    simp [Sys.buffered, hp]
  · intro s a s' I hn lease hl
    have hmono := Sys.uuid_mono hn
    rcases Sys.buffered_step hn with hsub | ⟨heq, hlt⟩
    · have := I lease (hsub.subset hl)
      omega
    · rw [heq] at hl
      rcases mem_cons.1 hl with rfl | hl
      · exact hlt
      · have := I lease hl
        omega

section Runs

variable {cfg : Config} {k : StreamRequest} {s t : StreamSys} {a : StreamLabel}
  {h : List (StreamSys × StreamLabel)} {c : StreamClaim}

open StreamSys

theorem streamInvariant_init (hi : (streamSystem cfg k).Init s) : s.Invariant cfg k [] := by
  obtain ⟨⟨h, hr⟩, hs⟩ := hi
  have hfresh := (leaseInvariant_of_run hr).fresh
  have hbuf := buffered_lt_uuid hr
  rw [hs] at hfresh hbuf ⊢
  refine ⟨⟨nofun, nofun, .nil⟩, ⟨hfresh, nofun, .nil, ?_, nofun, nofun, nofun⟩, nofun⟩
  exact fun lease hl => ⟨hbuf lease hl, nofun⟩

theorem StreamSys.holds_new (hn : s.next cfg k a = some t) (hc : c ∈ t.issued) :
    c ∈ s.issued ∨ t.sys.db.Holds c.job c.lease := by
  cases step_of_next hn with
  | claimed skip admits j c' _ hj hc' | tooLarge skip admits j c' _ hj hc' =>
    rcases mem_cons.1 hc with rfl | hc
    · obtain ⟨-, -, worker, len, started, hrow⟩ := claimTarget_row cfg hj
      subst hc'
      exact .inr ⟨_, hrow, rfl, rfl⟩
    · exact .inl hc
  | other | held | lost | reserve | nothing | holdBack | deadLetter | deliver | disconnect | revoked
  | stop | release => exact .inl hc

theorem StreamSys.undone_mono (hn : s.next cfg k a = some t) (hc : c ∈ s.undone) : c ∈ t.undone := by
  cases step_of_next hn with
  | deadLetter | release => exact mem_cons_of_mem _ hc
  | other | held | lost | reserve | nothing | claimed | tooLarge | holdBack | deliver | disconnect
  | revoked | stop => exact hc

theorem StreamSys.Invariant.issued_of_inFlight (I : s.Invariant cfg k h) (hc : c ∈ s.inFlight) :
    c ∈ s.issued :=
  I.channel.flow.mem_iff.2 (mem_append_right _ hc)

theorem StreamSys.Invariant.issued_of_dropped (I : s.Invariant cfg k h) (hc : c ∈ s.dropped) :
    c ∈ s.issued :=
  I.issued_of_inFlight (mem_append_right _ hc)

theorem StreamSys.Invariant.step (I : s.Invariant cfg k h) (hn : s.next cfg k a = some t) :
    t.Invariant cfg k ((s, a) :: h) := by
  have hstep := step_of_next hn
  refine ⟨I.channel.step hstep, I.claims.step I.channel.current hstep, fun c hc hno => ?_⟩
  rcases holds_new hn hc with hold | hnew
  · rcases I.kept c hold (fun h => hno (undone_mono hn h)) with hh | ⟨x, hx, hl⟩
    · rcases I.claims.kept I.channel.current (fun _ => I.issued_of_dropped) hn hold hh with
        hh | hl | hu
      · exact .inl hh
      · exact .inr ⟨(s, a), mem_cons_self, hl⟩
      · exact absurd hu hno
    · exact .inr ⟨x, mem_cons_of_mem _ hx, hl⟩
  · exact .inl hnew

theorem streamInvariant_of_run (hr : (streamSystem cfg k).Run s h) : s.Invariant cfg k h :=
  hr.invariant (M := streamSystem cfg k) (C := fun _ _ => True)
    (I := fun s : StreamSys => s.Invariant cfg k) (fun _ => streamInvariant_init)
    (fun _ _ _ _ _ _ I _ hn => I.step hn) (fun _ _ => trivial)

theorem StreamSys.Invariant.not_undone (I : s.Invariant cfg k h) (hc : c ∈ s.inFlight) :
    c ∉ s.undone := by
  have hnodup := I.channel.flow.nodup_iff.1 (List.Nodup.of_map _ I.claims.distinct)
  intro hu
  exact disjoint_of_nodup_append hnodup (mem_append_right _ hu) hc

end Runs

/-! ## One job at a time -/

/-- The row of a job after its claim `c` was taken back: it waits as before the
claim, and can be claimed at once unless its own deadline or its gate forbids it. -/
structure Job.TakenBack (now : Time) (j : Job) (c : StreamClaim) : Prop where
  status : j.status = .pending
  worker : j.assignedWorkerId = none
  lease : j.leaseId = none
  leaseExpiresAt : j.leaseExpiresAt = none
  retryCount : j.retryCount = c.retryCount
  claimable : ∀ t, now ≤ t → j.claimable t = (j.unexpired t && j.gateOpen)

section Main

variable {cfg : Config} {k : StreamRequest} {s : StreamSys} {h : List (StreamSys × StreamLabel)}
  {c : StreamClaim}

namespace StreamSys

theorem Invariant.release (I : s.Invariant cfg k h) {n : Nat} (hc : s.dropped[n]? = some c) :
    ∃ t, s.next cfg k (.release n) = some t ∧
      ((∃ j, t.sys.db.job c.job = some j ∧ j.TakenBack t.sys.now c) ∨
        ∃ x ∈ h, x.1.Loses cfg k x.2 c) := by
  refine ⟨{ s with
    sys := (s.sys.run cfg (.releaseUnsentClaim c.job k.organizationId c.lease))
    dropped := s.dropped.eraseIdx n
    undone := c :: s.undone }, by simp only [next, hc], ?_⟩
  have hflight : c ∈ s.inFlight := mem_append_right _ (mem_of_getElem? hc)
  have hissued := I.issued_of_inFlight hflight
  rcases I.kept c hissued (I.not_undone hflight) with ⟨j, hj, hs, hl⟩ | hlost
  · obtain ⟨hretry, -, hdue⟩ := I.claims.row c hissued j hj hs hl
    refine .inl ⟨_, Db.exec_releaseUnsentClaim cfg hj (I.claims.claimedUnder hissued hj hs hl), ?_⟩
    refine ⟨rfl, rfl, rfl, rfl, hretry, fun t ht => ?_⟩
    have hduet : j.due t = true := by
      simp only [Job.due, Option.all_eq_true, decide_eq_true_eq] at hdue ⊢
      exact fun x hx => le_trans (hdue x hx) ht
    show (true && j.due t && j.unexpired t && j.gateOpen) = (j.unexpired t && j.gateOpen)
    rw [hduet, Bool.true_and, Bool.true_and]
  · exact .inr hlost

theorem Invariant.deadLetter (I : s.Invariant cfg k h) (hp : s.phase = .oversized c)
    (reason : String) :
    ∃ t, s.next cfg k (.deadLetter reason) = some t ∧
      ((∃ j, t.sys.db.job c.job = some j ∧ j.status = .deadletter ∧ j.retryCount = c.retryCount) ∨
        ∃ x ∈ h, x.1.Loses cfg k x.2 c) := by
  refine ⟨{ s with
    sys := (s.sys.run cfg (.deadLetterOversized c.job k.organizationId c.lease reason))
    phase := .polling
    undone := c :: s.undone }, by simp only [next, hp], ?_⟩
  have hflight : c ∈ s.inFlight := by simp [inFlight, hp, Phase.oversize]
  have hissued := I.issued_of_inFlight hflight
  rcases I.kept c hissued (I.not_undone hflight) with ⟨j, hj, hs, hl⟩ | hlost
  · obtain ⟨hretry, -, -⟩ := I.claims.row c hissued j hj hs hl
    obtain ⟨error, hrow⟩ := Db.exec_deadLetterOversized cfg reason hj
      (I.claims.claimedUnder hissued hj hs hl)
    exact .inl ⟨_, hrow, rfl, hretry⟩
  · exact .inr hlost

theorem ChannelOk.stop (I : s.ChannelOk) (hclosed : s.closed = true) (hc : s.slot = some c) :
    ∃ t, s.next cfg k .stop = some t ∧ c ∈ t.dropped := by
  have hmem : c ∈ s.slot.toList ++ s.dropped := by simp [hc]
  have hwaits : s.phase.waits = true := by
    by_contra hno
    rw [I.empty (Bool.eq_false_iff.2 hno)] at hc
    cases hc
  cases hp : s.phase with
  | polling | holding =>
    simp only [next, hp, hclosed, if_true]
    exact ⟨_, rfl, hmem⟩
  | reserved | oversized | ended => rw [hp] at hwaits; cases hwaits

end StreamSys

/-- **One job at a time, and no attempt for a job not handed over.** At most one
claim of a stream is live. A claim it found lost is not live again. Every claim
was handed to the transport, or undone, or is still in flight. Undoing it puts
the row back as it was, `retry_count` included, unless the claim had expired,
was settled or its job deleted; a job too large for a message is dead-lettered
instead. -/
theorem stream_one_job_at_a_time (hr : (streamSystem cfg k).Run s h) :
    (∀ c ∈ s.issued, ∀ c' ∈ s.issued, s.Live c → s.Live c' → c = c') ∧
    (∀ c ∈ s.lost, ¬ s.Live c) ∧
    (∀ c ∈ s.issued, c ∈ s.delivered ∨ c ∈ s.undone ∨ c ∈ s.inFlight) ∧
    (∀ c, s.closed = true → s.slot = some c →
      ∃ t, s.next cfg k .stop = some t ∧ c ∈ t.dropped) ∧
    (∀ n c, s.dropped[n]? = some c → ∃ t, s.next cfg k (.release n) = some t ∧
      ((∃ j, t.sys.db.job c.job = some j ∧ j.TakenBack t.sys.now c) ∨
        ∃ x ∈ h, x.1.Loses cfg k x.2 c)) ∧
    ∀ c reason, s.phase = .oversized c → ∃ t, s.next cfg k (.deadLetter reason) = some t ∧
      ((∃ j, t.sys.db.job c.job = some j ∧ j.status = .deadletter ∧ j.retryCount = c.retryCount) ∨
        ∃ x ∈ h, x.1.Loses cfg k x.2 c) := by
  have I := streamInvariant_of_run hr
  refine ⟨?_, fun c hc => (I.claims.lost c hc).2, ?_, fun c => I.channel.stop,
    fun n c => I.release, fun c reason hp => I.deadLetter hp reason⟩
  · intro c hc c' hc' hlive hlive'
    exact Option.some.inj ((I.claims.one c hc hlive).symm.trans (I.claims.one c' hc' hlive'))
  · intro c hc
    simpa only [mem_append, or_assoc] using I.channel.flow.mem_iff.1 hc

end Main

def clientStream : StreamRequest :=
  { organizationId := 1, queueName := "q", worker := 1, leaseSecs := 30 }

/-- The client goes before it has read the message: the job is pending again. -/
theorem stream_one_job_at_a_time_disconnect : ∃ s h c, (streamSystem {} clientStream).Run s h ∧
    s.dropped[0]? = some c ∧ c.retryCount = 0 ∧
    ∃ t, s.next {} clientStream (.release 0) = some t ∧
      ((∃ j, t.sys.db.job c.job = some j ∧ j.TakenBack t.sys.now c) ∨
        ∃ x ∈ h, x.1.Loses {} clientStream x.2 c) := by
  obtain ⟨s, h, hr, hp⟩ := Machine.Run.of_exec (streamSystem {} clientStream)
    [.other (.createCheck clientCreate), .other (.createInsert 0), .reserve,
      .claim (fun _ => false) (fun _ => true) true, .disconnect] {}
    (fun x => (x.1.dropped[0]?).any (·.retryCount == 0))
    ⟨⟨[], .init ⟨rfl, rfl⟩⟩, rfl⟩ (by decide +kernel)
  obtain ⟨c, hc, hz⟩ := Option.any_eq_true _ _ |>.1 hp
  exact ⟨s, h, c, hr, hc, beq_iff_eq.1 hz,
    (stream_one_job_at_a_time hr).2.2.2.2.1 0 c hc⟩

/-- In no step of the history does the claim `c` expire or get settled. -/
def neverEnded (c : StreamClaim) (h : List (StreamSys × StreamLabel)) : Bool :=
  h.all fun x => ((x.1.sys.db.job c.job).all fun j =>
    j.leaseId != some c.lease || j.leaseLive x.1.sys.now) &&
    match x.2 with
    | .other a => x.1.sys.settles a != some c.lease
    | _ => true

/-- Two claims that were never handed over and neither expired nor settled, and
whose jobs are not claimable again: one is too large for a message, and the
deadline of the other passes while it waits in the channel. -/
theorem stream_undelivered_not_claimable :
    (∃ s h c j, (streamSystem {} clientStream).Run s h ∧ s.issued = [c] ∧ s.delivered = [] ∧
      s.undone = [c] ∧ neverEnded c h = true ∧ s.sys.db.job c.job = some j ∧
      j.status = .deadletter) ∧
    ∃ s h c j, (streamSystem {} clientStream).Run s h ∧ s.issued = [c] ∧ s.delivered = [] ∧
      s.undone = [c] ∧ neverEnded c h = true ∧ s.sys.db.job c.job = some j ∧
      j.claimable s.sys.now = false ∧ j.expiresAt = some 1000 ∧ s.sys.now = 2000 := by
  constructor
  · obtain ⟨s, h, hr, hp⟩ := Machine.Run.of_exec (streamSystem {} clientStream)
      [.other (.createCheck clientCreate), .other (.createInsert 0), .reserve,
        .claim (fun _ => false) (fun _ => true) false, .deadLetter "too large"] {}
      (fun x => x.1.issued == [⟨0, .single 1, 0⟩] && x.1.delivered == [] &&
        x.1.undone == [⟨0, .single 1, 0⟩] && neverEnded ⟨0, .single 1, 0⟩ x.2 &&
        (x.1.sys.db.job 0).any (·.status == .deadletter))
      ⟨⟨[], .init ⟨rfl, rfl⟩⟩, rfl⟩ (by decide +kernel)
    simp only [Bool.and_eq_true, beq_iff_eq, Option.any_eq_true] at hp
    obtain ⟨⟨⟨⟨hi, hd⟩, hu⟩, hn⟩, j, hj, hs⟩ := hp
    exact ⟨s, h, ⟨0, .single 1, 0⟩, j, hr, hi, hd, hu, hn, hj, hs⟩
  · obtain ⟨s, h, hr, hp⟩ := Machine.Run.of_exec (streamSystem {} clientStream)
      [.other (.createCheck { clientCreate with expiresAt := some 1000 }), .other (.createInsert 0),
        .reserve, .claim (fun _ => false) (fun _ => true) true, .other (.tick 2000), .disconnect,
        .release 0] {}
      (fun x => x.1.issued == [⟨0, .single 1, 0⟩] && x.1.delivered == [] &&
        x.1.undone == [⟨0, .single 1, 0⟩] && neverEnded ⟨0, .single 1, 0⟩ x.2 &&
        x.1.sys.now == 2000 && (x.1.sys.db.job 0).any fun j =>
          j.claimable x.1.sys.now == false && j.expiresAt == some 1000)
      ⟨⟨[], .init ⟨rfl, rfl⟩⟩, rfl⟩ (by decide +kernel)
    simp only [Bool.and_eq_true, beq_iff_eq, Option.any_eq_true] at hp
    obtain ⟨⟨⟨⟨⟨hi, hd⟩, hu⟩, hn⟩, hnow⟩, j, hj, hc, he⟩ := hp
    exact ⟨s, h, ⟨0, .single 1, 0⟩, j, hr, hi, hd, hu, hn, hj, hc, he, hnow⟩

end Spooled
