import Spooled.Store.Row
import Spooled.Lib.Commands

/-!
# Claims on Stripe events

Stripe delivers an event until one delivery is answered 200. A delivery claims the
event in `processed_stripe_events`, runs the handler, and then completes the claim
or, after an error, releases it; a claim that is older than five minutes is taken
over. Every statement and the handler are steps of their own, and a delivery may
crash between any two.

The row keeps the number of the delivery that claimed it last, and the store the
events whose handler has run to success and those of which a clean-up has removed
the claim of a delivery at work; the statements here are about these.
-/

namespace Spooled.Billing

abbrev EventId := Nat

abbrev DeliveryId := Nat

/-! ## The table -/

inductive ClaimStatus
  | processing | done
deriving DecidableEq, Repr

/-- A row of `processed_stripe_events`. -/
structure EventClaim where
  eventId : EventId
  status : ClaimStatus
  claimedAt : Time
  receivedAt : Time
  owner : DeliveryId
deriving DecidableEq, Repr

/-- `STRIPE_CLAIM_STALE_AFTER_SECS`. -/
def claimStaleAfter : Time := secs 300

/-- Rows first received before that are pruned. -/
def pruneAfter : Time := secs (30 * 24 * 3600)

/-- A crashed attempt, as far as the row tells. -/
def EventClaim.isStale (now : Time) (r : EventClaim) : Bool :=
  r.status == .processing && decide (r.claimedAt + claimStaleAfter < now)

def EventClaim.isOld (now : Time) (r : EventClaim) : Bool := decide (r.receivedAt + pruneAfter < now)

structure EventStore where
  now : Time := 0
  claims : Table EventId EventClaim EventClaim.eventId := .empty
  succeeded : List EventId := []
  pruned : List EventId := []
  nextDelivery : DeliveryId := 0

inductive EventCommand
  | claim (e : EventId) (d : DeliveryId)
  | succeed (e : EventId)
  | release (e : EventId) (token : Time)
  | finalize (e : EventId) (token : Time)
  /-- `running`: the deliveries that are at work with a claim. -/
  | prune (running : List DeliveryId)
  | advance (d : Nat)

namespace EventStore

variable (s : EventStore)

/-- `INSERT … ON CONFLICT (event_id) DO UPDATE … WHERE` the claim is stale. -/
def claim (e : EventId) (d : DeliveryId) : Table EventId EventClaim EventClaim.eventId :=
  match s.claims.find e with
  | none => s.claims.insert ⟨e, .processing, s.now, s.now, d⟩
  | some _ => s.claims.update (fun r => r.eventId == e && r.isStale s.now)
      (fun r => { r with claimedAt := s.now, owner := d }) fun _ => rfl

/-- `DELETE … WHERE event_id = $1 AND status = 'processing' AND claimed_at = $2`. -/
def release (e : EventId) (token : Time) : Table EventId EventClaim EventClaim.eventId :=
  s.claims.delete fun r => r.eventId == e && r.status == .processing && r.claimedAt == token

/-- `UPDATE … SET status = 'done' WHERE event_id = $1 AND claimed_at = $2`. -/
def finalize (e : EventId) (token : Time) : Table EventId EventClaim EventClaim.eventId :=
  s.claims.update (fun r => r.eventId == e && r.claimedAt == token)
    (fun r => { r with status := .done }) fun _ => rfl

end EventStore

def EventCommand.run (s : EventStore) : EventCommand → EventStore
  | claim e d => { s with claims := s.claim e d }
  | succeed e => { s with succeeded := e :: s.succeeded }
  | release e token => { s with claims := s.release e token }
  | finalize e token => { s with claims := s.finalize e token }
  | prune running =>
    { s with
      claims := s.claims.delete (·.isOld s.now)
      pruned := (s.claims.rows.filter fun r => r.isOld s.now && r.status == .processing &&
        running.contains r.owner).map (·.eventId) ++ s.pruned }
  | advance d => { s with now := s.now + d }

/-! ## Deliveries -/

inductive WebhookAnswer
  | ok
  /-- 409: claimed by an attempt in flight. -/
  | conflict
  | error
deriving DecidableEq, Repr

/-- `token` is `claim_token`: `claimed_at` of the own claim. -/
inductive DeliveryPhase
  | claim
  | select
  | handle (token : Option Time)
  | release (token : Time)
  | finalize (token : Time)
  | prune
  | answered (a : WebhookAnswer)
deriving DecidableEq, Repr

structure Delivery where
  number : DeliveryId
  event : EventId
  /-- One of the handled event types? -/
  handled : Bool := true
  /-- What the handler returns. -/
  succeeds : Bool := true
  releaseFails : Bool := false
  finalizeFails : Bool := false
  pruneFails : Bool := false
  phase : DeliveryPhase := .claim
deriving DecidableEq, Repr

inductive WebhookProc
  | delivery (p : Delivery)
  | clock (d : Nat)
deriving DecidableEq, Repr

abbrev WebhookTurn := Turn EventCommand WebhookProc

/-- `claimed_at` of the own claim, while the delivery has one. -/
def Delivery.token (p : Delivery) : Option Time :=
  match p.phase with
  | .handle token => token
  | .release t | .finalize t => some t
  | _ => none

def WebhookProc.holder : WebhookProc → Option DeliveryId
  | delivery p => p.token.map fun _ => p.number
  | clock _ => none

namespace Delivery

def goTo (p : Delivery) (phase : DeliveryPhase) : WebhookTurn := .stay (.delivery { p with phase })

def runs (p : Delivery) (c : EventCommand) (phase : DeliveryPhase) : WebhookTurn :=
  .run c (some (.delivery { p with phase }))

/-- `webhook`, after the signature is verified. -/
def act (s : EventStore) (os : List WebhookProc) (p : Delivery) : WebhookTurn :=
  match p.phase with
  | .claim =>
    if p.handled then
      if (s.claims.find p.event).all (·.isStale s.now) then
        p.runs (.claim p.event p.number) (.handle (some s.now))
      else p.goTo .select
    else p.goTo (.handle none)
  | .select =>
    p.goTo (.answered (if (s.claims.find p.event).any (·.status == .done) then .ok else .conflict))
  | .handle token =>
    match token with
    -- an event type without a handler
    | none => p.runs (.succeed p.event) (.answered .ok)
    | some t =>
      if p.succeeds then p.runs (.succeed p.event) (.finalize t) else p.goTo (.release t)
  | .release t =>
    if p.releaseFails then p.goTo (.answered .error)
    else p.runs (.release p.event t) (.answered .error)
  | .finalize t =>
    if p.finalizeFails then p.goTo .prune else p.runs (.finalize p.event t) .prune
  | .prune =>
    if p.pruneFails then p.goTo (.answered .ok)
    else p.runs (.prune (os.filterMap WebhookProc.holder)) (.answered .ok)
  | .answered _ => .quit

end Delivery

def WebhookProc.act (s : EventStore) (os : List WebhookProc) : WebhookProc → WebhookTurn
  | delivery p => p.act s os
  | clock d => .run (.advance d) none

inductive WebhookAsk
  | deliver (e : EventId) (handled succeeds releaseFails finalizeFails pruneFails : Bool)
  | clock (d : Nat)

def webhooks : CommandSpec where
  Store := EventStore
  Proc := WebhookProc
  Ask := WebhookAsk
  Command := EventCommand
  start s
    | .deliver event handled succeeds releaseFails finalizeFails pruneFails =>
      ({ s with nextDelivery := s.nextDelivery + 1 },
        .delivery { number := s.nextDelivery, event, handled, succeeds, releaseFails,
                    finalizeFails, pruneFails })
    | .clock d => (s, .clock d)
  run := EventCommand.run
  act s os p := some (p.act s os)

/-! ## What a delivery can do -/

variable {s : EventStore} {os : List WebhookProc} {p : Delivery} {c : EventCommand} {phase : DeliveryPhase}
  {proc : WebhookProc} {q : Option WebhookProc} {e : EventId}

inductive Delivery.Goes (s : EventStore) (p : Delivery) : DeliveryPhase → Prop
  | taken (h : p.phase = .claim) : Goes s p .select
  | unhandled (h : p.phase = .claim) : Goes s p (.handle none)
  | done (h : p.phase = .select) {r : EventClaim} (hr : s.claims.find p.event = some r)
      (hdone : r.status = .done) : Goes s p (.answered .ok)
  | conflict (h : p.phase = .select) : Goes s p (.answered .conflict)
  | failed {t : Time} (h : p.phase = .handle (some t)) : Goes s p (.release t)
  | unreleased {t : Time} (h : p.phase = .release t) : Goes s p (.answered .error)
  | unfinished {t : Time} (h : p.phase = .finalize t) : Goes s p .prune
  | unpruned (h : p.phase = .prune) : Goes s p (.answered .ok)

inductive Delivery.Runs (s : EventStore) (os : List WebhookProc) (p : Delivery) :
    EventCommand → DeliveryPhase → Prop
  | claim (h : p.phase = .claim) (hfree : (s.claims.find p.event).all (·.isStale s.now) = true) :
      Runs s os p (.claim p.event p.number) (.handle (some s.now))
  | ignore (h : p.phase = .handle none) : Runs s os p (.succeed p.event) (.answered .ok)
  | succeed {t : Time} (h : p.phase = .handle (some t)) :
      Runs s os p (.succeed p.event) (.finalize t)
  | release {t : Time} (h : p.phase = .release t) :
      Runs s os p (.release p.event t) (.answered .error)
  | finalize {t : Time} (h : p.phase = .finalize t) : Runs s os p (.finalize p.event t) .prune
  | prune (h : p.phase = .prune) :
      Runs s os p (.prune (os.filterMap WebhookProc.holder)) (.answered .ok)

theorem Delivery.turns (p : Delivery) : Turn.Allowed
    (fun q => ∃ phase, q = .delivery { p with phase } ∧ p.Goes s phase)
    (fun c q => ∃ phase, q = some (.delivery { p with phase }) ∧ p.Runs s os c phase)
    (some (p.act s os)) := by
  cases hphase : p.phase <;> simp only [act, hphase]
  case claim =>
    split
    · split
      · next hfree => exact .run ⟨_, rfl, .claim hphase hfree⟩
      · exact .stay ⟨_, rfl, .taken hphase⟩
    · exact .stay ⟨_, rfl, .unhandled hphase⟩
  case select =>
    split
    · next hdone =>
      obtain ⟨r, hr, hdone⟩ := Option.any_eq_true _ _ |>.1 hdone
      exact .stay ⟨_, rfl, .done hphase hr (beq_iff_eq.1 hdone)⟩
    · exact .stay ⟨_, rfl, .conflict hphase⟩
  case handle token =>
    cases token with
    | none =>
      dsimp only
      exact .run ⟨_, rfl, .ignore hphase⟩
    | some t =>
      dsimp only
      split
      · exact .run ⟨_, rfl, .succeed hphase⟩
      · exact .stay ⟨_, rfl, .failed hphase⟩
  case release t =>
    split
    · exact .stay ⟨_, rfl, .unreleased hphase⟩
    · exact .run ⟨_, rfl, .release hphase⟩
  case finalize t =>
    split
    · exact .stay ⟨_, rfl, .unfinished hphase⟩
    · exact .run ⟨_, rfl, .finalize hphase⟩
  case prune =>
    split
    · exact .stay ⟨_, rfl, .unpruned hphase⟩
    · exact .run ⟨_, rfl, .prune hphase⟩
  case answered a => exact .quit

/-! ## Rows -/

namespace EventStore

theorem find_claim (e e' : EventId) (d : DeliveryId) : (s.claim e d).find e' =
    if e' = e then
      match s.claims.find e with
      | none => some ⟨e, .processing, s.now, s.now, d⟩
      | some r => some (if r.isStale s.now then { r with claimedAt := s.now, owner := d } else r)
    else s.claims.find e' := by
  unfold claim
  cases hr : s.claims.find e with
  | none =>
    simp only [Table.find_insert]
    by_cases he : e' = e
    · subst he
      rw [if_pos rfl, if_pos ⟨rfl, hr⟩]
    · rw [if_neg he, if_neg fun h => he h.1]
  | some r =>
    simp only [Table.find_update]
    by_cases he : e' = e
    · subst he
      rw [if_pos rfl, hr]
      have hid : r.eventId = e' := Table.key_of_find hr
      simp only [Option.map_some, hid, beq_self_eq_true, Bool.true_and]
    · rw [if_neg he]
      cases hr' : s.claims.find e' with
      | none => rfl
      | some r' =>
        have hid : r'.eventId = e' := Table.key_of_find hr'
        simp only [Option.map_some, hid, beq_false_of_ne he, Bool.false_and, Bool.false_eq_true,
          if_false]

theorem find_claim_self (d : DeliveryId) (hfree : (s.claims.find e).all (·.isStale s.now) = true) :
    ∃ r, (s.claim e d).find e = some r ∧ r.owner = d ∧ r.claimedAt = s.now ∧
      r.status = .processing := by
  rw [find_claim, if_pos rfl]
  cases hr : s.claims.find e with
  | none => exact ⟨_, rfl, rfl, rfl, rfl⟩
  | some r =>
    rw [hr, Option.all_some] at hfree
    simp only [hfree, if_true]
    simp only [EventClaim.isStale, Bool.and_eq_true, beq_iff_eq] at hfree
    exact ⟨_, rfl, rfl, rfl, hfree.1⟩

theorem find_release {r : EventClaim} {e' : EventId} {t : Time} :
    (s.release e t).find e' = some r ↔
      s.claims.find e' = some r ∧ ¬ (e' = e ∧ r.status = .processing ∧ r.claimedAt = t) := by
  unfold release
  rw [Table.find_delete, Option.filter_eq_some_iff]
  refine and_congr_right fun hr => ?_
  have hid : r.eventId = e' := Table.key_of_find hr
  simp only [hid, Bool.not_eq_true', Bool.and_eq_false_iff, beq_eq_false_iff_ne, ne_eq]
  grind

theorem find_finalize {r' : EventClaim} {e' : EventId} {t : Time} :
    (s.finalize e t).find e' = some r' ↔ ∃ r, s.claims.find e' = some r ∧
      r' = if e' = e ∧ r.claimedAt = t then { r with status := .done } else r := by
  unfold finalize
  rw [Table.find_update, Option.map_eq_some_iff]
  refine exists_congr fun r => and_congr_right fun hr => ?_
  have hid : r.eventId = e' := Table.key_of_find hr
  simp only [hid, Bool.and_eq_true, beq_iff_eq]
  exact eq_comm

end EventStore

/-! ## The invariant -/

def Delivery.Holds (s : EventStore) (p : Delivery) (t : Time) : Prop :=
  ∃ r, s.claims.find p.event = some r ∧ r.owner = p.number ∧ r.claimedAt = t ∧
    r.status = .processing

def EventStore.Overtaken (s : EventStore) (e : EventId) (t : Time) : Prop :=
  t + claimStaleAfter < s.now ∧ ∀ r, s.claims.find e = some r → t < r.claimedAt

/-- The handler has run to success, or so the delivery says. -/
def DeliveryPhase.isDone : DeliveryPhase → Bool
  | finalize _ | prune | answered .ok => true
  | _ => false

def EventStore.Honest (s : EventStore) : Prop :=
  ∀ r ∈ s.claims.rows, r.status = .done → r.eventId ∈ s.succeeded

structure Delivery.Sane (s : EventStore) (p : Delivery) : Prop where
  claim : ∀ t ∈ p.token, p.event ∈ s.pruned ∨ p.Holds s t ∨ s.Overtaken p.event t
  done : p.phase.isDone = true → p.event ∈ s.succeeded

def Delivery.Spaced (s : EventStore) (p q : Delivery) : Prop :=
  p.event = q.event → ∀ t ∈ p.token, ∀ u ∈ q.token,
    p.event ∈ s.pruned ∨ t + claimStaleAfter < u ∨ u + claimStaleAfter < t

theorem Delivery.Spaced.symm {p q : Delivery} (h : p.Spaced s q) : q.Spaced s p := by
  intro he t ht u hu
  rw [he]
  exact (h he.symm u hu t ht).imp_right Or.symm

theorem Delivery.Sane.stale {q : Delivery} (hq : q.Sane s)
    (hfree : (s.claims.find q.event).all (·.isStale s.now) = true) {u : Time} (hu : u ∈ q.token) :
    q.event ∈ s.pruned ∨ u + claimStaleAfter < s.now := by
  rcases hq.claim u hu with hp | ⟨r, hr, -, rfl, -⟩ | hover
  · exact .inl hp
  · rw [hr, Option.all_some] at hfree
    simp only [EventClaim.isStale, Bool.and_eq_true, decide_eq_true_eq] at hfree
    exact .inr hfree.2
  · exact .inr hover.1

/-- What a delivery does to the row of its token is not done to the claim of another one. -/
theorem Delivery.Spaced.apart {p q : Delivery} (h : p.Spaced s q) {t u : Time} (ht : t ∈ p.token)
    (hu : u ∈ q.token) : q.event ∈ s.pruned ∨ ¬ (q.event = p.event ∧ u = t) := by
  by_cases he : p.event = q.event
  · rcases h he t ht u hu with hp | hlt | hlt
    · exact .inl (he ▸ hp)
    · exact .inr fun h => Nat.ne_of_gt (Nat.lt_of_le_of_lt (Nat.le_add_right _ _) hlt) h.2
    · exact .inr fun h => Nat.ne_of_lt (Nat.lt_of_le_of_lt (Nat.le_add_right _ _) hlt) h.2
  · exact .inr fun h => he h.1.symm

/-- **A step of one delivery leaves the claims of the others alone.** -/
theorem Delivery.Sane.run {p q : Delivery} (hq : q.Sane s) (hmem : .delivery q ∈ os)
    (h : p.Runs s os c phase) (hsp : p.Spaced s q) : q.Sane (c.run s) := by
  cases h with
  | claim h hfree =>
    refine ⟨fun u hu => ?_, hq.done⟩
    by_cases he : q.event = p.event
    · rcases hq.stale (he ▸ hfree) hu with hp | hlt
      · exact .inl hp
      · obtain ⟨r, hr, -, hat, -⟩ := EventStore.find_claim_self p.number hfree
        refine .inr (.inr ⟨hlt, fun r' hr' => ?_⟩)
        have hr' : (s.claim p.event p.number).find q.event = some r' := hr'
        rw [he, hr] at hr'
        cases hr'
        rw [hat]
        exact Nat.lt_of_le_of_lt (Nat.le_add_right _ _) hlt
    · have hsame : (s.claim p.event p.number).find q.event = s.claims.find q.event := by
        rw [EventStore.find_claim, if_neg he]
      rcases hq.claim u hu with hp | ⟨r, hr, hrest⟩ | ⟨hlt, hover⟩
      · exact .inl hp
      · exact .inr (.inl ⟨r, hsame.trans hr, hrest⟩)
      · exact .inr (.inr ⟨hlt, fun r hr => hover r (hsame.symm.trans hr)⟩)
  | ignore | succeed =>
    exact ⟨hq.claim, fun hdone => List.mem_cons_of_mem _ (hq.done hdone)⟩
  | @release t h =>
    refine ⟨fun u hu => ?_, hq.done⟩
    rcases hsp.apart (by simp only [token, h]; rfl) hu with hp | hne
    · exact .inl hp
    · rcases hq.claim u hu with hp | ⟨r, hr, howner, rfl, hst⟩ | ⟨hlt, hover⟩
      · exact .inl hp
      · exact .inr (.inl ⟨r, EventStore.find_release.2 ⟨hr, fun hrel => hne ⟨hrel.1, hrel.2.2⟩⟩, howner,
          rfl, hst⟩)
      · exact .inr (.inr ⟨hlt, fun r hr => hover r (EventStore.find_release.1 hr).1⟩)
  | @finalize t h =>
    refine ⟨fun u hu => ?_, hq.done⟩
    rcases hsp.apart (by simp only [token, h]; rfl) hu with hp | hne
    · exact .inl hp
    · rcases hq.claim u hu with hp | ⟨r, hr, howner, rfl, hst⟩ | ⟨hlt, hover⟩
      · exact .inl hp
      · exact .inr (.inl ⟨r, EventStore.find_finalize.2 ⟨r, hr, (if_neg hne).symm⟩, howner, rfl, hst⟩)
      · refine .inr (.inr ⟨hlt, fun r' hr' => ?_⟩)
        obtain ⟨r, hr, rfl⟩ := EventStore.find_finalize.1 hr'
        have hlt := hover r hr
        split <;> exact hlt
  | prune h =>
    refine ⟨fun u hu => ?_, hq.done⟩
    rcases hq.claim u hu with hp | ⟨r, hr, howner, hat, hst⟩ | ⟨hlt, hover⟩
    · exact .inl (List.mem_append_right _ hp)
    · cases hold : r.isOld s.now with
      | true =>
        have hrunning : r.owner ∈ os.filterMap WebhookProc.holder :=
          List.mem_filterMap.2 ⟨_, hmem, by rw [howner]; exact Option.map_eq_some_iff.2 ⟨u, hu, rfl⟩⟩
        refine .inl (List.mem_append_left _ (List.mem_map.2 ⟨r, List.mem_filter.2 ⟨?_, ?_⟩, ?_⟩))
        · exact Table.mem_of_find hr
        · simp [hold, hst, hrunning]
        · exact Table.key_of_find hr
      | false =>
        refine .inr (.inl ⟨r, ?_, howner, hat, hst⟩)
        show (s.claims.delete _).find q.event = some r
        rw [Table.find_delete, hr, Option.filter_some, hold]
        rfl
    · refine .inr (.inr ⟨hlt, fun r hr => hover r ?_⟩)
      have hr : (s.claims.delete _).find q.event = some r := hr
      rw [Table.find_delete] at hr
      exact (Option.filter_eq_some_iff.1 hr).1

theorem Delivery.Sane.own (hp : p.Sane s) (h : p.Runs s os c phase) :
    Delivery.Sane (c.run s) { p with phase } := by
  cases h with
  | claim h hfree =>
    refine ⟨fun t ht => ?_, nofun⟩
    cases ht
    obtain ⟨r, hr, howner, hat, hst⟩ := EventStore.find_claim_self p.number hfree
    exact .inr (.inl ⟨r, hr, howner, hat, hst⟩)
  | ignore h => exact ⟨nofun, fun _ => List.mem_cons_self⟩
  | @succeed t h =>
    have ht : t ∈ p.token := by
      simp only [token, h]
      rfl
    refine ⟨fun u hu => ?_, fun _ => List.mem_cons_self⟩
    cases hu
    exact hp.claim t ht
  | release h => exact ⟨nofun, nofun⟩
  | finalize h | prune h => exact ⟨nofun, fun _ => hp.done (by rw [h]; rfl)⟩

theorem Delivery.Sane.goes (hp : p.Sane s) (hs : s.Honest) (h : p.Goes s phase) :
    Delivery.Sane s { p with phase } ∧ ∀ q : Delivery, p.Spaced s q →
      Delivery.Spaced s { p with phase } q := by
  cases h with
  | taken | conflict | unreleased | unhandled => exact ⟨⟨nofun, nofun⟩, fun _ _ _ => nofun⟩
  | done h hr hdone =>
    refine ⟨⟨nofun, fun _ => ?_⟩, fun _ _ _ => nofun⟩
    have hmem := hs _ (Table.mem_of_find hr) hdone
    rwa [Table.key_of_find hr] at hmem
  | @failed t h =>
    have ht : t ∈ p.token := by
      simp only [token, h]
      rfl
    refine ⟨⟨fun u hu => ?_, nofun⟩, fun q hsp he u hu => ?_⟩
    · cases hu
      exact hp.claim t ht
    · cases hu
      exact hsp he t ht
  | unfinished h | unpruned h =>
    exact ⟨⟨nofun, fun _ => hp.done (by rw [h]; rfl)⟩, fun _ _ _ => nofun⟩

theorem Delivery.Spaced.own {q : Delivery} (hq : q.Sane s) (hsp : p.Spaced s q)
    (h : p.Runs s os c phase) : Delivery.Spaced (c.run s) { p with phase } q := by
  intro he t ht u hu
  cases h with
  | claim h hfree =>
    cases ht
    rcases hq.stale (he ▸ hfree) hu with hp | hlt
    · exact .inl (he ▸ hp)
    · exact .inr (.inr hlt)
  | @succeed t' h =>
    cases ht
    exact hsp he t (by simp only [token, h]; rfl) u hu
  | ignore | release | finalize | prune => nomatch ht

theorem EventCommand.pruned_mono (h : e ∈ s.pruned) : e ∈ (c.run s).pruned := by
  cases c with
  | prune => exact List.mem_append_right _ h
  | _ => exact h

theorem Delivery.Runs.honest (h : p.Runs s os c phase) (hp : p.Sane s) (hs : s.Honest) :
    (c.run s).Honest := by
  intro r hr hdone
  cases h with
  | claim h hfree =>
    have hr : (s.claim p.event p.number).find r.eventId = some r := Table.find_key hr
    rw [EventStore.find_claim] at hr
    split at hr
    · cases hrow : s.claims.find p.event with
      | none =>
        rw [hrow] at hr
        cases hr
        cases hdone
      | some r₀ =>
        rw [hrow] at hr
        rw [hrow, Option.all_some] at hfree
        simp only [hfree, if_true] at hr
        simp only [EventClaim.isStale, Bool.and_eq_true, beq_iff_eq] at hfree
        cases hr
        cases hfree.1.symm.trans hdone
    · exact hs r (Table.mem_of_find hr) hdone
  | ignore | succeed => exact List.mem_cons_of_mem _ (hs r hr hdone)
  | release h =>
    exact hs r (Table.mem_of_find (EventStore.find_release.1 (Table.find_key hr)).1) hdone
  | finalize h =>
    obtain ⟨r₀, hr₀, he⟩ := EventStore.find_finalize.1 (Table.find_key hr)
    have hdone' := hp.done (by rw [h]; rfl)
    split at he
    · next hfin => exact hfin.1 ▸ hdone'
    · subst he
      exact hs r (Table.mem_of_find hr₀) hdone
  | prune h => exact hs r (Table.mem_delete.1 hr).1 hdone

def WebhookProc.Sane (s : EventStore) : WebhookProc → Prop
  | delivery p => p.Sane s
  | clock _ => True

def WebhookProc.Spaced (s : EventStore) : WebhookProc → WebhookProc → Prop
  | delivery p, delivery q => p.Spaced s q
  | _, _ => True

theorem Delivery.Sane.advance (hp : p.Sane s) (d : Nat) :
    p.Sane (EventCommand.run s (.advance d)) := by
  refine ⟨fun t ht => ?_, hp.done⟩
  rcases hp.claim t ht with h | h | ⟨hlt, hover⟩
  · exact .inl h
  · exact .inr (.inl h)
  · exact .inr (.inr ⟨Nat.lt_of_lt_of_le hlt (Nat.le_add_right _ _), hover⟩)

/-- **Claims are apart.** -/
theorem webhooks_kept (A : PoolSpec.Allow webhooks.pool) : PoolSpec.Kept webhooks.pool A
    EventStore.Honest WebhookProc.Sane WebhookProc.Spaced := by
  refine @CommandSpec.Keeps.kept webhooks A _ _ _ ?_
  refine ⟨fun {s p q} h => ?_, fun {s a} _ hs => ?_, fun {s a q} _ _ hq => ?_,
    fun {s a q r} h => ?_, fun {s os p p'} h _ hb => ?_, fun {s os p c p'} h _ hb => ?_⟩
  · cases p with
    | delivery p =>
      cases q with
      | delivery q => exact h.symm
      | clock => trivial
    | clock => cases q <;> trivial
  · cases a with
    | deliver => exact ⟨hs, nofun, nofun⟩
    | clock => exact ⟨hs, trivial⟩
  · cases a with
    | deliver =>
      cases q with
      | delivery q => exact ⟨⟨hq.claim, hq.done⟩, fun _ => nofun⟩
      | clock => exact ⟨trivial, trivial⟩
    | clock => exact ⟨hq, by cases q <;> trivial⟩
  · cases a with
    | deliver => exact h
    | clock => exact h
  · cases p with
    | clock d => nomatch h
    | delivery p =>
      obtain ⟨phase, rfl, hgoes⟩ := p.turns.of_stay h
      obtain ⟨hsane, hspaced⟩ := Delivery.Sane.goes hb.own hb.store hgoes
      refine ⟨hsane, fun q hq => ?_⟩
      cases q with
      | delivery q => exact hspaced q (hb.pair _ hq)
      | clock => trivial
  · cases p with
    | clock d =>
      cases h
      refine ⟨hb.store, nofun, fun q hq => ?_, fun q _ r _ h => ?_⟩
      · cases q with
        | delivery q => exact Delivery.Sane.advance (hb.others _ hq) d
        | clock => trivial
      · exact h
    | delivery p =>
      obtain ⟨phase, rfl, hruns⟩ := p.turns.of_run h
      refine ⟨hruns.honest hb.own hb.store, fun r hr => ?_, fun q hq => ?_, fun q _ r _ h => ?_⟩
      · cases hr
        refine ⟨Delivery.Sane.own hb.own hruns, fun q hq => ?_⟩
        cases q with
        | delivery q => exact Delivery.Spaced.own (hb.others _ hq) (hb.pair _ hq) hruns
        | clock => trivial
      · cases q with
        | delivery q => exact Delivery.Sane.run (hb.others _ hq) hq hruns (hb.pair _ hq)
        | clock => trivial
      · cases q with
        | delivery q =>
          cases r with
          | delivery r =>
            exact fun he t ht u hu => (h he t ht u hu).imp_left EventCommand.pruned_mono
          | clock => trivial
        | clock => cases r <;> trivial

/-! ## The result -/

def webhookSystem : Machine := webhooks.pool.machine EventStore.Honest

def EventStore.Ends (s s' : EventStore) (e : EventId) : Prop :=
  (∃ r, s.claims.find e = some r) ∧ s'.claims.find e = none ∨
  ∃ r r', s.claims.find e = some r ∧ r.status = .processing ∧ s'.claims.find e = some r' ∧
    r'.status = .done

theorem EventStore.not_ends {s' : EventStore} {r : EventClaim} (hr : s.claims.find e = some r)
    (hsame : s'.claims.find e = some r) : ¬ s.Ends s' e := by
  rintro (⟨-, hnone⟩ | ⟨r₁, r', hr₁, hst₁, hr', hdone⟩)
  · nomatch hnone.symm.trans hsame
  · cases hr.symm.trans hr₁
    cases hsame.symm.trans hr'
    nomatch hst₁.symm.trans hdone

theorem Delivery.Runs.owner (h : p.Runs s os c phase) (hp : p.Sane s) (he : e ∉ s.pruned)
    (hend : s.Ends (c.run s) e) {r : EventClaim} (hr : s.claims.find e = some r) :
    r.owner = p.number ∨ (∃ running, c = .prune running) ∧ r.receivedAt + pruneAfter < s.now := by
  -- the row a delivery names by its token is its own
  have hown : ∀ t ∈ p.token, e = p.event → r.claimedAt = t → r.owner = p.number := by
    rintro t ht rfl hat
    rcases hp.claim t ht with hpruned | ⟨r', hr', howner, -⟩ | ⟨-, hover⟩
    · exact absurd hpruned he
    · cases hr.symm.trans hr'
      exact howner
    · exact absurd hat (Nat.ne_of_gt (hover r hr))
  cases h with
  | claim h hfree =>
    exfalso
    obtain ⟨rn, hrn, -, -, hst⟩ := EventStore.find_claim_self p.number hfree
    by_cases hev : e = p.event
    · subst hev
      rcases hend with ⟨-, hnone⟩ | ⟨r₁, r', -, -, hr', hdone⟩
      · nomatch hnone.symm.trans hrn
      · cases hrn.symm.trans hr'
        nomatch hst.symm.trans hdone
    · have hsame : (s.claim p.event p.number).find e = some r := by
        rw [EventStore.find_claim, if_neg hev, hr]
      exact (EventStore.not_ends hr hsame hend).elim
  | ignore | succeed => exact (EventStore.not_ends hr hr hend).elim
  | @release t h =>
    left
    by_cases hrel : e = p.event ∧ r.status = .processing ∧ r.claimedAt = t
    · exact hown t (by simp only [token, h]; rfl) hrel.1 hrel.2.2
    · have hsame := EventStore.find_release.2 ⟨hr, hrel⟩
      exact (EventStore.not_ends hr hsame hend).elim
  | @finalize t h =>
    left
    by_cases hfin : e = p.event ∧ r.claimedAt = t
    · exact hown t (by simp only [token, h]; rfl) hfin.1 hfin.2
    · have hsame := EventStore.find_finalize.2 ⟨r, hr, (if_neg hfin).symm⟩
      exact (EventStore.not_ends hr hsame hend).elim
  | prune h =>
    cases hold : r.isOld s.now with
    | true => exact .inr ⟨⟨_, rfl⟩, of_decide_eq_true hold⟩
    | false =>
      exfalso
      have hsame : (s.claims.delete (·.isOld s.now)).find e = some r := by
        rw [Table.find_delete, hr, Option.filter_some, hold]
        rfl
      exact (EventStore.not_ends hr hsame hend).elim

/-- **Events are acknowledged only when done.** A delivery is answered 200 after some delivery has
run the handler to success. As long as no clean-up has removed the claim of a delivery of the event
that was at work, a claim is ended by its own delivery or by a clean-up of a row that is older than
30 days, and two handlers run at a time only if the claim of the first was stale when the second
came. -/
theorem events_acknowledged_when_done {x : Pool EventStore WebhookProc}
    {h : List (Pool EventStore WebhookProc × PoolLabel WebhookAsk)} (hr : webhookSystem.Run x h) :
    (∀ p, .delivery p ∈ x.procs → p.phase = .answered .ok → p.event ∈ x.store.succeeded) ∧
    (∀ p, .delivery p ∈ x.procs → ∀ os c q, p.act x.store os = .run c q → ∀ e ∉ x.store.pruned,
      x.store.Ends (c.run x.store) e → ∀ r, x.store.claims.find e = some r →
      r.owner = p.number ∨
        (∃ running, c = .prune running) ∧ r.receivedAt + pruneAfter < x.store.now) ∧
    ∀ (i j : Nat) (p q : Delivery) (t u : Time), i ≠ j → x.procs[i]? = some (WebhookProc.delivery p) →
      x.procs[j]? = some (WebhookProc.delivery q) → p.event = q.event → p.event ∉ x.store.pruned →
      p.phase = .handle (some t) → q.phase = .handle (some u) →
      t + claimStaleAfter < u ∨ u + claimStaleAfter < t := by
  have hinv := (webhooks_kept .any).always (fun _ hs => hs) hr
  refine ⟨fun p hp hphase => ?_, fun p hp os c q hact e he hend r hrow => ?_, ?_⟩
  · have hsane : p.Sane x.store := hinv.each _ hp
    exact hsane.done (by rw [hphase]; rfl)
  · obtain ⟨phase, -, hruns⟩ := p.turns.of_run (congrArg some hact)
    exact hruns.owner (hinv.each _ hp) he hend hrow
  · intro i j p q t u hij hi hj hev hpruned hp hq
    have hsp : p.Spaced x.store q := hinv.pair (webhooks_kept .any).symm hij hi hj
    have ht : t ∈ p.token := by simp only [Delivery.token, hp]; rfl
    have hu : u ∈ q.token := by simp only [Delivery.token, hq]; rfl
    exact (hsp hev t ht u hu).resolve_left hpruned

/-! ## A crash, and a clean-up -/

def noEvents : Pool EventStore WebhookProc := ⟨{}, []⟩

theorem noEvents_honest : noEvents.store.Honest := nofun

def deliver (e : EventId) : PoolLabel WebhookAsk := .ask (.deliver e true true false false false)

def sleep (d : Nat) : List (PoolLabel WebhookAsk) := [.ask (.clock (secs d)), .run 0]

def deliveriesAre (x : Pool EventStore WebhookProc) (ps : List Delivery) : Bool :=
  decide (x.procs = ps.map .delivery)

theorem deliveriesAre_iff {x : Pool EventStore WebhookProc} {ps : List Delivery} :
    deliveriesAre x ps = true ↔ x.procs = ps.map .delivery := decide_eq_true_iff

/-- The first delivery crashes in its handler, the second takes over after five minutes, and the
third is answered 200. -/
theorem events_acknowledged_when_done_takeover : ∃ x h, webhookSystem.Run x h ∧
    ∃ p, .delivery p ∈ x.procs ∧ p.number = 2 ∧ p.event = 1 ∧ p.phase = .answered .ok ∧
      1 ∈ x.store.succeeded := by
  obtain ⟨x, h, hr, hp⟩ := Machine.Run.of_exec webhookSystem
    ([deliver 1, .run 0, .drop 0] ++ sleep 301 ++ deliver 1 :: List.replicate 5 (.run 0) ++
      [deliver 1, .run 0, .run 0]) noEvents
    (fun x => deliveriesAre x.1 [{ number := 2, event := 1, phase := .answered .ok }])
    ⟨noEvents_honest, rfl⟩ (by decide +kernel)
  have hprocs := deliveriesAre_iff.1 hp
  have hmem : .delivery { number := 2, event := 1, phase := .answered .ok } ∈ x.procs := by
    rw [hprocs]
    exact List.mem_cons_self
  exact ⟨x, h, hr, _, hmem, rfl, rfl, rfl, (events_acknowledged_when_done hr).1 _ hmem rfl⟩

/-- The delivery after a crash comes a month later: its claim is new but its row is old, so the
clean-up of another event's delivery removes it, and a third delivery runs the handler beside it. -/
theorem cleanup_removes_claim : ∃ x h, webhookSystem.Run x h ∧
    x.procs = [.delivery { number := 3, event := 1, phase := .handle (some (secs 2592001)) },
      .delivery { number := 1, event := 1, phase := .handle (some (secs 2592001)) }] := by
  obtain ⟨x, h, hr, hp⟩ := Machine.Run.of_exec webhookSystem
    ([deliver 1, .run 0, .drop 0] ++ sleep 2592001 ++ [deliver 1, .run 0] ++
      deliver 2 :: List.replicate 5 (.run 0) ++ [deliver 1, .run 0]) noEvents
    (fun x => deliveriesAre x.1
      [{ number := 3, event := 1, phase := .handle (some (secs 2592001)) },
        { number := 1, event := 1, phase := .handle (some (secs 2592001)) }])
    ⟨noEvents_honest, rfl⟩ (by decide +kernel)
  exact ⟨x, h, hr, deliveriesAre_iff.1 hp⟩

end Spooled.Billing
