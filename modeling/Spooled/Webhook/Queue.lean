import Spooled.Lib.Run
import Spooled.Lib.Table

/-!
# The delivery queue of outgoing webhooks

Events and deliveries of `outgoing_webhooks/service.rs` as items that hold
permits. Every step is one operation on a semaphore, the channel or the lane
map, so the items interleave in all ways; the channel hands out its items in
any order, and any item may be lost at any time, its permits released in the
order of the fields of `Delivery`. The database and the endpoints' answers are
inputs.
-/

namespace Spooled.Webhook

open List

abbrev WebhookId := Nat
abbrev LaneId := Nat

structure DeliveryLimits where
  maxConcurrent : Nat
  queueCapacity : Nat
  perWebhookConcurrency : Nat
  perWebhookQueue : Nat

def maxConsumers : Nat := 1024
def maxQueueCapacity : Nat := 2 ^ 20
def lanePruneThreshold : Nat := 1024

def clamp (n lo hi : Nat) : Nat := max lo (min n hi)

def DeliveryLimits.normalized (limits : DeliveryLimits) : DeliveryLimits :=
  let maxConcurrent := clamp limits.maxConcurrent 1 maxConsumers
  let queueCapacity := clamp limits.queueCapacity 1 maxQueueCapacity
  { maxConcurrent, queueCapacity
    perWebhookConcurrency := clamp limits.perWebhookConcurrency 1 maxConcurrent
    perWebhookQueue := clamp limits.perWebhookQueue 1 queueCapacity }

/-- The semaphores: the queue's, and two of each lane. -/
inductive Semaphore
  | admission
  | share (lane : LaneId)
  | slots (lane : LaneId)
  deriving DecidableEq

/-- The permits of a new semaphore. -/
def DeliveryLimits.permits (limits : DeliveryLimits) : Semaphore → Nat
  | .admission => limits.queueCapacity
  | .share _ => limits.perWebhookQueue
  | .slots _ => limits.perWebhookConcurrency

/-- An entry of the lane map. Lanes are numbered as they are made. -/
structure LaneEntry where
  webhook : WebhookId
  lane : LaneId

/-- Where an item is; `ready` is right before `enqueue`, `attempted` right after the attempt. -/
inductive Place
  | ready | queued | inHand | attempted | parked | sleeping | lost
  deriving DecidableEq

inductive Work
  | event (place : Place)
  /-- `fan_out`: the permit it carries, the share it took last, the webhooks it has yet to do. -/
  | fanOut (carried : Bool) (held : Option (WebhookId × LaneId)) (todo : List WebhookId)
  | delivery (webhook : WebhookId) (lane : LaneId) (laneSlot : Bool) (place : Place)
  /-- What has only its permit of the queue left to release. -/
  | spent

/-- The available permits and the lane map. A lane's semaphores outlive its entry; those of the
lanes not made yet are full. -/
structure Inner where
  free : Semaphore → Nat
  lanes : Table WebhookId LaneEntry LaneEntry.webhook
  lanesMade : Nat
  /-- Sends that found the channel full. -/
  refused : Nat

namespace Inner

variable (limits : DeliveryLimits) (s : Inner) (w : WebhookId)

def new : Inner := ⟨limits.permits, .empty, 0, 0⟩

def acquire (p : Semaphore) : Inner :=
  { s with free := fun q => if q = p then s.free q - 1 else s.free q }

def release (p : Semaphore) : Inner :=
  { s with free := fun q => if q = p then s.free q + 1 else s.free q }

def refuse : Inner := { s with refused := s.refused + 1 }

/-- The first part of `lane_share`: idle lanes go before another is made. -/
def prune : Inner :=
  if lanePruneThreshold ≤ s.lanes.rows.length ∧ (s.lanes.find w).isNone then
    { s with lanes := s.lanes.delete fun e => limits.perWebhookQueue ≤ s.free (.share e.lane) }
  else s

def entry : Inner × LaneId :=
  match s.lanes.find w with
  | some e => (s, e.lane)
  | none =>
    ({ s with lanes := s.lanes.insert ⟨w, s.lanesMade⟩, lanesMade := s.lanesMade + 1 }, s.lanesMade)

/-- `lane_share`, under the lock of the map. -/
def laneShare : Inner × Option LaneId :=
  let (s, lane) := (s.prune limits w).entry w
  if 0 < s.free (.share lane) then (s.acquire (.share lane), some lane) else (s, none)

end Inner

namespace Work

/-- The next step of an item: what becomes of the shared state, and the items in its place.
`rows` is what `fan_out` reads, `room` whether the channel has any. -/
def act (limits : DeliveryLimits) (s : Inner) (room : Bool) (rows : List WebhookId) :
    Work → Option (Inner × List Work)
  | .event .ready => some (if room then (s, [.event .queued]) else (s.refuse, [.spent]))
  | .event .queued => some (s, [.fanOut true none rows])
  | .event _ => none
  | .fanOut carried none [] => some (if carried then s.release .admission else s, [])
  | .fanOut carried none (w :: todo) =>
    let (s, lane) := s.laneShare limits w
    some (s, [.fanOut carried (lane.map (w, ·)) todo])
  | .fanOut true (some (w, lane)) todo =>
    some (s, [.delivery w lane false .ready, .fanOut false none todo])
  | .fanOut false (some (w, lane)) todo =>
    some (if 0 < s.free .admission then
      (s.acquire .admission, [.delivery w lane false .ready, .fanOut false none todo])
    else (s.release (.share lane), [.fanOut false none todo]))
  | .delivery w lane slot .ready =>
    some (if room then (s, [.delivery w lane slot .queued])
    else (s.refuse, [.delivery w lane slot .lost]))
  | .delivery w lane slot .queued => some (s, [.delivery w lane slot .inHand])
  | .delivery w lane false .inHand =>
    some (if 0 < s.free (.slots lane) then
      (s.acquire (.slots lane), [.delivery w lane true .inHand])
    else (s, [.delivery w lane false .parked]))
  | .delivery w lane true .inHand =>
    some (s.release (.slots lane), [.delivery w lane false .attempted])
  | .delivery w lane false .parked =>
    if 0 < s.free (.slots lane) then
      some (s.acquire (.slots lane), [.delivery w lane true .ready])
    else none
  -- `schedule_retry`; a resolved delivery is dropped instead
  | .delivery w lane slot .attempted => some (s, [.delivery w lane slot .sleeping])
  | .delivery w lane slot .sleeping => some (s, [.delivery w lane slot .ready])
  | .delivery .. => none
  | .spent => some (s.release .admission, [])

/-- The item is resolved, abandoned or lost in a panic: its first permit is released. -/
def drop (s : Inner) : Work → Option (Inner × List Work)
  | .event _ => some (s, [.spent])
  | .fanOut carried (some (_, lane)) _ =>
    some (s.release (.share lane), [.fanOut carried none []])
  | .fanOut carried none _ => some (s, [.fanOut carried none []])
  | .delivery w lane true _ => some (s.release (.slots lane), [.delivery w lane false .lost])
  | .delivery _ lane false _ => some (s.release (.share lane), [.spent])
  | .spent => none

def holds : Semaphore → Work → Bool
  | .admission, .fanOut carried _ _ => carried
  | .admission, _ => true
  | .share l, .fanOut _ held _ => held.any fun p => p.2 = l
  | .share l, .delivery _ lane _ _ => lane = l
  | .slots l, .delivery _ lane slot _ => lane = l && slot
  | _, _ => false

def isQueued : Work → Bool
  | .event place | .delivery _ _ _ place => place = .queued
  | _ => false

def isFor (w : WebhookId) : Work → Bool
  | .delivery v _ _ _ => v = w
  | _ => false

def hasSlotOf (w : WebhookId) : Work → Bool
  | .delivery v _ slot _ => v = w && slot
  | _ => false

end Work

structure Service where
  inner : Inner
  items : List Work

namespace Service

/-- The item at `i` takes a step of `f`. -/
def turn (s : Service) (i : Nat) (f : Work → Option (Inner × List Work)) : Option Service := do
  let x ← s.items[i]?
  let (inner, xs) ← f x
  return ⟨inner, s.items.take i ++ xs ++ s.items.drop (i + 1)⟩

inductive Label
  | queueEvent
  | dispatchEvent (rows : List WebhookId)
  | act (i : Nat) (rows : List WebhookId)
  | drop (i : Nat)

def next (limits : DeliveryLimits) (s : Service) : Label → Option Service
  | .queueEvent =>
    some (if 0 < s.inner.free .admission then
      ⟨s.inner.acquire .admission, .event .ready :: s.items⟩ else s)
  | .dispatchEvent rows => some { s with items := .fanOut false none rows :: s.items }
  | .act i rows =>
    let room := decide (s.items.countP Work.isQueued < limits.queueCapacity)
    s.turn i (Work.act limits s.inner room rows)
  | .drop i => s.turn i (Work.drop s.inner)

@[reducible] def machine (limits : DeliveryLimits) : Machine where
  State := Service
  Label := Label
  Init s := s = ⟨.new limits.normalized, []⟩
  next := next limits.normalized

end Service

/-! ## Permits are conserved -/

/-- The lane an item has a share of, and the webhook it is for. -/
def Work.lane : Work → Option (WebhookId × LaneId)
  | .fanOut _ held _ => held
  | .delivery w lane _ _ => some (w, lane)
  | _ => none

namespace Inner

variable {limits : DeliveryLimits} {s s' : Inner} {v w : WebhookId} {l : LaneId} {x : Work}
  {xs : List Work}

def laneOf (s : Inner) (w : WebhookId) : Option LaneId := (s.lanes.find w).map (·.lane)

/-- What a step of an item `x` may do: no permit is made or lost, a lane in use keeps its entry,
and a share is taken of the entry's lane only. -/
structure Trade (limits : DeliveryLimits) (s : Inner) (x : Work) (s' : Inner) (xs : List Work) :
    Prop where
  permits : ∀ p, s'.free p + xs.countP (Work.holds p) = s.free p + [x].countP (Work.holds p)
  lanes : ∀ w l, s.laneOf w = some l → s.free (.share l) < limits.perWebhookQueue →
    s'.laneOf w = some l
  held : ∀ y ∈ xs, ∀ w l, y.lane = some (w, l) → x.lane = some (w, l) ∨ s'.laneOf w = some l
  refused : s'.refused = s.refused

theorem laneOf_prune (h : s.laneOf v = some l)
    (hl : s.free (.share l) < limits.perWebhookQueue) : (s.prune limits w).laneOf v = some l := by
  obtain ⟨e, he, rfl⟩ := Option.map_eq_some_iff.1 h
  unfold prune laneOf
  split
  · simp [Table.find_delete, he, Option.filter, hl]
  · simp [he]

theorem laneOf_entry : (s.entry w).1.laneOf w = some (s.entry w).2 ∧
    ∀ v l, s.laneOf v = some l → (s.entry w).1.laneOf v = some l := by
  unfold entry laneOf
  split
  · next e he => simp [he]
  · next he =>
    refine ⟨by simp [Table.find_insert, he], fun v l hv => ?_⟩
    obtain ⟨e, he', rfl⟩ := Option.map_eq_some_iff.1 hv
    have hne : v ≠ w := by rintro rfl; simp [he] at he'
    simp [Table.find_insert, hne, he']

/-- The map is all that `prune` and `entry` write. -/
theorem entry_prune (limits : DeliveryLimits) (s : Inner) (w : WebhookId) : ∃ lanes lanesMade,
    ((s.prune limits w).entry w).1 = { s with lanes, lanesMade } := by
  unfold prune entry
  split <;> split <;> exact ⟨_, _, rfl⟩

theorem laneShare_trade (s : Inner) (carried : Bool) (w : WebhookId) (todo : List WebhookId) :
    Trade limits s (.fanOut carried none (w :: todo)) (s.laneShare limits w).1
      [.fanOut carried ((s.laneShare limits w).2.map (w, ·)) todo] := by
  obtain ⟨lanes, made, hs⟩ := entry_prune limits s w
  obtain ⟨hw, hkeep⟩ := @laneOf_entry (s.prune limits w) w
  replace hkeep v l h hl := hkeep v l (laneOf_prune h hl)
  unfold laneShare
  generalize (s.prune limits w).entry w = t at *
  obtain ⟨t, lane⟩ := t
  obtain rfl : t = { s with lanes := lanes, lanesMade := made } := hs
  simp only
  split
  · next hpos =>
    refine ⟨fun p => ?_, hkeep, fun y hy v l hv => ?_, rfl⟩
    · cases p <;> simp [acquire, Work.holds, countP_cons] <;> grind
    · obtain rfl := mem_singleton.1 hy
      cases hv
      exact .inr hw
  · exact ⟨fun p => by cases p <;> rfl, hkeep, by simp [Work.lane], rfl⟩

theorem act_trade {room : Bool} {rows : List WebhookId}
    (hroom : x.holds .admission = true → x.isQueued = false → room = true)
    (h : x.act limits s room rows = some (s', xs)) : Trade limits s x s' xs := by
  unfold Work.act at h
  split at h
  case h_5 =>
    cases h
    exact laneShare_trade ..
  all_goals try split at h
  all_goals cases h
  all_goals refine ⟨fun p => ?_, ?_, ?_, ?_⟩
  all_goals try cases p
  all_goals simp_all +contextual [Work.holds, Work.isQueued, Work.lane, acquire, release, laneOf,
    countP_cons]
  all_goals grind

theorem drop_trade (h : x.drop s = some (s', xs)) : Trade limits s x s' xs := by
  unfold Work.drop at h
  split at h
  all_goals cases h
  all_goals refine ⟨fun p => ?_, ?_, ?_, ?_⟩
  all_goals try cases p
  all_goals simp +contextual [Work.holds, Work.lane, release, laneOf, countP_cons]
  all_goals grind

end Inner

/-! ## The bounds -/

namespace Service

/-- Every permit is available or held, and a share is one of the webhook's lane. -/
structure Sound (limits : DeliveryLimits) (s : Service) : Prop where
  permits : ∀ p, s.inner.free p + s.items.countP (Work.holds p) = limits.permits p
  held : ∀ x ∈ s.items, ∀ w l, x.lane = some (w, l) → s.inner.laneOf w = some l
  refused : s.inner.refused = 0

variable {limits : DeliveryLimits} {s s' : Service}

theorem Sound.turn {i : Nat} {f : Work → Option (Inner × List Work)} (hs : Sound limits s)
    (hf : ∀ x ∈ s.items, ∀ t xs, f x = some (t, xs) → s.inner.Trade limits x t xs)
    (h : s.turn i f = some s') : Sound limits s' := by
  obtain ⟨x, hx, h⟩ := Option.bind_eq_some_iff.1 h
  obtain ⟨⟨t, xs⟩, hact, h⟩ := Option.bind_eq_some_iff.1 h
  obtain rfl := Option.some.inj h
  obtain ⟨hi, rfl⟩ := List.getElem?_eq_some_iff.1 hx
  have ht := hf _ (getElem_mem hi) t xs hact
  refine ⟨fun p => ?_, fun y hy w l hl => ?_, ht.refused.trans hs.refused⟩
  · have hsplit : s.items = s.items.take i ++ [s.items[i]] ++ s.items.drop (i + 1) := by simp
    have hitems := hs.permits p
    rw [hsplit, countP_append, countP_append] at hitems
    have := ht.permits p
    simp only [countP_append]
    omega
  · have hkeep : ∀ y ∈ s.items, y.lane = some (w, l) → t.laneOf w = some l := by
      intro y hy hl
      refine ht.lanes w l (hs.held y hy w l hl) ?_
      have : s.inner.free (.share l) + _ = limits.perWebhookQueue := hs.permits (.share l)
      have : 0 < s.items.countP (Work.holds (.share l)) :=
        countP_pos_iff.2 ⟨y, hy, by cases y <;> simp_all [Work.holds, Work.lane]⟩
      omega
    simp only [mem_append] at hy
    rcases hy with (hy | hy) | hy
    · exact hkeep y (mem_of_mem_take hy) hl
    · exact (ht.held y hy w l hl).elim (hkeep _ (getElem_mem hi)) id
    · exact hkeep y (mem_of_mem_drop hy) hl

theorem Sound.room (hs : Sound limits s) {x : Work} (hx : x ∈ s.items)
    (ha : x.holds .admission = true) (hq : x.isQueued = false) :
    s.items.countP Work.isQueued < limits.queueCapacity := by
  have hcap : _ + s.items.countP _ = limits.queueCapacity := hs.permits .admission
  have hle : ∀ l : List Work, l.countP Work.isQueued ≤ l.countP (Work.holds .admission) := fun l =>
    countP_mono_left fun y _ hy => by cases y <;> first | rfl | nomatch hy
  obtain ⟨l, r, hsplit⟩ := append_of_mem hx
  have := hle l
  have := hle r
  simp only [hsplit, countP_append, countP_cons, ha, hq, if_true, Bool.false_eq_true,
    if_false] at hcap ⊢
  omega

theorem Sound.next {a : Label} (hs : Sound limits s) (h : s.next limits a = some s') :
    Sound limits s' := by
  cases a with
  | queueEvent =>
    obtain rfl := Option.some.inj h
    split
    · next hpos =>
      refine ⟨fun p => ?_, forall_mem_cons.2 ⟨nofun, hs.held⟩, hs.refused⟩
      have := hs.permits p
      cases p <;> simp [Inner.acquire, Work.holds, countP_cons] <;> omega
    · exact hs
  | dispatchEvent rows =>
    obtain rfl := Option.some.inj h
    refine ⟨fun p => ?_, forall_mem_cons.2 ⟨nofun, hs.held⟩, hs.refused⟩
    rw [← hs.permits p, countP_cons_of_neg (by cases p <;> nofun)]
  | act i rows =>
    exact hs.turn (fun x hx _ _ => Inner.act_trade fun ha hq => decide_eq_true (hs.room hx ha hq)) h
  | drop i => exact hs.turn (fun x _ t xs => Inner.drop_trade) h

theorem Sound.of_run {h : List (Service × Label)} (hr : (machine limits).Run s h) :
    Sound limits.normalized s := by
  refine hr.state_invariant (fun s hs => ?_) fun _ _ _ hs => hs.next
  subst hs
  exact ⟨fun _ => rfl, nofun, rfl⟩

/-- **The queue is bounded and shared.** At most `queue_capacity` events and deliveries hold a
permit of the queue, so no send finds the channel full, and no webhook has more than its share of
deliveries or slots, whichever lanes it had. -/
theorem delivery_queue_bounded (limits : DeliveryLimits) {s : Service} {h : List (Service × Label)}
    (hr : (machine limits).Run s h) :
    s.items.countP (Work.holds .admission) ≤ limits.normalized.queueCapacity ∧
      s.inner.refused = 0 ∧
      ∀ w, s.items.countP (Work.isFor w) ≤ limits.normalized.perWebhookQueue ∧
        s.items.countP (Work.hasSlotOf w) ≤ limits.normalized.perWebhookConcurrency := by
  have hs := Sound.of_run hr
  have hle p : s.items.countP (Work.holds p) ≤ limits.normalized.permits p := by
    have := hs.permits p
    omega
  refine ⟨hle .admission, hs.refused, fun w => ?_⟩
  -- the deliveries of a webhook are all on one lane
  obtain ⟨l, hl⟩ : ∃ l, ∀ v k slot place, .delivery v k slot place ∈ s.items → v = w → k = l := by
    refine ⟨(s.inner.laneOf w).getD 0, ?_⟩
    rintro v k slot place hx rfl
    rw [hs.held _ hx v k rfl, Option.getD_some]
  refine ⟨(countP_mono_left fun x hx hw => ?_).trans (hle (.share l)),
    (countP_mono_left fun x hx hw => ?_).trans (hle (.slots l))⟩
  all_goals
    cases x with
    | delivery v k slot place =>
      have := hl v k slot place hx
      simp_all [Work.isFor, Work.hasSlotOf, Work.holds]
    | _ => nomatch hw

/-- A delivery under way fills the queue. -/
theorem delivery_queue_bounded_one : ∃ s h, (machine ⟨1, 1, 1, 1⟩).Run s h ∧
    s.items.countP (Work.hasSlotOf 7) = 1 ∧ s.items.countP (Work.isFor 7) ≤ 1 := by
  obtain ⟨s, h, hr, hp⟩ := Machine.Run.of_exec (machine ⟨1, 1, 1, 1⟩)
    [.queueEvent, .act 0 [], .act 0 [7], .act 0 [], .act 0 [], .act 0 [], .act 0 [], .act 0 [],
      .queueEvent] ⟨.new (DeliveryLimits.normalized ⟨1, 1, 1, 1⟩), []⟩
    (fun x => x.1.items.countP (Work.hasSlotOf 7) == 1) rfl (by decide +kernel)
  exact ⟨s, h, hr, beq_iff_eq.1 hp, ((delivery_queue_bounded _ hr).2.2 7).1⟩

end Service

end Spooled.Webhook
