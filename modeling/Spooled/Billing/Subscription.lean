import Spooled.Store.Row
import Spooled.Lib.Commands

/-!
# Subscriptions of one organization

Stripe creates, changes and deletes subscriptions and tells about it by events, in
the order of their creation; the events are delivered in any order, and again until
one delivery is answered 200. The handlers keep the organization's columns about its
subscription up to date. Every statement and every call to Stripe is a step of its
own; a subscription is fetched as it is at that moment. An event that was answered or
is being handled is not handled again, unless its row in `processed_stripe_events` is
stale or pruned by then.

The store also keeps what the statements are about: the events that were answered,
the subscriptions whose deletion came while the organization was not on them, and
the checkout that put the organization on a subscription which is not reconciled yet.
-/

namespace Spooled.Billing

abbrev CustomerId := Nat

abbrev SubId := Nat

/-! ## Stripe's side -/

inductive SubStatus
  | incomplete | trialing | active | pastDue | paused | unpaid | incompleteExpired | canceled
deriving DecidableEq, Repr

/-- `is_terminal_subscription_status`. -/
def SubStatus.isTerminal : SubStatus → Bool
  | unpaid | incompleteExpired | canceled => true
  | _ => false

/-- `plan_tier` of an organization that is not deleted. -/
inductive Tier
  | free | starter | pro | enterprise
deriving DecidableEq, Repr

/-- A subscription as Stripe reports it; `price` is what `determine_plan_tier` makes of it. -/
structure Subscription where
  id : SubId
  customer : CustomerId
  status : SubStatus
  price : Option Tier
deriving DecidableEq, Repr

/-- `resolve_plan_tier`. -/
def Subscription.planTier (b : Subscription) : Option Tier :=
  if b.status.isTerminal then some .free
  else if b.status = .incomplete then none
  else b.price

structure StripeSub where
  current : Subscription
  deletedAt : Option Time := none
deriving DecidableEq, Repr

def StripeSub.id (x : StripeSub) : SubId := x.current.id

inductive EventBody
  /-- `checkout.session.completed`; `trusted`: created by this server. -/
  | checkout (paid trusted emailMatches : Bool) (customer : CustomerId) (sub : Option SubId)
  /-- `customer.subscription.created` and `updated`. -/
  | subscription (b : Subscription)
  | deleted (customer : CustomerId) (sub : SubId)
  /-- `invoice.paid` and `invoice.payment_failed`. -/
  | invoice (paid : Bool) (customer : CustomerId) (sub : SubId)
deriving DecidableEq, Repr

/-- No two events have one creation time, so it names the event. -/
structure StripeEvent where
  created : Time
  body : EventBody
deriving DecidableEq, Repr

/-! ## The organization -/

structure OrgBilling where
  customer : Option CustomerId := none
  sub : Option SubId := none
  status : Option SubStatus := none
  tier : Tier := .free
  lastEventAt : Option Time := none
  superseded : List SubId := []
deriving DecidableEq, Repr

namespace OrgBilling

variable (o : OrgBilling)

/-- `stripe_last_event_at IS NULL OR stripe_last_event_at <= $t`. -/
def admits (t : Time) : Bool := o.lastEventAt.all fun u => decide (u ≤ t)

def relinks (trusted emailMatches : Bool) (sub : Option SubId) (t : Time) : Bool :=
  o.admits t && (trusted || (emailMatches &&
    (o.sub.isNone || (sub.isSome && o.sub == sub) || o.status.any (·.isTerminal))))

/-- The subscription that a checkout of this server replaces. -/
def replaced (sub : Option SubId) : List SubId :=
  match sub, o.sub with
  | some new, some old =>
    if old ≠ new && !(o.status == some .canceled || o.status == some .incompleteExpired) &&
        !o.superseded.contains old then [old] else []
  | _, _ => []

def relink (trusted : Bool) (customer : CustomerId) (sub : Option SubId) (t : Time) : OrgBilling :=
  { o with
    customer := some customer
    sub := sub.or o.sub
    superseded := o.superseded ++ (if trusted then o.replaced sub else [])
    lastEventAt := some t }

/-- The write of `reconcile_org_from_subscription_id`. -/
def reconcile (b : Subscription) : OrgBilling :=
  { o with
    customer := some b.customer
    sub := some b.id
    status := some b.status
    tier := b.planTier.getD o.tier }

/-- The condition of `handle_subscription_updated`. -/
def takes (b : Subscription) (t : Time) : Bool :=
  o.customer == some b.customer && o.admits t &&
    (o.sub == some b.id ||
      (!b.status.isTerminal && (o.sub.isNone || o.status.any (·.isTerminal))))

def take (b : Subscription) (t : Time) : OrgBilling :=
  { o with
    sub := if b.status.isTerminal then none else some b.id
    status := some b.status
    tier := if b.status = .incomplete then o.tier else b.planTier.getD o.tier
    lastEventAt := some t }

/-- Linked to the customer, and on the subscription or on none. -/
def isOn (customer : CustomerId) (sub : SubId) : Bool :=
  o.customer == some customer && (o.sub.isNone || o.sub == some sub)

/-- `handle_subscription_deleted`. -/
def downgrade (t : Time) : OrgBilling :=
  { o with sub := none, status := some .canceled, tier := .free, lastEventAt := some t }

def bills (customer : CustomerId) (sub : SubId) (t : Time) : Bool :=
  o.customer == some customer && o.sub == some sub && o.status != some .canceled && o.admits t

def forget (sub : SubId) : OrgBilling := { o with superseded := o.superseded.filter (· != sub) }

end OrgBilling

/-! ## Commands -/

structure BillingStore where
  /-- The creation time of the last event. -/
  clock : Time := 0
  subs : Table SubId StripeSub StripeSub.id := .empty
  events : Table Time StripeEvent StripeEvent.created := .empty
  org : OrgBilling := {}
  answered : List Time := []
  missed : List SubId := []
  relinked : Option Time := none

inductive BillingCommand
  -- at Stripe
  | create (customer : CustomerId) (status : SubStatus) (price : Option Tier)
  | change (sub : SubId) (status : SubStatus) (price : Option Tier)
  | delete (sub : SubId)
  | emit (body : EventBody)
  -- statements
  | relink (trusted : Bool) (customer : CustomerId) (sub : Option SubId) (t : Time)
  | reconcile (b : Subscription)
  | take (b : Subscription) (t : Time)
  | downgrade (customer : CustomerId) (sub : SubId) (t : Time)
  | bill (paid : Bool)
  | forget (sub : SubId)
  | answer (t : Time)

namespace BillingStore

variable (s : BillingStore)

def emit (body : EventBody) : BillingStore :=
  { s with clock := s.clock + 1, events := s.events.insert ⟨s.clock + 1, body⟩ }

/-- The subscription, unless it has been deleted. -/
def live (sub : SubId) : Option StripeSub := (s.subs.find sub).filter (·.deletedAt.isNone)

def setSub (sub : SubId) (f : StripeSub → StripeSub) (hf : ∀ x, (f x).id = x.id) :
    Table SubId StripeSub StripeSub.id := s.subs.update (·.id == sub) f hf

end BillingStore

def StripeSub.change (status : SubStatus) (price : Option Tier) (x : StripeSub) : StripeSub :=
  { x with current := { x.current with status, price } }

def StripeSub.delete (t : Time) (x : StripeSub) : StripeSub :=
  { current := { x.current with status := .canceled }, deletedAt := some t }

def BillingCommand.run (s : BillingStore) : BillingCommand → BillingStore
  | create customer status price =>
    let b : Subscription := ⟨s.clock + 1, customer, status, price⟩
    { s.emit (.subscription b) with subs := s.subs.insert { current := b } }
  | change sub status price =>
    match s.live sub with
    | none => s
    | some x =>
      { s.emit (.subscription (x.change status price).current) with
        subs := s.setSub sub (StripeSub.change status price) fun _ => rfl }
  | delete sub =>
    match s.live sub with
    | none => s
    | some x =>
      { s.emit (.deleted x.current.customer sub) with
        subs := s.setSub sub (StripeSub.delete (s.clock + 1)) fun _ => rfl }
  | emit body => s.emit body
  | relink trusted customer sub t =>
    { s with org := s.org.relink trusted customer sub t, relinked := sub.map fun _ => t }
  | reconcile b => { s with org := s.org.reconcile b, relinked := none }
  | take b t => { s with org := s.org.take b t, relinked := none }
  | downgrade customer sub t =>
    if s.org.isOn customer sub then
      if s.org.admits t then { s with org := s.org.downgrade t, relinked := none } else s
    else { s with missed := sub :: s.missed }
  | bill paid => { s with org := { s.org with status := some (if paid then .active else .pastDue) } }
  | forget sub => { s with org := s.org.forget sub }
  | answer t => { s with answered := t :: s.answered }

/-! ## Handlers -/

inductive HandlerPhase
  | start
  | fetch
  | write (b : Subscription)
  -- `cancel_superseded_subscriptions`
  | superseded
  | retire (ids : List SubId) (current : Option SubId) (failed : Bool)
  | forget (id : SubId) (ids : List SubId) (current : Option SubId) (failed : Bool)
  -- `org_linked_to_customer`
  | linked
  | forgetDeleted
  | answer
deriving DecidableEq, Repr

/-- A delivery of the event, from the start of its handler to the answer. What the calls to Stripe
and the clock say is an input. -/
structure Handler where
  event : StripeEvent
  /-- `should_request_retry_for_unlinked`. -/
  retries : Bool := true
  fetchFails : Bool := false
  cancelFails : Bool := false
  phase : HandlerPhase := .start
deriving DecidableEq, Repr

inductive StripeAct
  | create (customer : CustomerId) (status : SubStatus) (price : Option Tier)
  | change (sub : SubId) (status : SubStatus) (price : Option Tier)
  | delete (sub : SubId)
  | checkout (paid trusted emailMatches : Bool) (sub : SubId)
  /-- A checkout that is not for a subscription. -/
  | payment (paid trusted emailMatches : Bool) (customer : CustomerId)
  | invoice (paid : Bool) (sub : SubId)
deriving DecidableEq, Repr

inductive BillingProc
  /-- A delivery of the event of that time, not yet begun; `takesOver`: what an earlier delivery
  left in `processed_stripe_events` is stale or pruned. -/
  | delivery (t : Time) (retries fetchFails cancelFails takesOver : Bool)
  | handler (p : Handler)
  | stripe (a : StripeAct)
deriving DecidableEq, Repr

def BillingProc.handles (event : StripeEvent) : BillingProc → Bool
  | handler q => q.event == event
  | _ => false

abbrev BillingTurn := Turn BillingCommand BillingProc

namespace Handler

variable (p : Handler)

def goTo (phase : HandlerPhase) : BillingTurn := .stay (.handler { p with phase })

def runs (c : BillingCommand) (phase : HandlerPhase) : BillingTurn :=
  .run c (some (.handler { p with phase }))

section

variable (s : BillingStore)

/-- `handle_checkout_completed`. -/
def checkout (paid trusted emailMatches : Bool) (customer : CustomerId)
    (sub : Option SubId) : BillingTurn :=
  let rest : HandlerPhase := if trusted then .superseded else .answer
  match p.phase with
  | .start =>
    if !paid then p.goTo .answer
    else if s.org.relinks trusted emailMatches sub p.event.created then
      p.runs (.relink trusted customer sub p.event.created) (if sub.isSome then .fetch else rest)
    else p.goTo rest
  | .fetch =>
    match sub.bind s.subs.find with
    | some x => if p.fetchFails then .quit else p.goTo (.write x.current)
    | none => .quit
  | .write b => p.runs (.reconcile b) rest
  | .superseded => p.goTo (.retire s.org.superseded s.org.sub false)
  | .retire [] _ failed => if failed then .quit else p.goTo .answer
  | .retire (id :: ids) current failed =>
    if current = some id then p.goTo (.forget id ids current failed)
    else if p.cancelFails then p.goTo (.retire ids current true)
    else p.runs (.delete id) (.forget id ids current failed)
  | .forget id ids current failed => p.runs (.forget id) (.retire ids current failed)
  | .answer => .run (.answer p.event.created) none
  | _ => .quit

/-- Events that match no row, before the organization is linked, are asked for again. -/
def unmatched (customer : CustomerId) : BillingTurn :=
  if s.org.customer == some customer || !p.retries then p.goTo .answer else .quit

/-- `handle_subscription_updated`. -/
def subscription (b : Subscription) : BillingTurn :=
  match p.phase with
  | .start =>
    if s.org.takes b p.event.created then p.runs (.take b p.event.created) .answer
    else p.goTo .linked
  | .linked => p.unmatched s b.customer
  | .answer => .run (.answer p.event.created) none
  | _ => .quit

/-- `handle_subscription_deleted`. -/
def deleted (customer : CustomerId) (sub : SubId) : BillingTurn :=
  match p.phase with
  | .start => p.runs (.downgrade customer sub p.event.created) .forgetDeleted
  | .forgetDeleted => p.runs (.forget sub) .answer
  | .answer => .run (.answer p.event.created) none
  | _ => .quit

/-- `handle_invoice_paid` and `handle_payment_failed`. -/
def invoice (paid : Bool) (customer : CustomerId) (sub : SubId) : BillingTurn :=
  match p.phase with
  | .start =>
    if s.org.bills customer sub p.event.created then p.runs (.bill paid) .answer
    else p.goTo .linked
  | .linked => p.unmatched s customer
  | .answer => .run (.answer p.event.created) none
  | _ => .quit

def act : BillingTurn :=
  match p.event.body with
  | .checkout paid trusted emailMatches customer sub =>
    p.checkout s paid trusted emailMatches customer sub
  | .subscription b => p.subscription s b
  | .deleted customer sub => p.deleted customer sub
  | .invoice paid customer sub => p.invoice s paid customer sub

end

end Handler

def StripeAct.act (s : BillingStore) : StripeAct → BillingTurn
  | create customer status price => .run (.create customer status price) none
  | change sub status price => .run (.change sub status price) none
  | delete sub => .run (.delete sub) none
  | checkout paid trusted emailMatches sub =>
    match s.subs.find sub with
    | some x => .run (.emit (.checkout paid trusted emailMatches x.current.customer (some sub))) none
    | none => .quit
  | payment paid trusted emailMatches customer =>
    .run (.emit (.checkout paid trusted emailMatches customer none)) none
  | invoice paid sub =>
    match s.subs.find sub with
    | some x => .run (.emit (.invoice paid x.current.customer sub)) none
    | none => .quit

def BillingProc.act (s : BillingStore) (os : List BillingProc) : BillingProc → BillingTurn
  | delivery t retries fetchFails cancelFails takesOver =>
    match s.events.find t with
    | some event =>
      if (s.answered.contains t || os.any (·.handles event)) && !takesOver then .quit
      else .stay (.handler { event, retries, fetchFails, cancelFails })
    | none => .quit
  | handler p => p.act s
  | stripe a => a.act s

inductive BillingAsk
  | deliver (t : Time) (retries fetchFails cancelFails takesOver : Bool)
  | stripe (a : StripeAct)

def BillingAsk.proc : BillingAsk → BillingProc
  | deliver t retries fetchFails cancelFails takesOver =>
    .delivery t retries fetchFails cancelFails takesOver
  | stripe a => .stripe a

/-- Stripe, and the handlers of its events for one organization. -/
def subscriptions : CommandSpec where
  Store := BillingStore
  Proc := BillingProc
  Ask := BillingAsk
  Command := BillingCommand
  start s a := (s, a.proc)
  run := BillingCommand.run
  act s os p := some (p.act s os)

/-! ## What a handler can do -/

variable {s : BillingStore} {p : Handler} {c : BillingCommand} {proc : BillingProc}
  {q : Option BillingProc}

/-- The checkout is linked and reconciled, or it is not to be. -/
def HandlerPhase.isPast : HandlerPhase → Bool
  | superseded | retire .. | forget .. | answer => true
  | _ => false

inductive Handler.Goes (s : BillingStore) (p : Handler) : HandlerPhase → Prop
  | unpaid {trusted emailMatches : Bool} {customer : CustomerId} {sub : Option SubId}
      (hbody : p.event.body = .checkout false trusted emailMatches customer sub) : Goes s p .answer
  | skipped {trusted emailMatches : Bool} {customer : CustomerId} {sub : Option SubId}
      {phase : HandlerPhase}
      (hbody : p.event.body = .checkout true trusted emailMatches customer sub)
      (hno : s.org.relinks trusted emailMatches sub p.event.created = false) : Goes s p phase
  | fetched {b : Subscription} : Goes s p (.write b)
  | retiring {paid trusted emailMatches : Bool} {customer : CustomerId} {sub : Option SubId}
      {phase : HandlerPhase}
      (hbody : p.event.body = .checkout paid trusted emailMatches customer sub)
      (h : p.phase.isPast = true) : Goes s p phase
  | subscription {b : Subscription} {phase : HandlerPhase} (hbody : p.event.body = .subscription b) :
      Goes s p phase
  | invoice {paid : Bool} {customer : CustomerId} {sub : SubId} {phase : HandlerPhase}
      (hbody : p.event.body = .invoice paid customer sub) : Goes s p phase

/-- Its commands; `none`: the answer. -/
inductive Handler.Runs (s : BillingStore) (p : Handler) :
    BillingCommand → Option HandlerPhase → Prop
  | relink {trusted emailMatches : Bool} {customer : CustomerId} {sub : Option SubId}
      {rest : HandlerPhase}
      (hbody : p.event.body = .checkout true trusted emailMatches customer sub)
      (h : p.phase = .start) (hyes : s.org.relinks trusted emailMatches sub p.event.created = true) :
      Runs s p (.relink trusted customer sub p.event.created)
        (some (if sub.isSome then .fetch else rest))
  | reconcile {paid trusted emailMatches : Bool} {customer : CustomerId} {sub : Option SubId}
      {b : Subscription} {rest : HandlerPhase}
      (hbody : p.event.body = .checkout paid trusted emailMatches customer sub)
      (h : p.phase = .write b) : Runs s p (.reconcile b) (some rest)
  | cancel {paid trusted emailMatches : Bool} {customer : CustomerId} {sub : Option SubId}
      {id : SubId} {phase : HandlerPhase}
      (hbody : p.event.body = .checkout paid trusted emailMatches customer sub)
      (h : p.phase.isPast = true) : Runs s p (.delete id) (some phase)
  | forget {paid trusted emailMatches : Bool} {customer : CustomerId} {sub : Option SubId}
      {id : SubId} {phase : HandlerPhase}
      (hbody : p.event.body = .checkout paid trusted emailMatches customer sub)
      (h : p.phase.isPast = true) : Runs s p (.forget id) (some phase)
  | take {b : Subscription} (hbody : p.event.body = .subscription b) (h : p.phase = .start)
      (htakes : s.org.takes b p.event.created = true) :
      Runs s p (.take b p.event.created) (some .answer)
  | downgrade {customer : CustomerId} {sub : SubId} (hbody : p.event.body = .deleted customer sub) :
      Runs s p (.downgrade customer sub p.event.created) (some .forgetDeleted)
  | forgetDeleted {customer : CustomerId} {sub : SubId}
      (hbody : p.event.body = .deleted customer sub) (h : p.phase = .forgetDeleted) :
      Runs s p (.forget sub) (some .answer)
  | bill {paid : Bool} {customer : CustomerId} {sub : SubId}
      (hbody : p.event.body = .invoice paid customer sub) : Runs s p (.bill paid) (some .answer)
  | answer (h : p.phase = .answer) : Runs s p (.answer p.event.created) none

def Handler.Turns (s : BillingStore) (p : Handler) (t : BillingTurn) : Prop :=
  Turn.Allowed (fun q => ∃ phase, q = .handler { p with phase } ∧ p.Goes s phase)
    (fun c q => ∃ phase, q = phase.map (fun phase => .handler { p with phase }) ∧ p.Runs s c phase)
    (some t)

theorem Handler.turns_checkout {paid trusted emailMatches : Bool} {customer : CustomerId}
    {sub : Option SubId} (hbody : p.event.body = .checkout paid trusted emailMatches customer sub) :
    p.Turns s (p.checkout s paid trusted emailMatches customer sub) := by
  cases hphase : p.phase <;> simp only [checkout, hphase]
  case start =>
    cases paid with
    | false => exact .stay ⟨_, rfl, .unpaid hbody⟩
    | true =>
      simp only [Bool.not_true, Bool.false_eq_true, if_false]
      cases hrel : s.org.relinks trusted emailMatches sub p.event.created with
      | false => exact .stay ⟨_, rfl, .skipped hbody hrel⟩
      | true => exact .run ⟨_, rfl, .relink hbody hphase hrel⟩
  case fetch =>
    split
    · split
      · exact .quit
      · exact .stay ⟨_, rfl, .fetched⟩
    · exact .quit
  case write b => exact .run ⟨_, rfl, .reconcile hbody hphase⟩
  case superseded => exact .stay ⟨_, rfl, .retiring hbody (by rw [hphase]; rfl)⟩
  case retire ids current failed =>
    have hpast : p.phase.isPast = true := by rw [hphase]; rfl
    cases ids with
    | nil =>
      dsimp only
      split
      · exact .quit
      · exact .stay ⟨_, rfl, .retiring hbody hpast⟩
    | cons id ids =>
      dsimp only
      split
      · exact .stay ⟨_, rfl, .retiring hbody hpast⟩
      · split
        · exact .stay ⟨_, rfl, .retiring hbody hpast⟩
        · exact .run ⟨_, rfl, .cancel hbody hpast⟩
  case forget id ids current failed => exact .run ⟨_, rfl, .forget hbody (by rw [hphase]; rfl)⟩
  case answer => exact .run ⟨_, rfl, .answer hphase⟩
  case linked | forgetDeleted => exact .quit

theorem Handler.turns_subscription {b : Subscription} (hbody : p.event.body = .subscription b) :
    p.Turns s (p.subscription s b) := by
  cases hphase : p.phase <;> simp only [subscription, hphase]
  case start =>
    split
    · next h => exact .run ⟨_, rfl, .take hbody hphase h⟩
    · exact .stay ⟨_, rfl, .subscription hbody⟩
  case linked =>
    simp only [unmatched]
    split
    · exact .stay ⟨_, rfl, .subscription hbody⟩
    · exact .quit
  case answer => exact .run ⟨_, rfl, .answer hphase⟩
  all_goals exact .quit

theorem Handler.turns_deleted {customer : CustomerId} {sub : SubId}
    (hbody : p.event.body = .deleted customer sub) : p.Turns s (p.deleted customer sub) := by
  cases hphase : p.phase <;> simp only [deleted, hphase]
  case start => exact .run ⟨_, rfl, .downgrade hbody⟩
  case forgetDeleted => exact .run ⟨_, rfl, .forgetDeleted hbody hphase⟩
  case answer => exact .run ⟨_, rfl, .answer hphase⟩
  all_goals exact .quit

theorem Handler.turns_invoice {paid : Bool} {customer : CustomerId} {sub : SubId}
    (hbody : p.event.body = .invoice paid customer sub) :
    p.Turns s (p.invoice s paid customer sub) := by
  cases hphase : p.phase <;> simp only [invoice, hphase]
  case start =>
    split
    · exact .run ⟨_, rfl, .bill hbody⟩
    · exact .stay ⟨_, rfl, .invoice hbody⟩
  case linked =>
    simp only [unmatched]
    split
    · exact .stay ⟨_, rfl, .invoice hbody⟩
    · exact .quit
  case answer => exact .run ⟨_, rfl, .answer hphase⟩
  all_goals exact .quit

theorem Handler.turns (p : Handler) : p.Turns s (p.act s) := by
  unfold act
  cases hbody : p.event.body with
  | checkout => exact turns_checkout hbody
  | subscription => exact turns_subscription hbody
  | deleted => exact turns_deleted hbody
  | invoice => exact turns_invoice hbody

end Spooled.Billing
