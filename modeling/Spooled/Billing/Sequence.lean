import Spooled.Billing.Subscription

/-!
# Billing events one after another

Whole handlers as functions of the organization, with Stripe as it is when it is
asked, and whether a subscription that has ended stays linked.
-/

namespace Spooled.Billing

open List

/-! ## Handlers -/

/-- What Stripe answers at the moment of a delivery. -/
structure Stripe where
  fetch : SubId → Subscription
  cancels : SubId → Bool

inductive Notice
  | event (e : StripeEvent)
  /-- `checkout.session.async_payment_failed`. -/
  | asyncPaymentFailed (sub : Option SubId)

namespace OrgBilling

variable (o : OrgBilling) (stripe : Stripe)

/-- `cancel_superseded_subscriptions`: what Stripe does not cancel stays on the list. -/
def cancelSuperseded : OrgBilling :=
  { o with superseded := o.superseded.filter fun id => o.sub != some id && !stripe.cancels id }

/-- `handle_async_payment_failed`. -/
def expire : OrgBilling :=
  { o with sub := none, status := some .incompleteExpired, tier := .free }

/-- `handle_checkout_completed`, up to the cancel calls. -/
def checkout (trusted : Bool) (customer : CustomerId)
    (sub : Option SubId) (t : Time) : OrgBilling :=
  match sub with
  | none => o.relink trusted customer none t
  | some id => (o.relink trusted customer (some id) t).reconcile { stripe.fetch id with id }

def billed (paid : Bool) : OrgBilling :=
  { o with status := some (if paid then .active else .pastDue) }

def handle : Notice → OrgBilling
  | .event ⟨t, .checkout paid trusted emailMatches customer sub⟩ =>
    let linked := if paid && o.relinks trusted emailMatches sub t then
      o.checkout stripe trusted customer sub t else o
    if paid && trusted then linked.cancelSuperseded stripe else linked
  | .event ⟨t, .subscription b⟩ => if o.takes b t then o.take b t else o
  | .event ⟨t, .deleted customer sub⟩ =>
    (if o.isOn customer sub && o.admits t then o.downgrade t else o).forget sub
  | .event ⟨t, .invoice paid customer sub⟩ =>
    if o.bills customer sub t then o.billed paid else o
  | .asyncPaymentFailed sub =>
    if sub.isSome && o.sub == sub && o.status == some .incomplete then o.expire else o

/-! ## Ended subscriptions -/

def NoDeadLink : Prop := o.status.any (·.isTerminal) = true → o.sub = none

end OrgBilling

/-- A paid checkout that links a subscription is handled before that has ended. -/
def AsksLive (o : OrgBilling) (stripe : Stripe) : Notice → Prop
  | .event ⟨t, .checkout true trusted emailMatches _ (some sub)⟩ =>
    o.relinks trusted emailMatches (some sub) t = true →
      (stripe.fetch sub).status.isTerminal = false
  | _ => True

namespace OrgBilling

variable {o : OrgBilling} {stripe : Stripe} {n : Notice}

theorem NoDeadLink.checkout_iff (h : o.NoDeadLink) {trusted : Bool} {customer : CustomerId}
    {sub : Option SubId} {t : Time} : (o.checkout stripe trusted customer sub t).NoDeadLink ↔
      ∀ id, sub = some id → (stripe.fetch id).status.isTerminal = false := by
  cases sub with
  | none => exact iff_of_true (fun hdead => h hdead) nofun
  | some id =>
    constructor
    · rintro hno _ ⟨⟩
      exact eq_false_of_ne_true fun hend => nomatch hno hend
    · intro hlive hdead
      have hend : (stripe.fetch id).status.isTerminal = true := hdead
      rw [hlive id rfl] at hend
      cases hend

theorem NoDeadLink.handle_iff (h : o.NoDeadLink) :
    (o.handle stripe n).NoDeadLink ↔ AsksLive o stripe n := by
  match n with
  | .event ⟨t, .checkout false trusted emailMatches customer sub⟩ => exact iff_of_true h trivial
  | .event ⟨t, .checkout true trusted emailMatches customer sub⟩ =>
    have hlinked : NoDeadLink (if o.relinks trusted emailMatches sub t then
        o.checkout stripe trusted customer sub t else o) ↔
        AsksLive o stripe (.event ⟨t, .checkout true trusted emailMatches customer sub⟩) := by
      split
      · next hrel =>
        rw [h.checkout_iff]
        cases sub with
        | none => exact iff_of_true nofun trivial
        | some id =>
          refine ⟨fun hlive _ => hlive id rfl, ?_⟩
          rintro hlive _ ⟨⟩
          exact hlive hrel
      · next hrel =>
        refine iff_of_true h ?_
        cases sub with
        | none => trivial
        | some id => exact fun hyes => absurd hyes hrel
    unfold OrgBilling.handle
    simp only [Bool.true_and]
    split
    · exact hlinked
    · exact hlinked
  | .event ⟨t, .subscription b⟩ =>
    refine iff_of_true ?_ trivial
    unfold OrgBilling.handle
    dsimp only
    split
    · intro hdead
      exact if_pos hdead
    · exact h
  | .event ⟨t, .deleted customer sub⟩ =>
    refine iff_of_true ?_ trivial
    unfold OrgBilling.handle
    dsimp only
    split
    · exact fun _ => rfl
    · exact h
  | .event ⟨t, .invoice paid customer sub⟩ =>
    refine iff_of_true ?_ trivial
    unfold OrgBilling.handle
    dsimp only
    split
    · intro hdead
      cases paid <;> cases hdead
    · exact h
  | .asyncPaymentFailed sub =>
    refine iff_of_true ?_ trivial
    unfold OrgBilling.handle
    dsimp only
    split
    · exact fun _ => rfl
    · exact h

end OrgBilling

/-- Deliveries one after another, each with Stripe as it was then. -/
def handleAll (o : OrgBilling) (ds : List (Stripe × Notice)) : OrgBilling :=
  ds.foldl (fun o d => o.handle d.1 d.2) o

def AllAskLive (o : OrgBilling) : List (Stripe × Notice) → Prop
  | [] => True
  | d :: ds => AsksLive o d.1 d.2 ∧ AllAskLive (o.handle d.1 d.2) ds

/-- **An ended subscription is never linked** between deliveries, in any order and however often
they come, if and only if each checkout that links one is handled before it has ended. -/
theorem dead_subscription_not_linked {o : OrgBilling} (h : o.NoDeadLink)
    (ds : List (Stripe × Notice)) :
    (∀ k, (handleAll o (ds.take k)).NoDeadLink) ↔ AllAskLive o ds := by
  induction ds generalizing o with
  | nil => exact iff_of_true (fun k => by rw [take_nil]; exact h) trivial
  | cons d ds ih =>
    have hsplit : (∀ k, (handleAll o ((d :: ds).take k)).NoDeadLink) ↔
        ∀ k, (handleAll (o.handle d.1 d.2) (ds.take k)).NoDeadLink := by
      refine ⟨fun hall k => hall (k + 1), fun hall k => ?_⟩
      cases k with
      | zero => exact h
      | succ k => exact hall k
    rw [hsplit]
    constructor
    · intro hall
      have hfirst : (o.handle d.1 d.2).NoDeadLink := hall 0
      exact ⟨h.handle_iff.1 hfirst, (ih hfirst).1 hall⟩
    · rintro ⟨hfirst, hrest⟩
      exact (ih (h.handle_iff.2 hfirst)).2 hrest

/-- Stripe with one customer, whose subscriptions all have that status. -/
def stripeOf (status : SubStatus) : Stripe := ⟨fun id => ⟨id, 7, status, some .pro⟩, fun _ => true⟩

def paidCheckout : Notice := .event ⟨2, .checkout true true true 7 (some 1)⟩

/-- Linked and deleted, and then an unpaid checkout of the ended subscription. -/
def linkedOnce : List (Stripe × Notice) :=
  [(stripeOf .active, paidCheckout), (stripeOf .canceled, .event ⟨3, .deleted 7 1⟩),
    (stripeOf .canceled, .event ⟨4, .checkout false true true 7 (some 1)⟩)]

theorem dead_subscription_not_linked_three :
    (handleAll {} (linkedOnce.take 1)).sub = some 1 ∧
      (handleAll {} (linkedOnce.take 3)).NoDeadLink :=
  ⟨by decide, (dead_subscription_not_linked (fun _ => rfl) linkedOnce).2
    ⟨fun _ => rfl, trivial, trivial, trivial⟩ 3⟩

/-- The subscription was deleted before its checkout was delivered. -/
theorem checkout_links_dead :
    (handleAll {} [(stripeOf .canceled, .event ⟨3, .deleted 7 1⟩),
      (stripeOf .canceled, paidCheckout)]).status = some .canceled ∧
    (handleAll {} [(stripeOf .canceled, .event ⟨3, .deleted 7 1⟩),
      (stripeOf .canceled, paidCheckout)]).sub = some 1 := by
  decide

end Spooled.Billing
