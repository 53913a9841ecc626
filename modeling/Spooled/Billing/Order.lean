import Spooled.Billing.Sequence
import Mathlib

/-!
# Orders of delivery

An update of the subscription advances `stripe_last_event_at`; an invoice is compared
with it and leaves it alone. A terminal update takes the organization off the
subscription, and then only an update that is not terminal is stored. So what the
events of one subscription leave depends on their order, and here is when it does not.
-/

namespace Spooled.Billing

open List

namespace StripeEvent

/-- An update or an invoice of the subscription of that customer. -/
def IsOf (customer : CustomerId) (sub : SubId) (e : StripeEvent) : Prop :=
  (∃ b : Subscription, e.body = .subscription b ∧ b.customer = customer ∧ b.id = sub) ∨
    ∃ paid, e.body = .invoice paid customer sub

variable (e : StripeEvent)

def isUpdate : Bool :=
  match e.body with
  | .subscription _ => true
  | _ => false

def reports : Option SubStatus :=
  match e.body with
  | .subscription b => some b.status
  | .invoice paid _ _ => some (if paid then .active else .pastDue)
  | _ => none

/-- The tier that the event stores; none for an update that leaves it. -/
def tier : Option Tier :=
  match e.body with
  | .subscription b => b.planTier
  | _ => none

def isEnd : Bool :=
  match e.body with
  | .subscription b => b.status.isTerminal
  | _ => false

def isOpen : Bool := e.isUpdate && !e.isEnd

variable {e} {e' : StripeEvent}

theorem isOpen_iff : e.isOpen = true ↔ e.isUpdate = true ∧ e.isEnd = false := by
  simp [isOpen]

theorem exists_last {p : StripeEvent → Bool} {es : List StripeEvent} (he : e ∈ es)
    (hp : p e = true) :
    ∃ u ∈ es, p u = true ∧ e.created ≤ u.created ∧ ∀ v ∈ es, p v = true → v.created ≤ u.created := by
  have hin : e ∈ (es.filter p).toFinset := by simp [he, hp]
  obtain ⟨u, hu, hmax⟩ := Finset.exists_max_image _ created ⟨e, hin⟩
  simp only [mem_toFinset, mem_filter] at hu hmax
  exact ⟨u, hu.1, hu.2, hmax e ⟨he, hp⟩, fun v hv hpv => hmax v ⟨hv, hpv⟩⟩

theorem isUpdate_of_isEnd (h : e.isEnd = true) : e.isUpdate = true := by
  obtain ⟨t, body⟩ := e
  cases body with
  | subscription b => rfl
  | checkout | deleted | invoice => cases h

theorem tier_of_isEnd (h : e.isEnd = true) : e.tier = some .free := by
  obtain ⟨t, body⟩ := e
  cases body with
  | subscription b => exact if_pos h
  | checkout | deleted | invoice => cases h

theorem tier_of_not_update (h : e.isUpdate = false) : e.tier = none := by
  obtain ⟨t, body⟩ := e
  cases body with
  | subscription b => cases h
  | checkout | deleted | invoice => rfl

theorem reports_ne_canceled (h : e.isEnd = false) : e.reports ≠ some .canceled := by
  obtain ⟨t, body⟩ := e
  cases body with
  | subscription b =>
    intro hc
    have hno : b.status.isTerminal = false := h
    rw [Option.some.inj hc] at hno
    cases hno
  | invoice paid => cases paid <;> nofun
  | checkout | deleted => nofun

theorem isEnd_of_reports (h : e.reports = e'.reports) (hup : e.isUpdate = true)
    (hend : e'.isEnd = true) : e.isEnd = true := by
  obtain ⟨t, body⟩ := e
  obtain ⟨t', body'⟩ := e'
  cases body' with
  | subscription b' =>
    cases body with
    | subscription b =>
      have hst : b.status = b'.status := Option.some.inj h
      have hend : b'.status.isTerminal = true := hend
      show b.status.isTerminal = true
      rw [hst]
      exact hend
    | checkout | deleted | invoice => cases hup
  | checkout | deleted | invoice => cases hend

end StripeEvent

/-- The organization admits the update, and no update is newer. -/
def OrgBilling.IsLast (o : OrgBilling) (es : List StripeEvent) (u : StripeEvent) : Prop :=
  u.isUpdate = true ∧ o.admits u.created = true ∧
    ∀ v ∈ es, v.isUpdate = true → v.created ≤ u.created

instance (o : OrgBilling) (es : List StripeEvent) : DecidablePred (o.IsLast es) := fun u =>
  inferInstanceAs (Decidable (u.isUpdate = true ∧ o.admits u.created = true ∧
    ∀ v ∈ es, v.isUpdate = true → v.created ≤ u.created))

/-- The events settle what the organization is left with. -/
structure OrgBilling.Settled (o : OrgBilling) (es : List StripeEvent) : Prop where
  /-- Invoices after a last update that is not terminal report its status. -/
  agree : ∀ u ∈ es, o.IsLast es u → u.isEnd = false →
    ∀ e ∈ es, u.created ≤ e.created → e.reports = u.reports
  /-- It sets the tier, or no update changes it. -/
  tier : ∀ u ∈ es, o.IsLast es u → u.isEnd = false → u.tier = none →
    ∀ v ∈ es, o.admits v.created = true → v.tier.getD o.tier = o.tier
  /-- From the first terminal update on all report what a terminal last update does. -/
  ends : ∀ u ∈ es, o.IsLast es u → u.isEnd = true → ∀ v ∈ es, v.isEnd = true →
    o.admits v.created = true → ∀ w ∈ es, w.isUpdate = true → v.created ≤ w.created →
      w.reports = u.reports
  /-- Without an update the invoices report one status. -/
  invoices : (∀ e ∈ es, e.isUpdate = true → o.admits e.created = false) →
    o.status ≠ some .canceled → ∀ e ∈ es, ∀ e' ∈ es, o.admits e.created = true →
      o.admits e'.created = true → e.reports = e'.reports

namespace OrgBilling

theorem admits_mono {o : OrgBilling} {t t' : Time} (h : o.admits t = true) (hle : t ≤ t') :
    o.admits t' = true := by
  unfold admits at h ⊢
  cases hlast : o.lastEventAt with
  | none => rfl
  | some u =>
    rw [hlast] at h
    exact decide_eq_true (Nat.le_trans (of_decide_eq_true h) hle)

def deliver (o : OrgBilling) (stripe : Stripe) (es : List StripeEvent) : OrgBilling :=
  es.foldl (fun o e => o.handle stripe (.event e)) o

/-- The events leave what they leave in the order of the list, in whatever order and however often
they are delivered. -/
def Commutes (o : OrgBilling) (stripe : Stripe) (es : List StripeEvent) : Prop :=
  ∀ l : List StripeEvent, (∀ e, e ∈ l ↔ e ∈ es) →
    (o.deliver stripe l).tier = (o.deliver stripe es).tier ∧
      (o.deliver stripe l).status = (o.deliver stripe es).status

/-! ## One event -/

/-- Linked to the customer, and on the subscription or on none. -/
def On (customer : CustomerId) (sub : SubId) (o : OrgBilling) : Prop :=
  o.customer = some customer ∧ (o.sub = some sub ∨ o.sub = none)

def Stores (sub : SubId) (o : OrgBilling) (e : StripeEvent) : Prop :=
  o.admits e.created = true ∧ if e.isUpdate then o.sub = some sub ∨ e.isEnd = false
    else o.sub = some sub ∧ o.status ≠ some .canceled

/-- What an event makes of the organization, whatever the kind of the event. -/
def store (sub : SubId) (o : OrgBilling) (e : StripeEvent) : OrgBilling :=
  { o with
    sub := if e.isUpdate then (if e.isEnd then none else some sub) else o.sub
    status := e.reports
    tier := e.tier.getD o.tier
    lastEventAt := if e.isUpdate then some e.created else o.lastEventAt }

section Order

variable {customer : CustomerId} {sub : SubId} {es l : List StripeEvent} {u v w e : StripeEvent}
  {o o₀ : OrgBilling} {t : Time} (stripe : Stripe)

theorem handle_eq (hon : o.On customer sub) (hof : e.IsOf customer sub) :
    (o.Stores sub e → o.handle stripe (.event e) = o.store sub e) ∧
      (¬ o.Stores sub e → o.handle stripe (.event e) = o) := by
  obtain ⟨hc, hsub⟩ := hon
  obtain ⟨t, body⟩ := e
  rcases hof with ⟨b, rfl, rfl, rfl⟩ | ⟨paid, rfl⟩
  · have htakes : o.takes b t = true ↔ o.Stores b.id ⟨t, .subscription b⟩ := by
      rcases hsub with hsub | hsub <;>
        simp [takes, Stores, hc, hsub, StripeEvent.isUpdate, StripeEvent.isEnd]
    refine ⟨fun hs => ?_, fun hs => ?_⟩
    · have htier : (if b.status = .incomplete then o.tier else b.planTier.getD o.tier) =
          b.planTier.getD o.tier := by
        split
        · next hinc => simp [Subscription.planTier, hinc, SubStatus.isTerminal]
        · rfl
      simp only [handle, htakes.2 hs, if_true, take, htier]
      rfl
    · simp [handle, mt htakes.1 hs]
  · have hbills : o.bills customer sub t = true ↔
        o.Stores sub ⟨t, .invoice paid customer sub⟩ := by
      simp [bills, Stores, hc, StripeEvent.isUpdate, and_comm, and_assoc]
    refine ⟨fun hs => ?_, fun hs => ?_⟩
    · simp only [handle, hbills.2 hs, if_true]
      rfl
    · simp [handle, mt hbills.1 hs]

theorem deliver_induction {P : OrgBilling → Prop} (hof : ∀ e ∈ l, e.IsOf customer sub)
    (hon : ∀ o, P o → o.On customer sub) (hstep : ∀ o, ∀ e ∈ l, P o → o.Stores sub e →
      P (o.store sub e)) (h : P o) : P (o.deliver stripe l) := by
  unfold deliver
  refine foldlRecOn l _ h fun o ho e he => ?_
  obtain ⟨hyes, hno⟩ := handle_eq stripe (hon o ho) (hof e he)
  by_cases hs : o.Stores sub e
  · rw [hyes hs]
    exact hstep o e he ho hs
  · rw [hno hs]
    exact ho

theorem deliver_append (l l' : List StripeEvent) :
    o.deliver stripe (l ++ l') = (o.deliver stripe l).deliver stripe l' := foldl_append

theorem deliver_cons (hon : o.On customer sub) (hof : e.IsOf customer sub) (hs : o.Stores sub e) :
    o.deliver stripe (e :: l) = (o.store sub e).deliver stripe l := by
  unfold deliver
  rw [foldl_cons, (handle_eq stripe hon hof).1 hs]

theorem On.store (h : o.On customer sub) : (o.store sub e).On customer sub := by
  refine ⟨h.1, ?_⟩
  unfold OrgBilling.store
  dsimp only
  split
  · split
    · exact .inr rfl
    · exact .inl rfl
  · exact h.2

theorem stores_update (hup : u.isUpdate = true) (hadm : o.admits u.created = true)
    (hend : o.sub = some sub ∨ u.isEnd = false) : o.Stores sub u := by
  refine ⟨hadm, ?_⟩
  rw [if_pos hup]
  exact hend

theorem admits_store (hup : u.isUpdate = true) : (o.store sub u).admits t = decide (u.created ≤ t) := by
  simp [OrgBilling.store, OrgBilling.admits, hup]

theorem admits_deliver (hof : ∀ e ∈ l, e.IsOf customer sub)
    (hle : ∀ v ∈ l, v.isUpdate = true → v.created ≤ t) (hon : o.On customer sub)
    (hadm : o.admits t = true) :
    (o.deliver stripe l).On customer sub ∧ (o.deliver stripe l).admits t = true := by
  refine deliver_induction (P := fun o => o.On customer sub ∧ o.admits t = true) stripe hof
    (fun _ h => h.1) (fun o e he h hs => ⟨h.1.store, ?_⟩) ⟨hon, hadm⟩
  cases hup : e.isUpdate with
  | true =>
    rw [admits_store hup]
    exact decide_eq_true (hle e he hup)
  | false =>
    have hsame : (o.store sub e).lastEventAt = o.lastEventAt := by simp [OrgBilling.store, hup]
    unfold OrgBilling.admits
    rw [hsame]
    exact h.2

theorem deliver_off (hof : ∀ e ∈ l, e.IsOf customer sub) (hon : o.On customer sub)
    (hoff : o.sub = none)
    (hend : ∀ e ∈ l, e.isUpdate = true → o.admits e.created = true → e.isEnd = true) :
    o.deliver stripe l = o := by
  refine deliver_induction (P := (· = o)) stripe hof (fun _ h => h ▸ hon) ?_ rfl
  rintro _ e he rfl ⟨hadm, hs⟩
  split at hs
  · next hup => simp [hoff, hend e he hup hadm] at hs
  · simp [hoff] at hs

/-! ## A last update that is not terminal -/

structure Past (customer : CustomerId) (sub : SubId) (es : List StripeEvent) (u : StripeEvent)
    (tier : Tier) (o : OrgBilling) : Prop where
  on : o.On customer sub
  last : o.lastEventAt = some u.created
  tier : o.tier = tier
  status : (∀ e ∈ es, u.created ≤ e.created → e.reports = u.reports) → o.status = u.reports

/-- A list of the events, each with a creation time of its own. -/
structure Log (customer : CustomerId) (sub : SubId) (es : List StripeEvent) : Prop where
  isOf : ∀ e ∈ es, e.IsOf customer sub
  sorted : es.Pairwise (·.created < ·.created)

theorem Log.eq_of_created (hlog : Log customer sub es) (he : e ∈ es) (hu : u ∈ es)
    (h : e.created = u.created) : e = u := by
  by_contra hne
  have hdiff : es.Pairwise fun a b => a.created ≠ b.created := hlog.sorted.imp Nat.ne_of_lt
  have : Std.Symm fun a b : StripeEvent => a.created ≠ b.created := ⟨fun _ _ h => h.symm⟩
  exact hdiff.forall he hu hne h

section Last

variable (hlog : Log customer sub es) (hu : u ∈ es) (hlast : o₀.IsLast es u)
include hlog hu hlast

theorem eq_last (he : e ∈ es) (hup : e.isUpdate = true) (hle : u.created ≤ e.created) : e = u :=
  hlog.eq_of_created he hu (Nat.le_antisymm (hlast.2.2 e he hup) hle)

theorem Past.deliver {tier : Tier} (hl : ∀ e ∈ l, e ∈ es) (hkeep : u.tier.getD tier = tier)
    (h : Past customer sub es u tier o) : Past customer sub es u tier (o.deliver stripe l) := by
  refine deliver_induction stripe (fun e he => hlog.isOf e (hl e he)) (fun _ h => h.on) ?_ h
  rintro o e he h ⟨hadm, -⟩
  have hle : u.created ≤ e.created := by
    simpa [OrgBilling.admits, h.last] using hadm
  refine ⟨h.on.store, ?_, ?_, fun hagree => hagree e (hl e he) hle⟩
  · unfold OrgBilling.store
    dsimp only
    split
    · next hup => rw [eq_last hlog hu hlast (hl e he) hup hle]
    · exact h.last
  · show e.tier.getD o.tier = tier
    cases hup : e.isUpdate with
    | true => rw [eq_last hlog hu hlast (hl e he) hup hle, h.tier, hkeep]
    | false => rw [StripeEvent.tier_of_not_update hup, h.tier, Option.getD_none]

end Last

theorem past_store {tier : Tier} (hup : u.isUpdate = true) (hon : o.On customer sub)
    (htier : u.tier.getD o.tier = tier) : Past customer sub es u tier (o.store sub u) := by
  refine ⟨hon.store, ?_, htier, fun _ => rfl⟩
  simp [OrgBilling.store, hup]

theorem admits_of_store (h : ∀ t, o.admits t = true → o₀.admits t = true) (hs : o.Stores sub e) :
    ∀ t, (o.store sub e).admits t = true → o₀.admits t = true := by
  intro t hadm
  cases hup : e.isUpdate with
  | true =>
    rw [admits_store hup] at hadm
    exact admits_mono (h _ hs.1) (of_decide_eq_true hadm)
  | false =>
    have hsame : (o.store sub e).lastEventAt = o.lastEventAt := by simp [OrgBilling.store, hup]
    unfold OrgBilling.admits at hadm
    rw [hsame] at hadm
    exact h t hadm

theorem last_update (o : OrgBilling) (es : List StripeEvent) :
    (∃ u ∈ es, o.IsLast es u) ∨ ∀ e ∈ es, e.isUpdate = true → o.admits e.created = false := by
  by_cases hnone : ∀ e ∈ es, e.isUpdate = true → o.admits e.created = false
  · exact .inr hnone
  left
  push Not at hnone
  obtain ⟨e, he, hup, hadm⟩ := hnone
  obtain ⟨u, hu, huup, hle, hmax⟩ := StripeEvent.exists_last (p := (·.isUpdate)) he hup
  exact ⟨u, hu, huup, admits_mono (Bool.eq_true_of_not_eq_false hadm) hle, hmax⟩

theorem exists_split (hl : ∀ e, e ∈ l ↔ e ∈ es) (hu : u ∈ es) :
    ∃ l₁ l₂, l = l₁ ++ u :: l₂ ∧ (∀ e ∈ l₁, e ∈ es) ∧ ∀ e ∈ l₂, e ∈ es := by
  obtain ⟨l₁, l₂, rfl⟩ := append_of_mem ((hl u).2 hu)
  exact ⟨l₁, l₂, rfl, fun e he => (hl e).1 (mem_append_left _ he),
    fun e he => (hl e).1 (mem_append_right _ (mem_cons_of_mem _ he))⟩

section Cases

variable (hlog : Log customer sub es) (hc : o₀.customer = some customer)
  (hsub : o₀.sub = some sub)
include hlog hc hsub

theorem open_of_settled (hs : o₀.Settled es) (hu : u ∈ es) (hlast : o₀.IsLast es u)
    (hend : u.isEnd = false) (hl : ∀ e, e ∈ l ↔ e ∈ es) :
    (o₀.deliver stripe l).tier = u.tier.getD o₀.tier ∧
      (o₀.deliver stripe l).status = u.reports := by
  have hon₀ : o₀.On customer sub := ⟨hc, .inl hsub⟩
  obtain ⟨l₁, l₂, rfl, hmem₁, hmem₂⟩ := exists_split hl hu
  obtain ⟨hon₁, hadm₁⟩ := admits_deliver stripe (fun e he => hlog.isOf e (hmem₁ e he))
    (fun v hv => hlast.2.2 v (hmem₁ v hv)) hon₀ hlast.2.1
  have htier₁ : u.tier.getD (o₀.deliver stripe l₁).tier = u.tier.getD o₀.tier := by
    cases hset : u.tier with
    | some tier => rfl
    | none =>
      -- an update that is stored does not change the tier
      refine (deliver_induction (P := fun o => o.On customer sub ∧
        (∀ t, o.admits t = true → o₀.admits t = true) ∧ o.tier = o₀.tier) stripe
        (fun e he => hlog.isOf e (hmem₁ e he)) (fun _ h => h.1) ?_
        ⟨hon₀, fun _ h => h, rfl⟩).2.2
      rintro o e he ⟨hon, hsince, htier⟩ hst
      refine ⟨hon.store, admits_of_store hsince hst, ?_⟩
      show e.tier.getD o.tier = o₀.tier
      rw [htier]
      exact hs.tier u hu hlast hend hset e (hmem₁ e he) (hsince _ hst.1)
  have hpast : Past customer sub es u _ _ := past_store hlast.1 hon₁ htier₁
  have hkeep : u.tier.getD (u.tier.getD o₀.tier) = u.tier.getD o₀.tier := by
    cases u.tier <;> rfl
  have hfin := Past.deliver stripe hlog hu hlast hmem₂ hkeep hpast
  rw [deliver_append, deliver_cons stripe hon₁ (hlog.isOf u hu)
    (stores_update hlast.1 hadm₁ (.inr hend))]
  exact ⟨hfin.tier, hfin.status (hs.agree u hu hlast hend)⟩

/-- Before and after the first terminal update that is stored. -/
structure Closing (o₀ : OrgBilling) (customer : CustomerId) (sub : SubId) (es : List StripeEvent)
    (u : StripeEvent) (o : OrgBilling) : Prop where
  on : o.On customer sub
  since : ∀ t, o.admits t = true → o₀.admits t = true
  before : o.sub = some sub → ∀ v ∈ es, v.isEnd = true → o₀.admits v.created = true →
    o.admits v.created = true
  after : o.sub = none → o.tier = .free ∧ o.status = u.reports ∧
    ∃ v ∈ es, v.isEnd = true ∧ o₀.admits v.created = true ∧ o.lastEventAt = some v.created

omit hlog hc hsub in
theorem Closing.store (hs : o₀.Settled es) (hu : u ∈ es) (hlast : o₀.IsLast es u)
    (hend : u.isEnd = true) (he : e ∈ es) (hst : o.Stores sub e)
    (h : Closing o₀ customer sub es u o) : Closing o₀ customer sub es u (o.store sub e) := by
  have hends := hs.ends u hu hlast hend
  have hlive := h.since _ hst.1
  refine ⟨h.on.store, admits_of_store h.since hst, ?_, ?_⟩
  · intro hsub v hv hvend hvlive
    cases hup : e.isUpdate with
    | true =>
      have hopen : e.isEnd = false := by
        by_contra hyes
        simp [OrgBilling.store, hup, hyes] at hsub
      -- an update after a terminal one would be terminal
      rw [admits_store hup]
      by_contra hlt
      have hle : v.created ≤ e.created := Nat.le_of_lt (by simpa using hlt)
      have := StripeEvent.isEnd_of_reports (hends v hv hvend hvlive e he hup hle) hup hend
      rw [hopen] at this
      cases this
    | false =>
      have hsame : (o.store sub e).lastEventAt = o.lastEventAt := by simp [OrgBilling.store, hup]
      have hsub' : o.sub = some sub := by simpa [OrgBilling.store, hup] using hsub
      unfold OrgBilling.admits
      rw [hsame]
      exact h.before hsub' v hv hvend hvlive
  · intro hoff
    cases hup : e.isUpdate with
    | true =>
      have hclose : e.isEnd = true := by
        by_contra hno
        simp [OrgBilling.store, hup, hno] at hoff
      refine ⟨?_, hends e he hclose hlive e he hup (Nat.le_refl _), e, he, hclose, hlive, ?_⟩
      · simp [OrgBilling.store, StripeEvent.tier_of_isEnd hclose]
      · simp [OrgBilling.store, hup]
    | false =>
      obtain ⟨-, hon⟩ := hst
      rw [hup] at hon
      have hsub' : o.sub = none := by simpa [OrgBilling.store, hup] using hoff
      simp [hsub'] at hon

theorem ended_of_settled (hs : o₀.Settled es) (hu : u ∈ es) (hlast : o₀.IsLast es u)
    (hend : u.isEnd = true) (hl : ∀ e, e ∈ l ↔ e ∈ es) :
    (o₀.deliver stripe l).tier = .free ∧ (o₀.deliver stripe l).status = u.reports := by
  have hstart : Closing o₀ customer sub es u o₀ :=
    ⟨⟨hc, .inl hsub⟩, fun _ h => h, fun _ _ _ _ h => h, fun hoff => by simp [hsub] at hoff⟩
  have hclosing : ∀ {o : OrgBilling} {l' : List StripeEvent}, (∀ e ∈ l', e ∈ es) →
      Closing o₀ customer sub es u o → Closing o₀ customer sub es u (o.deliver stripe l') := by
    intro o l' hl' h
    exact deliver_induction stripe (fun e he => hlog.isOf e (hl' e he)) (fun _ h => h.on)
      (fun _ e he h hst => h.store hs hu hlast hend (hl' e he) hst) h
  obtain ⟨l₁, l₂, rfl, hmem₁, hmem₂⟩ := exists_split hl hu
  have h₁ := hclosing hmem₁ hstart
  -- with the last update the organization is off the subscription, and stays so
  have hoff : ∃ o, (o₀.deliver stripe l₁).deliver stripe [u] = o ∧
      Closing o₀ customer sub es u o ∧ o.sub = none := by
    refine ⟨_, rfl, hclosing (by simpa using hu) h₁, ?_⟩
    rcases h₁.on.2 with hsub₁ | hsub₁
    · rw [deliver_cons stripe h₁.on (hlog.isOf u hu)
        (stores_update hlast.1 (h₁.before hsub₁ u hu hend hlast.2.1) (.inl hsub₁))]
      simp [OrgBilling.deliver, OrgBilling.store, hlast.1, hend]
    · rw [deliver_off stripe (by simpa using hlog.isOf u hu) h₁.on hsub₁ (by simp [hend])]
      exact hsub₁
  obtain ⟨o, ho, hcl, hnone⟩ := hoff
  obtain ⟨htier, hstatus, v, hv, hvend, hvlive, hvlast⟩ := hcl.after hnone
  have hsplit : o₀.deliver stripe (l₁ ++ u :: l₂) = o.deliver stripe l₂ := by
    rw [append_cons, deliver_append, deliver_append, ho]
  have hstay : o.deliver stripe l₂ = o := by
    refine deliver_off stripe (fun e he => hlog.isOf e (hmem₂ e he)) hcl.on hnone ?_
    intro e he hup hadm
    have hle : v.created ≤ e.created := by simpa [OrgBilling.admits, hvlast] using hadm
    exact StripeEvent.isEnd_of_reports
      (hs.ends u hu hlast hend v hv hvend hvlive e (hmem₂ e he) hup hle) hup hend
  rw [hsplit, hstay]
  exact ⟨htier, hstatus⟩

/-! ## No update -/

structure Idle (o₀ : OrgBilling) (o : OrgBilling) : Prop where
  same : o = { o₀ with status := o.status }
  live : o₀.status ≠ some .canceled → o.status ≠ some .canceled

omit hlog in
theorem Idle.on (h : Idle o₀ o) : o.On customer sub := by
  rw [h.same]
  exact ⟨hc, .inl hsub⟩

omit hlog hc hsub in
theorem Idle.admits (h : Idle o₀ o) : o.admits t = o₀.admits t := by
  rw [h.same]
  rfl

omit hlog hc in
theorem Idle.stores (h : Idle o₀ o) (hlive : o₀.status ≠ some .canceled)
    (hup : e.isUpdate = false) (hadm : o₀.admits e.created = true) : o.Stores sub e := by
  refine ⟨h.admits.trans hadm, ?_⟩
  rw [hup]
  refine ⟨?_, h.live hlive⟩
  rw [h.same]
  exact hsub

section Stale

variable (hstale : ∀ e ∈ es, e.isUpdate = true → o₀.admits e.created = false)
include hstale

omit hlog hc hsub in
theorem not_update (he : e ∈ es) (hadm : o₀.admits e.created = true) : e.isUpdate = false := by
  by_contra hyes
  have hno := hstale e he (by simpa using hyes)
  rw [hadm] at hno
  cases hno

omit hlog hc hsub in
theorem Idle.store (he : e ∈ es) (hst : o.Stores sub e) (h : Idle o₀ o) :
    Idle o₀ (o.store sub e) := by
  have hup := not_update hstale he (h.admits.symm.trans hst.1)
  have hno : e.isEnd = false := by
    by_contra hyes
    rw [StripeEvent.isUpdate_of_isEnd (by simpa using hyes)] at hup
    cases hup
  refine ⟨?_, fun _ => StripeEvent.reports_ne_canceled hno⟩
  rw [h.same]
  simp [OrgBilling.store, hup, StripeEvent.tier_of_not_update hup]

theorem Idle.deliver (hl : ∀ e ∈ l, e ∈ es) (h : Idle o₀ o) : Idle o₀ (o.deliver stripe l) :=
  deliver_induction stripe (fun e he => hlog.isOf e (hl e he)) (fun _ h => h.on hc hsub)
    (fun _ e he h hst => h.store hstale (hl e he) hst) h

theorem status_invoice (hlive : o₀.status ≠ some .canceled) (hl : ∀ e ∈ l, e ∈ es) (he : e ∈ es)
    (hadm : o₀.admits e.created = true) : (o₀.deliver stripe (l ++ [e])).status = e.reports := by
  have hidle := Idle.deliver stripe hlog hc hsub hstale hl (o := o₀) ⟨rfl, fun h => h⟩
  have hup := not_update hstale he hadm
  rw [deliver_append, deliver_cons stripe (hidle.on hc hsub) (hlog.isOf e he)
    (hidle.stores hsub hlive hup hadm)]
  rfl

theorem idle_of_settled (hs : o₀.Settled es) :
    ∃ σ, ∀ l : List StripeEvent, (∀ e, e ∈ l ↔ e ∈ es) →
      (o₀.deliver stripe l).tier = o₀.tier ∧ (o₀.deliver stripe l).status = σ := by
  have hstart : Idle o₀ o₀ := ⟨rfl, fun h => h⟩
  have htier : ∀ {o : OrgBilling}, Idle o₀ o → o.tier = o₀.tier := by
    intro o h
    rw [h.same]
  by_cases hsome : o₀.status ≠ some .canceled ∧ ∃ e ∈ es, o₀.admits e.created = true
  · obtain ⟨hlive, e₀, he₀, hadm₀⟩ := hsome
    refine ⟨e₀.reports, fun l hl => ?_⟩
    obtain ⟨l₁, l₂, rfl, hmem₁, hmem₂⟩ := exists_split hl he₀
    have hmem : ∀ e ∈ l₁ ++ [e₀], e ∈ es := by
      refine fun e he => (mem_append.1 he).elim (hmem₁ e) fun he => ?_
      rw [mem_singleton.1 he]
      exact he₀
    rw [append_cons, deliver_append]
    have hfin := deliver_induction (P := fun o => Idle o₀ o ∧ o.status = e₀.reports) stripe
      (fun e he => hlog.isOf e (hmem₂ e he)) (fun _ h => h.1.on hc hsub) ?_
      ⟨hstart.deliver stripe hlog hc hsub hstale hmem,
        status_invoice stripe hlog hc hsub hstale hlive hmem₁ he₀ hadm₀⟩
    · exact ⟨htier hfin.1, hfin.2⟩
    · rintro o e he ⟨h, -⟩ hst
      refine ⟨h.store hstale (hmem₂ e he) hst, ?_⟩
      exact hs.invoices hstale hlive e (hmem₂ e he) e₀ he₀ (h.admits ▸ hst.1) hadm₀
  · refine ⟨o₀.status, fun l hl => ?_⟩
    have hkeep : o₀.deliver stripe l = o₀ := by
      refine deliver_induction (P := (· = o₀)) stripe (fun e he => hlog.isOf e ((hl e).1 he))
        (fun _ h => h ▸ ⟨hc, .inl hsub⟩) ?_ rfl
      intro o e he ho hst
      rw [ho] at hst
      obtain ⟨hadm, hst⟩ := hst
      have hcan : ¬ o₀.status ≠ some .canceled := fun hlive => hsome ⟨hlive, e, (hl e).1 he, hadm⟩
      split at hst
      · next hup =>
        rw [hstale e ((hl e).1 he) hup] at hadm
        cases hadm
      · exact absurd hst.2 hcan
    rw [hkeep]
    exact ⟨rfl, rfl⟩

end Stale

/-! ## Necessity -/

section Necessary

variable (hcomm : o₀.Commutes stripe es)
include hcomm

omit hlog hc hsub in
theorem Commutes.again (hl : ∀ e ∈ l, e ∈ es) :
    (o₀.deliver stripe (es ++ l)).status = (o₀.deliver stripe (l ++ es)).status ∧
      (o₀.deliver stripe (l ++ es)).status = (o₀.deliver stripe es).status ∧
      (o₀.deliver stripe (l ++ es)).tier = (o₀.deliver stripe es).tier := by
  have hafter := hcomm (es ++ l) fun e =>
    ⟨fun he => (mem_append.1 he).elim id (hl e), mem_append_left l⟩
  have hbefore := hcomm (l ++ es) fun e =>
    ⟨fun he => (mem_append.1 he).elim (hl e) id, mem_append_right l⟩
  exact ⟨hafter.2.trans hbefore.2.symm, hbefore.2, hbefore.1⟩

theorem Commutes.agree (hu : u ∈ es) (hlast : o₀.IsLast es u) (hend : u.isEnd = false)
    (he : e ∈ es) (hle : u.created ≤ e.created) : e.reports = u.reports := by
  cases hup : e.isUpdate with
  | true => rw [eq_last hlog hu hlast he hup hle]
  | false =>
    obtain ⟨hon, hadm⟩ := admits_deliver stripe hlog.isOf hlast.2.2 ⟨hc, .inl hsub⟩ hlast.2.1
    have hst : (o₀.deliver stripe es).Stores sub u := stores_update hlast.1 hadm (.inr hend)
    have hbill : ((o₀.deliver stripe es).store sub u).Stores sub e := by
      refine ⟨(admits_store hlast.1).trans (decide_eq_true hle), ?_⟩
      rw [hup]
      refine ⟨?_, StripeEvent.reports_ne_canceled hend⟩
      simp [OrgBilling.store, hlast.1, hend]
    -- deliver the update again, without and with the invoice after it
    have h₁ : (o₀.deliver stripe (es ++ [u])).status = u.reports := by
      rw [deliver_append, deliver_cons stripe hon (hlog.isOf u hu) hst]
      rfl
    have h₂ : (o₀.deliver stripe (es ++ [u, e])).status = e.reports := by
      rw [deliver_append, deliver_cons stripe hon (hlog.isOf u hu) hst,
        deliver_cons stripe hon.store (hlog.isOf e he) hbill]
      rfl
    have hmem₁ : ∀ x ∈ [u], x ∈ es := by simpa using hu
    have hmem₂ : ∀ x ∈ [u, e], x ∈ es := by simpa using ⟨hu, he⟩
    obtain ⟨hafter₁, hsame₁, -⟩ := Commutes.again stripe hcomm hmem₁
    obtain ⟨hafter₂, hsame₂, -⟩ := Commutes.again stripe hcomm hmem₂
    rw [← h₁, ← h₂, hafter₁, hafter₂, hsame₁, hsame₂]

theorem Commutes.tier (hu : u ∈ es) (hlast : o₀.IsLast es u) (hend : u.isEnd = false)
    (hset : u.tier = none) (hv : v ∈ es) (hvlive : o₀.admits v.created = true) :
    v.tier.getD o₀.tier = o₀.tier := by
  cases hup : v.isUpdate with
  | false =>
    rw [StripeEvent.tier_of_not_update hup]
    rfl
  | true =>
    have hon₀ : o₀.On customer sub := ⟨hc, .inl hsub⟩
    have hlate : ∀ {o : OrgBilling}, o.On customer sub → o.admits u.created = true →
        (o.deliver stripe (u :: es)).tier = o.tier := by
      intro o hon hadm
      rw [deliver_cons stripe hon (hlog.isOf u hu) (stores_update hlast.1 hadm (.inr hend))]
      have hkeep : u.tier.getD o.tier = o.tier := by
        rw [hset]
        rfl
      exact (Past.deliver stripe hlog hu hlast (fun _ h => h) hkeep
        (past_store hlast.1 hon hkeep)).tier
    have h₁ := hlate hon₀ hlast.2.1
    have h₂ : (o₀.deliver stripe (v :: u :: es)).tier = v.tier.getD o₀.tier := by
      rw [deliver_cons stripe hon₀ (hlog.isOf v hv) (stores_update hup hvlive (.inl hsub))]
      exact hlate hon₀.store ((admits_store hup).trans (decide_eq_true (hlast.2.2 v hv hup)))
    have hmem₁ : ∀ x ∈ [u], x ∈ es := by simpa using hu
    have hmem₂ : ∀ x ∈ [v, u], x ∈ es := by simpa using ⟨hv, hu⟩
    have hsame₁ := (Commutes.again stripe hcomm hmem₁).2.2
    have hsame₂ := (Commutes.again stripe hcomm hmem₂).2.2
    exact h₂.symm.trans (hsame₂.trans (hsame₁.symm.trans h₁))

omit hcomm in
theorem deliver_end (hv : v ∈ es) (hvend : v.isEnd = true) (hvlive : o₀.admits v.created = true)
    (hl : ∀ e ∈ l, e ∈ es)
    (hend : ∀ e ∈ l, e.isUpdate = true → v.created ≤ e.created → e.isEnd = true) :
    o₀.deliver stripe (v :: l) = o₀.store sub v := by
  have hon₀ : o₀.On customer sub := ⟨hc, .inl hsub⟩
  have hup := StripeEvent.isUpdate_of_isEnd hvend
  rw [deliver_cons stripe hon₀ (hlog.isOf v hv) (stores_update hup hvlive (.inl hsub))]
  refine deliver_off stripe (fun e he => hlog.isOf e (hl e he)) hon₀.store ?_ fun e he heup hadm => ?_
  · simp [OrgBilling.store, hup, hvend]
  · rw [admits_store hup] at hadm
    exact hend e he heup (of_decide_eq_true hadm)

theorem Commutes.status_end (hu : u ∈ es) (hlast : o₀.IsLast es u) (hend : u.isEnd = true) :
    (o₀.deliver stripe es).status = u.reports := by
  have hmem : ∀ x ∈ [u], x ∈ es := by simpa using hu
  have hfirst := deliver_end stripe hlog hc hsub hu hend hlast.2.1 (fun _ h => h)
    fun e he hup hle => by rw [eq_last hlog hu hlast he hup hle]; exact hend
  rw [← (Commutes.again stripe hcomm hmem).2.1, singleton_append, hfirst]
  rfl

/-- No update that is not terminal is newer than a terminal one: it would be stored last. -/
theorem Commutes.no_revival (hu : u ∈ es) (hlast : o₀.IsLast es u) (hend : u.isEnd = true)
    (hv : v ∈ es) (hvend : v.isEnd = true) (hvlive : o₀.admits v.created = true) (hw : w ∈ es)
    (hup : w.isUpdate = true) (hle : v.created ≤ w.created) : w.isEnd = true := by
  by_contra hopen
  obtain ⟨x, hx, hxopen, hlex, hmax⟩ := StripeEvent.exists_last (p := (·.isOpen)) hw
    (StripeEvent.isOpen_iff.2 ⟨hup, eq_false_of_ne_true hopen⟩)
  obtain ⟨hxup, hxend⟩ := StripeEvent.isOpen_iff.1 hxopen
  have hfirst := deliver_end stripe hlog hc hsub hv hvend hvlive
    (l := es.filter (!·.isOpen)) (fun e he => (mem_filter.1 he).1) fun e he heup _ => by
      simpa [StripeEvent.isOpen, heup] using (mem_filter.1 he).2
  obtain ⟨hon, hadm⟩ := admits_deliver stripe (l := es.filter (·.isOpen)) (t := x.created)
    (fun e he => hlog.isOf e (mem_filter.1 he).1)
    (fun e he _ => hmax e (mem_filter.1 he).1 (mem_filter.1 he).2)
    (On.store (e := v) ⟨hc, .inl hsub⟩)
    ((admits_store (StripeEvent.isUpdate_of_isEnd hvend)).trans
      (decide_eq_true (Nat.le_trans hle hlex)))
  have hall : ∀ e, e ∈ (v :: es.filter (!·.isOpen)) ++ (es.filter (·.isOpen) ++ [x]) ↔ e ∈ es := by
    intro e
    rw [mem_append, mem_append, mem_cons, mem_singleton, mem_filter, mem_filter]
    constructor
    · rintro ((rfl | ⟨he, -⟩) | ⟨he, -⟩ | rfl)
      exacts [hv, he, he, hx]
    · intro he
      cases h : e.isOpen with
      | true => exact .inr (.inl ⟨he, rfl⟩)
      | false => exact .inl (.inr ⟨he, rfl⟩)
  have hfin := (hcomm _ hall).2
  rw [deliver_append, hfirst, deliver_append, deliver_cons stripe hon (hlog.isOf x hx)
    (stores_update hxup hadm (.inr hxend)),
    Commutes.status_end stripe hlog hc hsub hcomm hu hlast hend] at hfin
  rw [StripeEvent.isEnd_of_reports hfin hxup hend] at hxend
  cases hxend

theorem Commutes.ends (hu : u ∈ es) (hlast : o₀.IsLast es u) (hend : u.isEnd = true)
    (hv : v ∈ es) (hvend : v.isEnd = true) (hvlive : o₀.admits v.created = true) (hw : w ∈ es)
    (hup : w.isUpdate = true) (hle : v.created ≤ w.created) : w.reports = u.reports := by
  have hrev : ∀ {v w : StripeEvent}, v ∈ es → v.isEnd = true → o₀.admits v.created = true →
      w ∈ es → w.isUpdate = true → v.created ≤ w.created → w.isEnd = true :=
    Commutes.no_revival stripe hlog hc hsub hcomm hu hlast hend
  have hwend := hrev hv hvend hvlive hw hup hle
  have hwlive := admits_mono hvlive hle
  have hmem : ∀ x ∈ [w], x ∈ es := by simpa using hw
  have hfirst := deliver_end stripe hlog hc hsub hw hwend hwlive (fun _ h => h)
    fun e he heup hle => hrev hw hwend hwlive he heup hle
  have hsame := (Commutes.again stripe hcomm hmem).2.1
  rw [singleton_append, hfirst, Commutes.status_end stripe hlog hc hsub hcomm hu hlast hend] at hsame
  exact hsame

end Necessary

theorem commutes_of_settled (hs : o₀.Settled es) : o₀.Commutes stripe es := by
  have hone : ∃ tier σ, ∀ l : List StripeEvent, (∀ e, e ∈ l ↔ e ∈ es) →
      (o₀.deliver stripe l).tier = tier ∧ (o₀.deliver stripe l).status = σ := by
    rcases last_update o₀ es with ⟨u, hu, hlast⟩ | hstale
    · cases hend : u.isEnd with
      | false =>
        exact ⟨_, _, fun l hl => open_of_settled stripe hlog hc hsub hs hu hlast hend hl⟩
      | true =>
        exact ⟨_, _, fun l hl => ended_of_settled stripe hlog hc hsub hs hu hlast hend hl⟩
    · exact ⟨_, idle_of_settled stripe hlog hc hsub hstale hs⟩
  obtain ⟨tier, σ, hall⟩ := hone
  intro l hl
  have h₁ := hall l hl
  have h₂ := hall es fun _ => Iff.rfl
  exact ⟨h₁.1.trans h₂.1.symm, h₁.2.trans h₂.2.symm⟩

theorem settled_of_commutes (hcomm : o₀.Commutes stripe es) : o₀.Settled es where
  agree _ hu hlast hend _ he hle :=
    Commutes.agree stripe hlog hc hsub hcomm hu hlast hend he hle
  tier _ hu hlast hend hset _ hv hvlive :=
    Commutes.tier stripe hlog hc hsub hcomm hu hlast hend hset hv hvlive
  ends _ hu hlast hend _ hv hvend hvlive _ hw hup hle :=
    Commutes.ends stripe hlog hc hsub hcomm hu hlast hend hv hvend hvlive hw hup hle
  invoices hstale hlive e he e' he' hadm hadm' := by
    have hlate : ∀ {x : StripeEvent}, x ∈ es → o₀.admits x.created = true →
        (o₀.deliver stripe es).status = x.reports := by
      intro x hx hxadm
      have hmem : ∀ y ∈ [x], y ∈ es := by simpa using hx
      obtain ⟨hafter, hsame, -⟩ := Commutes.again stripe hcomm hmem
      rw [← hsame, ← hafter]
      exact status_invoice stripe hlog hc hsub hstale hlive (fun _ h => h) hx hxadm
    rw [← hlate he hadm, ← hlate he' hadm']

end Cases

end Order

end OrgBilling

/-- **When billing events commute with the order of delivery.** Updates and invoices of the
subscription an organization is on leave the tier and the status that they leave in the order of
their creation, in whatever order and however often they come, if and only if they settle them. -/
theorem billing_events_commute {o : OrgBilling} {customer : CustomerId} {sub : SubId}
    (hlinked : o.customer = some customer) (hon : o.sub = some sub) {es : List StripeEvent}
    (hof : ∀ e ∈ es, e.IsOf customer sub) (hsorted : es.Pairwise (·.created < ·.created))
    (stripe : Stripe) : o.Commutes stripe es ↔ o.Settled es :=
  ⟨OrgBilling.settled_of_commutes stripe ⟨hof, hsorted⟩ hlinked hon,
    OrgBilling.commutes_of_settled stripe ⟨hof, hsorted⟩ hlinked hon⟩

def onOne : OrgBilling := { customer := some 7, sub := some 1, status := some .active, tier := .pro }

/-- A failed payment, an update without a tier, and a payment. -/
def activeAgain : List StripeEvent :=
  [⟨1, .invoice false 7 1⟩, ⟨2, .subscription ⟨1, 7, .active, none⟩⟩, ⟨3, .invoice true 7 1⟩]

/-- Two terminal updates of one status, and a failed payment. -/
def unpaidTwice : List StripeEvent :=
  [⟨1, .subscription ⟨1, 7, .unpaid, some .pro⟩⟩, ⟨2, .subscription ⟨1, 7, .unpaid, none⟩⟩,
    ⟨3, .invoice false 7 1⟩]

theorem billing_events_commute_three :
    onOne.Commutes (stripeOf .active) activeAgain ∧
      onOne.Commutes (stripeOf .active) unpaidTwice := by
  constructor
  · refine (@billing_events_commute onOne 7 1 rfl rfl _ ?_ (by decide) _).2 ⟨?_, ?_, ?_, ?_⟩
    · simp [activeAgain, StripeEvent.IsOf]
    all_goals decide
  · refine (@billing_events_commute onOne 7 1 rfl rfl _ ?_ (by decide) _).2 ⟨?_, ?_, ?_, ?_⟩
    · simp [unpaidTwice, StripeEvent.IsOf]
    all_goals decide

def twoOrders (es es' : List StripeEvent) : List (Tier × Option SubStatus) :=
  [es, es'].map fun l => let o := onOne.deliver (stripeOf .active) l; (o.tier, o.status)

/-- A failed payment and the payment after it; a failed payment after an update; an update without
a tier after one with a tier; two terminal updates; an update between two terminal ones. Each set
in the order of creation and in another one. -/
theorem delivery_orders_differ :
    twoOrders [⟨1, .invoice false 7 1⟩, ⟨2, .invoice true 7 1⟩]
        [⟨2, .invoice true 7 1⟩, ⟨1, .invoice false 7 1⟩] =
      [(.pro, some .active), (.pro, some .pastDue)] ∧
    twoOrders [⟨1, .subscription ⟨1, 7, .active, some .pro⟩⟩, ⟨2, .invoice false 7 1⟩]
        [⟨2, .invoice false 7 1⟩, ⟨1, .subscription ⟨1, 7, .active, some .pro⟩⟩] =
      [(.pro, some .pastDue), (.pro, some .active)] ∧
    twoOrders [⟨1, .subscription ⟨1, 7, .active, some .starter⟩⟩,
          ⟨2, .subscription ⟨1, 7, .incomplete, some .pro⟩⟩]
        [⟨2, .subscription ⟨1, 7, .incomplete, some .pro⟩⟩,
          ⟨1, .subscription ⟨1, 7, .active, some .starter⟩⟩] =
      [(.starter, some .incomplete), (.pro, some .incomplete)] ∧
    twoOrders [⟨1, .subscription ⟨1, 7, .unpaid, none⟩⟩, ⟨2, .subscription ⟨1, 7, .canceled, none⟩⟩]
        [⟨2, .subscription ⟨1, 7, .canceled, none⟩⟩, ⟨1, .subscription ⟨1, 7, .unpaid, none⟩⟩] =
      [(.free, some .unpaid), (.free, some .canceled)] ∧
    twoOrders [⟨1, .subscription ⟨1, 7, .unpaid, none⟩⟩,
          ⟨2, .subscription ⟨1, 7, .active, some .pro⟩⟩, ⟨3, .subscription ⟨1, 7, .unpaid, none⟩⟩]
        [⟨1, .subscription ⟨1, 7, .unpaid, none⟩⟩, ⟨3, .subscription ⟨1, 7, .unpaid, none⟩⟩,
          ⟨2, .subscription ⟨1, 7, .active, some .pro⟩⟩] =
      [(.free, some .unpaid), (.pro, some .active)] := by
  decide

end Spooled.Billing
