import Spooled.Billing.Subscription

/-!
# Deleted subscriptions and the tier

An organization on a paid tier is on a subscription that is live at Stripe, or of
which the deletion is still to be handled, or which a checkout has yet to reconcile.
So when every event is answered, a paid tier has a live subscription behind it.
-/

namespace Spooled.Billing

variable {s : BillingStore} {p : Handler} {c : BillingCommand} {phase : Option HandlerPhase}
  {t : Time} {S : SubId}

abbrev Subs := Table SubId StripeSub StripeSub.id

/-! ## Stripe's books -/

def EventBody.Told (subs : Subs) (t : Time) : EventBody → Prop
  | .checkout _ _ _ customer (some S) => ∃ x ∈ subs.rows, x.id = S ∧ x.current.customer = customer
  | .subscription b => ∃ x ∈ subs.rows, x.id = b.id ∧ x.current.customer = b.customer ∧
      ∀ u ∈ x.deletedAt, t < u
  | .deleted customer S => ∃ x ∈ subs.rows, x.id = S ∧ x.current.customer = customer ∧
      x.deletedAt = some t
  | _ => True

/-- The subscription later on: once deleted, it stays as it is. -/
structure StripeSub.Later (clock : Time) (x x' : StripeSub) : Prop where
  id : x'.id = x.id
  customer : x'.current.customer = x.current.customer
  dead : ∀ t ∈ x.deletedAt, x' = x
  live : x.deletedAt = none → ∀ t ∈ x'.deletedAt, clock < t

theorem StripeSub.Later.refl (clock : Time) (x : StripeSub) : x.Later clock x :=
  ⟨rfl, rfl, fun _ _ => rfl, fun h t ht => by rw [h] at ht; exact absurd ht (Option.not_mem_none t)⟩

variable {body : EventBody} {o : OrgBilling} {os : List BillingProc} {s' : BillingStore}
  {x : StripeSub}

theorem EventBody.Told.later {subs subs' : Subs} {clock : Time}
    (h : body.Told subs t) (hle : t ≤ clock)
    (hlater : ∀ x ∈ subs.rows, ∃ x' ∈ subs'.rows, x.Later clock x') : body.Told subs' t := by
  cases body with
  | checkout paid trusted emailMatches customer sub =>
    cases sub with
    | none => trivial
    | some S =>
      obtain ⟨x, hx, hid, hc⟩ := h
      obtain ⟨x', hx', hl⟩ := hlater x hx
      exact ⟨x', hx', hl.id.trans hid, hl.customer.trans hc⟩
  | subscription b =>
    obtain ⟨x, hx, hid, hc, hafter⟩ := h
    obtain ⟨x', hx', hl⟩ := hlater x hx
    refine ⟨x', hx', hl.id.trans hid, hl.customer.trans hc, fun u hu => ?_⟩
    cases hdead : x.deletedAt with
    | none => exact Nat.lt_of_le_of_lt hle (hl.live hdead u hu)
    | some v =>
      rw [hl.dead v hdead] at hu
      exact hafter u hu
  | deleted customer S =>
    obtain ⟨x, hx, hid, hc, hdead⟩ := h
    obtain ⟨x', hx', hl⟩ := hlater x hx
    have he := hl.dead t hdead
    exact ⟨x', hx', hl.id.trans hid, hl.customer.trans hc, by rw [he]; exact hdead⟩
  | invoice => trivial

/-- The organization has come to an event of that time or of a later one. -/
def OrgBilling.Reached (o : OrgBilling) (t : Time) : Prop := ∃ u ∈ o.lastEventAt, t ≤ u

theorem OrgBilling.admits_iff : o.admits t = true ↔ ∀ u ∈ o.lastEventAt, u ≤ t := by
  simp [admits, Option.all_eq_true]

/-- What stands behind a tier that is not free. -/
structure BillingStore.Backs (s : BillingStore) (x : StripeSub) : Prop where
  sub : s.org.sub = some x.id
  customer : s.org.customer = some x.current.customer
  why : x.deletedAt = none ∨
    (∃ t ∈ x.deletedAt, t ∉ s.answered ∧ x.id ∉ s.missed ∧ ∀ u ∈ s.org.lastEventAt, u < t) ∨
    ∃ e ∈ s.relinked, e ∉ s.answered ∧ s.org.admits e = true

def BillingStore.TierBacked (s : BillingStore) : Prop :=
  s.org.tier = .free ∨ ∃ x ∈ s.subs.rows, s.Backs x

def BillingStore.RelinkedBy (s : BillingStore) (e : Time) : Prop :=
  ∃ trusted emailMatches customer S, (trusted || emailMatches) = true ∧ s.org.sub = some S ∧
    ⟨e, .checkout true trusted emailMatches customer (some S)⟩ ∈ s.events.rows

structure BillingStore.Books (s : BillingStore) : Prop where
  last : ∀ t ∈ s.org.lastEventAt, t ≤ s.clock
  answered : ∀ t ∈ s.answered, t ≤ s.clock
  created : ∀ e ∈ s.events.rows, e.created ≤ s.clock
  ids : ∀ x ∈ s.subs.rows, x.id ≤ s.clock
  dead : ∀ x ∈ s.subs.rows, ∀ t ∈ x.deletedAt, x.current.status = .canceled ∧
    ⟨t, .deleted x.current.customer x.id⟩ ∈ s.events.rows
  told : ∀ e ∈ s.events.rows, e.body.Told s.subs e.created
  missed : ∀ S ∈ s.missed, ∃ x ∈ s.subs.rows, x.id = S ∧ x.deletedAt.isSome = true
  ended : ∀ x ∈ s.subs.rows, ∀ t ∈ x.deletedAt, t ∈ s.answered → x.id ∈ s.missed ∨ s.org.Reached t
  relinked : ∀ e ∈ s.relinked, s.RelinkedBy e
  tier : s.TierBacked

structure Handler.Sane (s : BillingStore) (p : Handler) : Prop where
  event : p.event ∈ s.events.rows
  settled : p.phase.isPast = true → p.event.created ∈ s.relinked →
    s.org.admits p.event.created = false
  ended : ∀ customer S, p.event.body = .deleted customer S →
    p.phase = .forgetDeleted ∨ p.phase = .answer → S ∈ s.missed ∨ s.org.Reached p.event.created

theorem BillingStore.Books.relinked_body (hs : s.Books) {event : StripeEvent}
    (he : event ∈ s.events.rows) (hrel : event.created ∈ s.relinked) :
    ∃ trusted emailMatches customer S, (trusted || emailMatches) = true ∧ s.org.sub = some S ∧
      event.body = .checkout true trusted emailMatches customer (some S) := by
  obtain ⟨trusted, emailMatches, customer, S, htrust, hsub, hmem⟩ := hs.relinked _ hrel
  have heq := Table.eq_of_key he hmem rfl
  exact ⟨trusted, emailMatches, customer, S, htrust, hsub, by rw [heq]⟩

/-! ## Stripe's steps -/

/-- The store after an event and a change of the subscriptions. -/
structure BillingStore.Moves (s s' : BillingStore) : Prop where
  org : s'.org = s.org
  answered : s'.answered = s.answered
  missed : s'.missed = s.missed
  relinked : s'.relinked = s.relinked
  clock : s.clock ≤ s'.clock
  events : ∀ e ∈ s.events.rows, e ∈ s'.events.rows
  later : ∀ x ∈ s.subs.rows, ∃ x' ∈ s'.subs.rows, x.Later s.clock x'
  earlier : ∀ x' ∈ s'.subs.rows, (∃ x ∈ s.subs.rows, x.Later s.clock x') ∨
    x'.deletedAt = none
  new : ∀ e ∈ s'.events.rows, e ∈ s.events.rows ∨ e.created ≤ s'.clock ∧
    e.body.Told s'.subs e.created
  ids : ∀ x' ∈ s'.subs.rows, x'.id ≤ s'.clock
  dead : ∀ x' ∈ s'.subs.rows, ∀ t ∈ x'.deletedAt, x'.current.status = .canceled ∧
    ⟨t, .deleted x'.current.customer x'.id⟩ ∈ s'.events.rows

theorem BillingStore.Moves.backs (h : s.Moves s') (hs : s.Books) (hx : x ∈ s.subs.rows)
    (hb : s.Backs x) : ∃ x' ∈ s'.subs.rows, s'.Backs x' := by
  obtain ⟨x', hx', hl⟩ := h.later x hx
  refine ⟨x', hx', by rw [h.org, hl.id]; exact hb.sub, by rw [h.org, hl.customer]; exact hb.customer,
    ?_⟩
  rw [h.org, h.answered, h.missed, h.relinked, hl.id]
  rcases hb.why with hlive | ⟨t, ht, hrest⟩ | hrel
  · cases hdead : x'.deletedAt with
    | none => exact .inl rfl
    | some t =>
      -- it has just been deleted
      have hlt := hl.live hlive t hdead
      refine .inr (.inl ⟨t, rfl, fun ht => ?_, fun hm => ?_, fun u hu => ?_⟩)
      · exact Nat.not_le_of_lt hlt (hs.answered t ht)
      · obtain ⟨y, hy, hid, hsome⟩ := hs.missed _ hm
        rw [Table.eq_of_key hy hx hid, hlive] at hsome
        nomatch hsome
      · exact Nat.lt_of_le_of_lt (hs.last u hu) hlt
  · have he := hl.dead t ht
    exact .inr (.inl ⟨t, by rw [he]; exact ht, hrest⟩)
  · exact .inr (.inr hrel)

theorem BillingStore.Moves.books (h : s.Moves s') (hs : s.Books) :
    s'.Books where
  last t ht := by
    rw [h.org] at ht
    exact Nat.le_trans (hs.last t ht) h.clock
  answered t ht := by
    rw [h.answered] at ht
    exact Nat.le_trans (hs.answered t ht) h.clock
  created e he := by
    rcases h.new e he with he | ⟨hle, -⟩
    · exact Nat.le_trans (hs.created e he) h.clock
    · exact hle
  ids := h.ids
  dead := h.dead
  told e he := by
    rcases h.new e he with he | ⟨-, htold⟩
    · exact (hs.told e he).later (hs.created e he) h.later
    · exact htold
  missed S hS := by
    rw [h.missed] at hS
    obtain ⟨x, hx, hid, hsome⟩ := hs.missed S hS
    obtain ⟨x', hx', hl⟩ := h.later x hx
    obtain ⟨t, ht⟩ := Option.isSome_iff_exists.1 hsome
    exact ⟨x', hx', hl.id.trans hid, by rw [hl.dead t ht]; exact hsome⟩
  ended x' hx' t ht hans := by
    rw [h.answered] at hans
    rw [h.missed, h.org]
    rcases h.earlier x' hx' with ⟨x, hx, hl⟩ | hnone
    · cases hdead : x.deletedAt with
      | none =>
        have hlt := hl.live hdead t ht
        exact absurd (hs.answered t hans) (Nat.not_le_of_lt hlt)
      | some u =>
        have he := hl.dead u hdead
        subst he
        exact hs.ended x' hx t ht hans
    · rw [hnone] at ht
      nomatch ht
  relinked e he := by
    rw [h.relinked] at he
    obtain ⟨trusted, emailMatches, customer, S, htrust, hsub, hmem⟩ := hs.relinked e he
    exact ⟨trusted, emailMatches, customer, S, htrust, by rw [h.org]; exact hsub, h.events _ hmem⟩
  tier := by
    rcases hs.tier with hfree | ⟨x, hx, hb⟩
    · exact .inl (by rw [h.org]; exact hfree)
    · exact .inr (h.backs hs hx hb)

theorem BillingStore.Moves.sane (h : s.Moves s') {q : Handler} (hq : q.Sane s) :
    q.Sane s' where
  event := h.events _ hq.event
  settled hpast hrel := by
    rw [h.relinked] at hrel
    rw [h.org]
    exact hq.settled hpast hrel
  ended customer S hbody hphase := by
    rw [h.missed, h.org]
    exact hq.ended customer S hbody hphase

theorem BillingStore.mem_emit (hs : s.Books) {e : StripeEvent} :
    e ∈ (s.events.insert ⟨s.clock + 1, body⟩).rows ↔ e ∈ s.events.rows ∨ e = ⟨s.clock + 1, body⟩ := by
  have hfresh : s.events.find (s.clock + 1) = none :=
    Table.find_eq_none.2 fun e he => Nat.ne_of_lt (Nat.lt_succ_of_le (hs.created e he))
  rw [Table.mem_insert]
  exact or_congr_right (and_iff_right hfresh)

theorem BillingStore.live_eq_some (h : s.live S = some x) :
    x ∈ s.subs.rows ∧ x.id = S ∧ x.deletedAt = none := by
  unfold live at h
  rw [Option.filter_eq_some_iff] at h
  exact ⟨Table.mem_of_find h.1, Table.key_of_find h.1, Option.isNone_iff_eq_none.1 h.2⟩

theorem BillingStore.moves_setSub (hs : s.Books) (hlive : s.live S = some x)
    {f : StripeSub → StripeSub} (hf : ∀ x, (f x).id = x.id)
    (hcustomer : (f x).current.customer = x.current.customer)
    (hdead : ∀ t ∈ (f x).deletedAt, t = s.clock + 1 ∧ (f x).current.status = .canceled)
    (hbody : ∀ t ∈ (f x).deletedAt, body = .deleted x.current.customer S)
    (htold : ∀ subs : Subs, f x ∈ subs.rows → body.Told subs (s.clock + 1)) :
    s.Moves { s.emit body with subs := s.setSub S f hf } := by
  obtain ⟨hx, hid, hnone⟩ := live_eq_some hlive
  have hlater : x.Later s.clock (f x) := by
    refine ⟨hf x, hcustomer, fun t ht => ?_, fun _ t ht => ?_⟩
    · rw [hnone] at ht
      nomatch ht
    · rw [(hdead t ht).1]
      exact Nat.lt_succ_self _
  -- the rows afterwards
  have hmem : ∀ x', x' ∈ (s.setSub S f hf).rows ↔ x' = f x ∨ x' ∈ s.subs.rows ∧ x'.id ≠ S := by
    intro x'
    unfold setSub
    rw [Table.mem_update]
    constructor
    · rintro ⟨y, hy, rfl⟩
      by_cases hyS : y.id = S
      · have he : y = x := Table.eq_of_key hy hx (hyS.trans hid.symm)
        subst he
        left
        rw [if_pos (beq_iff_eq.2 hyS)]
      · right
        rw [if_neg fun h => hyS (beq_iff_eq.1 h)]
        exact ⟨hy, hyS⟩
    · rintro (rfl | ⟨hx', hne⟩)
      · exact ⟨x, hx, if_pos (beq_iff_eq.2 hid)⟩
      · exact ⟨x', hx', if_neg fun h => hne (beq_iff_eq.1 h)⟩
  have hbook : ∀ e, e ∈ (s.events.insert ⟨s.clock + 1, body⟩).rows ↔
      e ∈ s.events.rows ∨ e = ⟨s.clock + 1, body⟩ := fun e => mem_emit hs
  refine ⟨rfl, rfl, rfl, rfl, Nat.le_succ _, fun e he => (hbook e).2 (.inl he), fun y hy => ?_,
    fun y hy => ?_, fun e he => ?_, fun y hy => ?_, fun y hy t ht => ?_⟩
  · by_cases hyS : y.id = S
    · have he : y = x := Table.eq_of_key hy hx (hyS.trans hid.symm)
      exact ⟨f x, (hmem _).2 (.inl rfl), he ▸ hlater⟩
    · exact ⟨y, (hmem _).2 (.inr ⟨hy, hyS⟩), .refl _ _⟩
  · left
    rcases (hmem y).1 hy with rfl | ⟨hy, -⟩
    · exact ⟨x, hx, hlater⟩
    · exact ⟨y, hy, .refl _ _⟩
  · rcases (hbook e).1 he with he | rfl
    · exact .inl he
    · exact .inr ⟨Nat.le_refl _, htold _ ((hmem _).2 (.inl rfl))⟩
  · rcases (hmem y).1 hy with rfl | ⟨hy, -⟩
    · rw [hf]
      exact Nat.le_succ_of_le (hs.ids x hx)
    · exact Nat.le_succ_of_le (hs.ids y hy)
  · rcases (hmem y).1 hy with rfl | ⟨hy, -⟩
    · obtain ⟨rfl, hst⟩ := hdead t ht
      refine ⟨hst, (hbook _).2 (.inr ?_)⟩
      rw [hbody _ ht, hcustomer, hf, hid]
    · exact (hs.dead y hy t ht).imp_right fun he => (hbook _).2 (.inl he)

theorem BillingStore.moves_refl (hs : s.Books) : s.Moves s :=
  ⟨rfl, rfl, rfl, rfl, Nat.le_refl _, fun _ he => he, fun x hx => ⟨x, hx, .refl _ _⟩,
    fun x hx => .inl ⟨x, hx, .refl _ _⟩, fun _ he => .inl he, hs.ids, hs.dead⟩

theorem BillingStore.moves_emit (hs : s.Books)
    (htold : body.Told s.subs (s.clock + 1)) : s.Moves (s.emit body) := by
  refine ⟨rfl, rfl, rfl, rfl, Nat.le_succ _, fun e he => (mem_emit hs).2 (.inl he),
    fun x hx => ⟨x, hx, .refl _ _⟩, fun x hx => .inl ⟨x, hx, .refl _ _⟩, fun e he => ?_,
    fun x hx => Nat.le_succ_of_le (hs.ids x hx),
    fun x hx t ht => (hs.dead x hx t ht).imp_right fun he => (mem_emit hs).2 (.inl he)⟩
  rcases (mem_emit hs).1 he with he | rfl
  · exact .inl he
  · exact .inr ⟨Nat.le_refl _, htold⟩

theorem BillingStore.moves_create (hs : s.Books) (customer : CustomerId) (status : SubStatus)
    (price : Option Tier) : s.Moves (BillingCommand.run s (.create customer status price)) := by
  have hfresh : s.subs.find (s.clock + 1) = none :=
    Table.find_eq_none.2 fun x hx => Nat.ne_of_lt (Nat.lt_succ_of_le (hs.ids x hx))
  have hmem : ∀ x, x ∈ (s.subs.insert ⟨⟨s.clock + 1, customer, status, price⟩, none⟩).rows ↔
      x ∈ s.subs.rows ∨ x = ⟨⟨s.clock + 1, customer, status, price⟩, none⟩ := by
    intro x
    rw [Table.mem_insert]
    exact or_congr_right (and_iff_right hfresh)
  refine ⟨rfl, rfl, rfl, rfl, Nat.le_succ _, fun e he => (mem_emit hs).2 (.inl he),
    fun x hx => ⟨x, (hmem x).2 (.inl hx), .refl _ _⟩, fun x hx => ?_, fun e he => ?_,
    fun x hx => ?_, fun x hx t ht => ?_⟩
  · rcases (hmem x).1 hx with hx | rfl
    · exact .inl ⟨x, hx, .refl _ _⟩
    · exact .inr rfl
  · rcases (mem_emit hs).1 he with he | rfl
    · exact .inl he
    · exact .inr ⟨Nat.le_refl _, _, (hmem _).2 (.inr rfl), rfl, rfl, nofun⟩
  · rcases (hmem x).1 hx with hx | rfl
    · exact Nat.le_succ_of_le (hs.ids x hx)
    · exact Nat.le_refl _
  · rcases (hmem x).1 hx with hx | rfl
    · exact (hs.dead x hx t ht).imp_right fun he => (mem_emit hs).2 (.inl he)
    · nomatch ht

theorem BillingStore.moves_change (hs : s.Books) (S : SubId) (status : SubStatus)
    (price : Option Tier) : s.Moves (BillingCommand.run s (.change S status price)) := by
  simp only [BillingCommand.run]
  split
  · exact moves_refl hs
  · next x hlive =>
    obtain ⟨-, hid, hnone⟩ := live_eq_some hlive
    have hnot : ∀ t, t ∉ (x.change status price).deletedAt := by
      intro t ht
      nomatch hnone.symm.trans ht
    exact moves_setSub hs hlive _ rfl (fun t ht => absurd ht (hnot t)) (fun t ht => absurd ht (hnot t))
      fun subs hx => ⟨_, hx, rfl, rfl, fun u hu => absurd hu (hnot u)⟩

theorem BillingStore.moves_delete (hs : s.Books) (S : SubId) :
    s.Moves (BillingCommand.run s (.delete S)) := by
  simp only [BillingCommand.run]
  split
  · exact moves_refl hs
  · next x hlive =>
    obtain ⟨-, hid, -⟩ := live_eq_some hlive
    refine moves_setSub hs hlive _ rfl (fun t ht => ?_) (fun _ _ => rfl)
      fun subs hx => ⟨_, hx, hid, rfl, rfl⟩
    cases ht
    exact ⟨rfl, rfl⟩

theorem StripeAct.moves (hs : s.Books) {a : StripeAct} {q : Option BillingProc}
    (h : a.act s = .run c q) : s.Moves (c.run s) ∧ q = none := by
  cases a with
  | create customer status price =>
    cases h
    exact ⟨BillingStore.moves_create hs _ _ _, rfl⟩
  | change sub status price =>
    cases h
    exact ⟨BillingStore.moves_change hs _ _ _, rfl⟩
  | delete sub =>
    cases h
    exact ⟨BillingStore.moves_delete hs _, rfl⟩
  | checkout paid trusted emailMatches sub =>
    simp only [act] at h
    split at h
    · next x hx =>
      cases h
      exact ⟨BillingStore.moves_emit hs ⟨x, Table.mem_of_find hx, Table.key_of_find hx, rfl⟩, rfl⟩
    · cases h
  | payment paid trusted emailMatches customer =>
    cases h
    exact ⟨BillingStore.moves_emit hs trivial, rfl⟩
  | invoice paid sub =>
    simp only [act] at h
    split at h
    · cases h
      exact ⟨BillingStore.moves_emit hs trivial, rfl⟩
    · cases h

/-! ## The handlers' steps -/

/-- The organization has nothing to lose by an event of the customer that names no subscription. -/
def BillingStore.isSettled (s : BillingStore) (customer : CustomerId) : Bool :=
  s.org.tier == .free || (s.org.sub.bind s.live).any (·.current.customer == customer)

/-- What keeps tiers right. A checkout that names a subscription is linked only while its event
is not answered and no other delivery of it is open; what it writes is what Stripe says then. One
that names none finds the organization free or on a live subscription of its customer. An event of
a subscription comes before the subscription's deletion was missed. -/
def Handler.isTimely (s : BillingStore) (os : List BillingProc) (p : Handler) : Bool :=
  match p.event.body, p.phase with
  | .checkout true _ _ _ (some _), .start =>
    !s.answered.contains p.event.created && os.all fun q => !q.handles p.event
  | .checkout true _ _ customer none, .start => s.isSettled customer
  | .checkout .., .write b => (s.subs.find b.id).any (·.current == b)
  | .subscription b, .start => b.status.isTerminal || !s.missed.contains b.id
  | _, _ => true

theorem OrgBilling.Reached.mono {o' : OrgBilling} (h : o.Reached t) {u : Time}
    (hadmits : o.admits u = true) (ho : o'.lastEventAt = some u) : o'.Reached t := by
  obtain ⟨v, hv, hle⟩ := h
  exact ⟨u, ho, Nat.le_trans hle (admits_iff.1 hadmits v hv)⟩

theorem OrgBilling.reached_of_not_admits (h : o.admits t = false) :
    o.Reached t := by
  have hnot : ¬ ∀ u ∈ o.lastEventAt, u ≤ t := fun hall => by
    rw [admits_iff.2 hall] at h
    nomatch h
  push Not at hnot
  obtain ⟨u, hu, hlt⟩ := hnot
  exact ⟨u, hu, Nat.le_of_lt hlt⟩

theorem OrgBilling.admits_of_relinks {trusted emailMatches : Bool}
    {sub : Option SubId} (h : o.relinks trusted emailMatches sub t = true) : o.admits t = true :=
  (Bool.and_eq_true _ _ ▸ h).1

theorem Subscription.planTier_canceled {b : Subscription} (h : b.status = .canceled) :
    b.planTier = some .free := by
  unfold planTier
  rw [h]
  rfl

theorem OrgBilling.tier_take_terminal {b : Subscription}
    (h : b.status.isTerminal = true) : (o.take b t).tier = .free := by
  have hne : b.status ≠ .incomplete := by
    rintro he
    rw [he] at h
    nomatch h
  show (if b.status = .incomplete then o.tier else b.planTier.getD o.tier) = .free
  rw [if_neg hne, Subscription.planTier, if_pos h]
  rfl

theorem OrgBilling.isOn_of_backs {y : StripeSub} (hb : s.Backs y) :
    s.org.isOn y.current.customer y.id = true := by
  simp only [OrgBilling.isOn, hb.sub, hb.customer, beq_self_eq_true, Bool.or_true, Bool.and_true]

namespace BillingStore.Books

/-- The organization comes to an event of time `t`. -/
theorem ended_reaching (hs : s.Books) (hadmits : s.org.admits t = true) (ho : o.lastEventAt = some t) :
    ∀ x ∈ s.subs.rows, ∀ u ∈ x.deletedAt, u ∈ s.answered → x.id ∈ s.missed ∨ o.Reached u :=
  fun x hx u hu hans => (hs.ended x hx u hu hans).imp_right fun hr => hr.mono hadmits ho

theorem relink (hs : s.Books) {trusted emailMatches : Bool} {customer : CustomerId}
    (he : ⟨t, .checkout true trusted emailMatches customer (some S)⟩ ∈ s.events.rows)
    (hopen : t ∉ s.answered) (hyes : s.org.relinks trusted emailMatches (some S) t = true) :
    (BillingCommand.run s (.relink trusted customer (some S) t)).Books := by
  have htrust : (trusted || emailMatches) = true := by
    simp only [OrgBilling.relinks, Bool.and_eq_true, Bool.or_eq_true] at hyes
    exact Bool.or_eq_true _ _ ▸ hyes.2.imp_right fun h => h.1
  obtain ⟨x, hx, hid, hc⟩ := hs.told _ he
  refine { hs with
    last := ?_
    ended := hs.ended_reaching (OrgBilling.admits_of_relinks hyes) rfl
    relinked := ?_
    tier := .inr ⟨x, hx, congrArg some hid.symm, congrArg some hc.symm, ?_⟩ }
  · intro u hu
    cases hu
    exact hs.created _ he
  · intro e he'
    cases he'
    exact ⟨trusted, emailMatches, customer, S, htrust, rfl, he⟩
  · refine .inr (.inr ⟨_, rfl, hopen, OrgBilling.admits_iff.2 fun u hu => ?_⟩)
    cases hu
    exact Nat.le_refl _

/-- A checkout that names no subscription. -/
theorem relink_payment (hs : s.Books) {trusted emailMatches : Bool} {customer : CustomerId}
    (hle : t ≤ s.clock) (hyes : s.org.relinks trusted emailMatches none t = true)
    (hsettled : s.isSettled customer = true) :
    (BillingCommand.run s (.relink trusted customer none t)).Books := by
  refine { hs with
    last := ?_
    ended := hs.ended_reaching (OrgBilling.admits_of_relinks hyes) rfl
    relinked := fun _ h => (by cases h)
    tier := ?_ }
  · intro u hu
    cases hu
    exact hle
  · rcases Bool.or_eq_true _ _ ▸ hsettled with hfree | hlive
    · exact .inl (beq_iff_eq.1 hfree)
    · obtain ⟨x, hx, hc⟩ := Option.any_eq_true _ _ |>.1 hlive
      obtain ⟨S, hsub, hx⟩ := Option.bind_eq_some_iff.1 hx
      obtain ⟨hmem, hid, hnone⟩ := live_eq_some hx
      exact .inr ⟨x, hmem, hsub.trans (congrArg some hid.symm),
        congrArg some (beq_iff_eq.1 hc).symm, .inl hnone⟩

theorem reconcile (hs : s.Books) (hx : x ∈ s.subs.rows) :
    (BillingCommand.run s (.reconcile x.current)).Books := by
  refine { hs with ended := hs.ended, relinked := fun _ h => (by cases h), tier := ?_ }
  cases hdead : x.deletedAt with
  | none => exact .inr ⟨x, hx, rfl, rfl, .inl hdead⟩
  | some t =>
    left
    show (s.org.reconcile x.current).tier = .free
    unfold OrgBilling.reconcile
    rw [Subscription.planTier_canceled (hs.dead x hx t hdead).1]
    rfl

/-- The subscription of an event that the organization takes stands behind the tier: its
deletion comes later and is not missed. -/
theorem backs_take (hs : s.Books) {b : Subscription} (he : ⟨t, .subscription b⟩ ∈ s.events.rows)
    (hcustomer : s.org.customer = some b.customer) (hadmits : s.org.admits t = true)
    (hterm : b.status.isTerminal = false) (hmissed : b.id ∉ s.missed) :
    ∃ x ∈ s.subs.rows, (BillingCommand.run s (.take b t)).Backs x := by
  obtain ⟨x, hx, hid, hc, hafter⟩ := hs.told _ he
  refine ⟨x, hx, ?_, hcustomer.trans (congrArg some hc.symm), ?_⟩
  · show (if b.status.isTerminal then none else some b.id) = some x.id
    rw [hterm, hid]
    rfl
  · cases hdead : x.deletedAt with
    | none => exact .inl rfl
    | some u =>
      refine .inr (.inl ⟨u, rfl, fun hans => ?_, hid ▸ hmissed, fun v hv => ?_⟩)
      · rcases hs.ended x hx u hdead hans with hm | ⟨v, hv, hle⟩
        · exact hmissed (hid ▸ hm)
        · exact Nat.not_le_of_lt (hafter u hdead)
            (Nat.le_trans hle (OrgBilling.admits_iff.1 hadmits v hv))
      · cases hv
        exact hafter u hdead

theorem take (hs : s.Books) {b : Subscription} (he : ⟨t, .subscription b⟩ ∈ s.events.rows)
    (htakes : s.org.takes b t = true) (htimely : b.status.isTerminal = true ∨ b.id ∉ s.missed) :
    (BillingCommand.run s (.take b t)).Books := by
  simp only [OrgBilling.takes, Bool.and_eq_true, beq_iff_eq] at htakes
  obtain ⟨⟨hcustomer, hadmits⟩, -⟩ := htakes
  refine { hs with
    last := ?_
    ended := hs.ended_reaching hadmits rfl
    relinked := fun _ h => (by cases h)
    tier := ?_ }
  · intro u hu
    cases hu
    exact hs.created _ he
  · cases hterm : b.status.isTerminal with
    | true => exact .inl (OrgBilling.tier_take_terminal hterm)
    | false =>
      exact .inr (hs.backs_take he hcustomer hadmits hterm
        (htimely.resolve_left (by rw [hterm]; exact Bool.false_ne_true)))

theorem downgrade (hs : s.Books) {customer : CustomerId}
    (he : ⟨t, .deleted customer S⟩ ∈ s.events.rows) :
    (BillingCommand.run s (.downgrade customer S t)).Books := by
  obtain ⟨y, hy, rfl, rfl, hdead⟩ := hs.told _ he
  simp only [BillingCommand.run]
  split
  · split
    · next hadmits =>
      refine { hs with
        last := ?_
        ended := hs.ended_reaching hadmits rfl
        relinked := fun _ h => (by cases h)
        tier := .inl rfl }
      intro u hu
      cases hu
      exact hs.created _ he
    · exact hs
  · next hoff =>
    refine { hs with missed := ?_, ended := ?_, relinked := hs.relinked, tier := ?_ }
    · intro S hS
      rcases List.mem_cons.1 hS with rfl | hS
      · exact ⟨y, hy, rfl, by rw [hdead]; rfl⟩
      · exact hs.missed S hS
    · intro z hz u hu hans
      exact (hs.ended z hz u hu hans).imp_left (List.mem_cons_of_mem _)
    · refine hs.tier.imp_right ?_
      rintro ⟨x, hx, hb⟩
      refine ⟨x, hx, hb.sub, hb.customer, hb.why.imp_right (Or.imp_left ?_)⟩
      rintro ⟨u, hu, hans, hm, hlast⟩
      refine ⟨u, hu, hans, fun hmem => ?_, hlast⟩
      -- an organization on the subscription does not miss its deletion
      rcases List.mem_cons.1 hmem with hid | hmem
      · obtain rfl : x = y := Table.eq_of_key hx hy hid
        exact hoff (OrgBilling.isOn_of_backs hb)
      · exact hm hmem

/-- `hended`: a deletion that is answered was missed, or the organization has come to it. -/
theorem answer (hs : s.Books) (hle : t ≤ s.clock)
    (hsettled : t ∈ s.relinked → s.org.admits t = false)
    (hended : ∀ x ∈ s.subs.rows, t ∈ x.deletedAt → x.id ∈ s.missed ∨ s.org.Reached t) :
    (BillingCommand.run s (.answer t)).Books := by
  refine { hs with answered := ?_, ended := ?_, relinked := hs.relinked, tier := ?_ }
  · intro u hu
    rcases List.mem_cons.1 hu with rfl | hu
    · exact hle
    · exact hs.answered u hu
  · intro x hx u hu hans
    rcases List.mem_cons.1 hans with rfl | hans
    · exact hended x hx hu
    · exact hs.ended x hx u hu hans
  · refine hs.tier.imp_right ?_
    rintro ⟨x, hx, hb⟩
    refine ⟨x, hx, hb.sub, hb.customer, ?_⟩
    rcases hb.why with hlive | ⟨u, hu, hans, hm, hlast⟩ | ⟨e, he, hans, hadmits⟩
    · exact .inl hlive
    · refine .inr (.inl ⟨u, hu, fun hmem => ?_, hm, hlast⟩)
      rcases List.mem_cons.1 hmem with rfl | hmem
      · rcases hended x hx hu with hm' | ⟨v, hv, hle'⟩
        · exact hm hm'
        · exact Nat.not_le_of_lt (hlast v hv) hle'
      · exact hans hmem
    · refine .inr (.inr ⟨e, he, fun hmem => ?_, hadmits⟩)
      rcases List.mem_cons.1 hmem with rfl | hmem
      · cases (hsettled he).symm.trans hadmits
      · exact hans hmem

end BillingStore.Books

theorem Handler.event_mem (hp : p.Sane s) (hbody : p.event.body = body) :
    ⟨p.event.created, body⟩ ∈ s.events.rows :=
  hbody ▸ hp.event

/-- **A step of a handler keeps the books.** -/
theorem Handler.Runs.books (h : p.Runs s c phase) (hs : s.Books) (hp : p.Sane s)
    (htimely : p.isTimely s os = true) : (c.run s).Books := by
  cases h with
  | @relink trusted emailMatches customer sub rest hbody hphase hyes =>
    cases sub with
    | none =>
      simp only [isTimely, hbody, hphase] at htimely
      exact hs.relink_payment (hs.created _ hp.event) hyes htimely
    | some S =>
      simp only [isTimely, hbody, hphase, Bool.and_eq_true, Bool.not_eq_true'] at htimely
      exact hs.relink (event_mem hp hbody) (by simpa using htimely.1) hyes
  | @reconcile _ _ _ _ _ b rest hbody hphase =>
    simp only [isTimely, hbody, hphase] at htimely
    obtain ⟨x, hx, heq⟩ := Option.any_eq_true _ _ |>.1 htimely
    obtain rfl := beq_iff_eq.1 heq
    exact hs.reconcile (Table.mem_of_find hx)
  | cancel hbody hpast => exact (BillingStore.moves_delete hs _).books hs
  | forget | forgetDeleted | bill =>
    exact { hs with
      relinked := hs.relinked
      ended := hs.ended
      tier := hs.tier.imp_right (by
        rintro ⟨x, hx, hb⟩
        exact ⟨x, hx, hb.sub, hb.customer, hb.why⟩) }
  | @take b hbody hphase htakes =>
    simp only [isTimely, hbody, hphase, Bool.or_eq_true, Bool.not_eq_true'] at htimely
    exact hs.take (event_mem hp hbody) htakes (htimely.imp_right fun h => by simpa using h)
  | downgrade hbody => exact hs.downgrade (event_mem hp hbody)
  | answer hphase =>
    refine hs.answer (hs.created _ hp.event) (hp.settled (by rw [hphase]; rfl)) fun x hx ht => ?_
    have heq := Table.eq_of_key hp.event (hs.dead x hx _ ht).2 rfl
    exact hp.ended x.current.customer x.id (by rw [heq]) (.inr hphase)

theorem Handler.Runs.own {next : HandlerPhase} (h : p.Runs s c (some next)) (hs : s.Books)
    (hp : p.Sane s) : Handler.Sane (c.run s) { p with phase := next } := by
  cases h with
  | @relink trusted emailMatches customer sub rest hbody hphase hyes =>
    refine ⟨hp.event, fun hpast => ?_, fun customer S hdel => nomatch hbody.symm.trans hdel⟩
    cases sub with
    | none => exact nofun
    | some S => nomatch hpast
  | reconcile hbody | take hbody =>
    exact ⟨hp.event, nofun, fun customer S hdel => nomatch hbody.symm.trans hdel⟩
  | @cancel _ _ _ _ _ id _ hbody hpast =>
    have hmoved := (BillingStore.moves_delete hs id).sane hp
    exact ⟨hmoved.event, fun _ => hmoved.settled hpast, fun customer S hdel =>
      nomatch hbody.symm.trans hdel⟩
  | forget hbody hpast =>
    exact ⟨hp.event, fun _ => hp.settled hpast, fun customer S hdel =>
      nomatch hbody.symm.trans hdel⟩
  | bill hbody =>
    refine ⟨hp.event, fun _ hrel => ?_, fun customer S hdel => nomatch hbody.symm.trans hdel⟩
    obtain ⟨_, _, _, _, -, -, hbody'⟩ := hs.relinked_body hp.event hrel
    nomatch hbody.symm.trans hbody'
  | @downgrade customer sub hbody =>
    have hrun : (BillingCommand.run s (.downgrade customer sub p.event.created)).events = s.events ∧
        (sub ∈ (BillingCommand.run s (.downgrade customer sub p.event.created)).missed ∨
          (BillingCommand.run s (.downgrade customer sub p.event.created)).org.Reached
            p.event.created) := by
      simp only [BillingCommand.run]
      split
      · split
        · exact ⟨rfl, .inr ⟨_, rfl, Nat.le_refl _⟩⟩
        · next hno => exact ⟨rfl, .inr (OrgBilling.reached_of_not_admits (Bool.eq_false_iff.2 hno))⟩
      · exact ⟨rfl, .inl List.mem_cons_self⟩
    refine ⟨by rw [hrun.1]; exact hp.event, nofun, fun customer' S hdel _ => ?_⟩
    cases hbody.symm.trans hdel
    exact hrun.2
  | forgetDeleted hbody hphase =>
    refine ⟨hp.event, fun _ hrel => ?_, fun customer S hdel _ =>
      hp.ended customer S hdel (.inl hphase)⟩
    obtain ⟨_, _, _, _, -, -, hbody'⟩ := hs.relinked_body hp.event hrel
    nomatch hbody.symm.trans hbody'

theorem Handler.Runs.other (h : p.Runs s c phase) (hs : s.Books) (hp : p.Sane s)
    (htimely : p.isTimely s os = true) {q : Handler} (hq : q.Sane s)
    (hmem : BillingProc.handler q ∈ os) : q.Sane (c.run s) := by
  cases h with
  | @relink trusted emailMatches customer sub rest hbody hphase hyes =>
    refine ⟨hq.event, fun _ hrel => ?_, fun customer S hdel hph => ?_⟩
    · cases sub with
      | none => nomatch hrel
      | some S =>
        -- no other handler has this event
        simp only [isTimely, hbody, hphase, Bool.and_eq_true] at htimely
        have hne := List.all_eq_true.1 htimely.2 _ hmem
        have hcreated : p.event.created = q.event.created := Option.some.inj hrel
        have heq := Table.eq_of_key hq.event hp.event hcreated.symm
        simp [BillingProc.handles, heq] at hne
    · exact (hq.ended customer S hdel hph).imp_right fun hr =>
        hr.mono (OrgBilling.admits_of_relinks hyes) rfl
  | reconcile hbody hphase => exact ⟨hq.event, nofun, hq.ended⟩
  | cancel hbody hpast => exact (BillingStore.moves_delete hs _).sane hq
  | forget | forgetDeleted | bill | answer => exact ⟨hq.event, hq.settled, hq.ended⟩
  | take hbody hphase htakes =>
    refine ⟨hq.event, nofun, fun customer S hdel hph => ?_⟩
    simp only [OrgBilling.takes, Bool.and_eq_true] at htakes
    exact (hq.ended customer S hdel hph).imp_right fun hr => hr.mono htakes.1.2 rfl
  | downgrade hbody =>
    simp only [BillingCommand.run]
    split
    · split
      · next hadmits =>
        exact ⟨hq.event, nofun, fun customer S hdel hph =>
          (hq.ended customer S hdel hph).imp_right fun hr => hr.mono hadmits rfl⟩
      · exact hq
    · exact ⟨hq.event, hq.settled, fun customer S hdel hph =>
        (hq.ended customer S hdel hph).imp_left (List.mem_cons_of_mem _)⟩

theorem Handler.Goes.sane {next : HandlerPhase} (h : p.Goes s next) (hs : s.Books) (hp : p.Sane s) :
    Handler.Sane s { p with phase := next } := by
  cases h with
  | unpaid hbody | subscription hbody | invoice hbody =>
    refine ⟨hp.event, fun _ hrel => ?_, fun customer S hdel => nomatch hbody.symm.trans hdel⟩
    obtain ⟨_, _, _, _, -, -, hbody'⟩ := hs.relinked_body hp.event hrel
    nomatch hbody.symm.trans hbody'
  | skipped hbody hno =>
    refine ⟨hp.event, fun _ hrel => ?_, fun customer S hdel => nomatch hbody.symm.trans hdel⟩
    obtain ⟨_, _, _, S, htrust, hsub, hbody'⟩ := hs.relinked_body hp.event hrel
    cases hbody.symm.trans hbody'
    -- on its subscription already, the organization refuses the checkout only as an old one
    simp only [OrgBilling.relinks, hsub, Option.isSome_some, beq_self_eq_true, Bool.and_true,
      Bool.or_true, Bool.true_or, htrust] at hno
    exact hno
  | fetched => exact ⟨hp.event, nofun, nofun⟩
  | retiring hbody hpast =>
    exact ⟨hp.event, fun _ => hp.settled hpast, fun customer S hdel =>
      nomatch hbody.symm.trans hdel⟩

/-! ## The result -/

def BillingProc.Sane (s : BillingStore) : BillingProc → Prop
  | handler p => p.Sane s
  | _ => True

def BillingProc.isTimely (s : BillingStore) (os : List BillingProc) : BillingProc → Bool
  | handler p => p.isTimely s os
  | _ => true

@[reducible] def timely : PoolSpec.Allow subscriptions.pool :=
  .onRun subscriptions.pool fun s os p => BillingProc.isTimely s os p

theorem subscriptions_kept : PoolSpec.Kept subscriptions.pool timely BillingStore.Books
    BillingProc.Sane fun _ _ _ => True := by
  refine @CommandSpec.Keeps.kept subscriptions timely _ _ _ ?_
  refine ⟨fun _ => trivial, fun {s a} _ hs => ?_, fun _ _ hq => ⟨hq, trivial⟩, fun _ => trivial,
    fun {s os p p'} h _ hb => ⟨?_, fun _ _ => trivial⟩, fun {s os p c p'} h hA hb => ?_⟩
  · cases a with
    | deliver | stripe => exact ⟨hs, trivial⟩
  · have h : p.act s os = .stay p' := Option.some.inj h
    cases p with
    | delivery t retries fetchFails cancelFails takesOver =>
      simp only [BillingProc.act] at h
      split at h
      · next e he =>
        split at h
        · cases h
        · cases h
          refine ⟨Table.mem_of_find he, fun h => ?_, fun _ _ _ hph => ?_⟩
          · cases h
          · rcases hph with h | h <;> cases h
      · cases h
    | handler p =>
      obtain ⟨phase, rfl, hgoes⟩ := p.turns.of_stay (congrArg some h)
      exact hgoes.sane hb.store hb.own
    | stripe a =>
      cases a with
      | create | change | delete | payment => cases h
      | checkout | invoice =>
        simp only [BillingProc.act, StripeAct.act] at h
        split at h <;> cases h
  · have h : p.act s os = .run c p' := Option.some.inj h
    cases p with
    | delivery t retries fetchFails cancelFails takesOver =>
      simp only [BillingProc.act] at h
      split at h
      · split at h <;> cases h
      · cases h
    | handler p =>
      obtain ⟨phase, rfl, hruns⟩ := p.turns.of_run (congrArg some h)
      have htimely : p.isTimely s os = true := hA
      refine ⟨hruns.books hb.store hb.own htimely, fun r hr => ?_, fun q hq => ?_,
        fun _ _ _ _ _ => trivial⟩
      · obtain ⟨next, rfl, rfl⟩ := Option.map_eq_some_iff.1 hr
        exact ⟨hruns.own hb.store hb.own, fun _ _ => trivial⟩
      · cases q with
        | handler q => exact hruns.other hb.store hb.own htimely (hb.others _ hq) hq
        | delivery | stripe => trivial
    | stripe a =>
      obtain ⟨hmoves, rfl⟩ := StripeAct.moves hb.store h
      refine ⟨hmoves.books hb.store, fun _ hr => absurd hr (Option.not_mem_none _), fun q hq => ?_,
        fun _ _ _ _ _ => trivial⟩
      cases q with
      | handler q => exact hmoves.sane (hb.others _ hq)
      | delivery | stripe => trivial

/-- Before the first event, the organization is on the free tier or on a live subscription. -/
structure BillingStore.IsStart (s : BillingStore) : Prop where
  events : s.events.rows = []
  answered : s.answered = []
  missed : s.missed = []
  relinked : s.relinked = none
  subs : ∀ x ∈ s.subs.rows, x.deletedAt = none ∧ x.id ≤ s.clock
  last : ∀ t ∈ s.org.lastEventAt, t ≤ s.clock
  tier : s.org.tier = .free ∨ ∃ x ∈ s.subs.rows, s.org.sub = some x.id ∧
    s.org.customer = some x.current.customer

theorem BillingStore.IsStart.books (h : s.IsStart) : s.Books where
  last := h.last
  answered t ht := by
    rw [h.answered] at ht
    nomatch ht
  created e he := by
    rw [h.events] at he
    nomatch he
  ids x hx := (h.subs x hx).2
  dead x hx t ht := by
    rw [(h.subs x hx).1] at ht
    nomatch ht
  told e he := by
    rw [h.events] at he
    nomatch he
  missed S hS := by
    rw [h.missed] at hS
    nomatch hS
  ended x hx t ht := by
    rw [(h.subs x hx).1] at ht
    nomatch ht
  relinked e he := by
    rw [h.relinked] at he
    nomatch he
  tier := h.tier.imp_right fun ⟨x, hx, hsub, hc⟩ => ⟨x, hx, hsub, hc, .inl (h.subs x hx).1⟩

def subscriptionSystem : Machine := subscriptions.pool.machine BillingStore.IsStart

/-- **A cancelled subscription does not leave a paid tier.** Once every event is answered, an
organization that is on no live subscription is on the free tier. -/
theorem canceled_subscription_is_free {x : Pool BillingStore BillingProc}
    {h : List (Pool BillingStore BillingProc × PoolLabel BillingAsk)}
    (hr : subscriptionSystem.Run x h) (htimely : subscriptionSystem.Steps timely.step h)
    (hdone : ∀ e ∈ x.store.events.rows, e.created ∈ x.store.answered)
    (hdead : ∀ b ∈ x.store.subs.rows, x.store.org.sub = some b.id → b.deletedAt.isSome = true) :
    x.store.org.tier = .free := by
  have hs : x.store.Books :=
    (subscriptions_kept.invariant (fun _ hs => BillingStore.IsStart.books hs) hr htimely).store
  rcases hs.tier with hfree | ⟨b, hb, hback⟩
  · exact hfree
  · exfalso
    obtain ⟨t, ht⟩ := Option.isSome_iff_exists.1 (hdead b hb hback.sub)
    rcases hback.why with hlive | ⟨u, hu, hans, -⟩ | ⟨e, he, hans, -⟩
    · nomatch hlive.symm.trans ht
    · exact hans (hdone _ (hs.dead b hb u hu).2)
    · obtain ⟨_, _, _, _, -, -, hmem⟩ := hs.relinked e he
      exact hans (hdone _ hmem)

/-! ## A deletion between the fetch and the write -/

def noSubscriptions : Pool BillingStore BillingProc := ⟨{}, []⟩

theorem noSubscriptions_isStart : noSubscriptions.store.IsStart :=
  ⟨rfl, rfl, rfl, rfl, nofun, nofun, .inl rfl⟩

def atStripe (a : StripeAct) : List (PoolLabel BillingAsk) := [.ask (.stripe a), .run 0]

/-- The event of that time is delivered, and its handler takes the first steps. -/
def deliverFor (t : Time) (steps : Nat) : List (PoolLabel BillingAsk) :=
  .ask (.deliver t true false false false) :: List.replicate (steps + 1) (.run 0)

/-- Every event is answered and every subscription deleted. -/
def BillingStore.isOver (s : BillingStore) : Bool :=
  s.events.rows.all (fun e => s.answered.contains e.created) &&
    s.subs.rows.all fun b => b.deletedAt.isSome

theorem BillingStore.isOver_iff : s.isOver = true ↔
    (∀ e ∈ s.events.rows, e.created ∈ s.answered) ∧
      ∀ b ∈ s.subs.rows, b.deletedAt.isSome = true := by
  simp [isOver, List.all_eq_true]

/-- A checkout is handled before the subscription is deleted. -/
theorem canceled_subscription_is_free_checkout : ∃ x h, subscriptionSystem.Run x h ∧
    subscriptionSystem.Steps timely.step h ∧ x.store.events.rows.length = 3 ∧
    x.store.org.tier = .free := by
  obtain ⟨x, h, hr, hsteps, hp⟩ := timely.run_of_exec BillingStore.IsStart
    (atStripe (.create 7 .active (some .pro)) ++ atStripe (.checkout true true true 1) ++
      deliverFor 2 6 ++ deliverFor 1 3 ++ atStripe (.delete 1) ++ deliverFor 3 3) noSubscriptions
    (fun x => BillingStore.isOver x.1.store && x.1.store.events.rows.length == 3)
    ⟨noSubscriptions_isStart, rfl⟩ (by decide +kernel)
  simp only [Bool.and_eq_true, beq_iff_eq] at hp
  obtain ⟨hover, hlen⟩ := hp
  obtain ⟨hdone, hdead⟩ := BillingStore.isOver_iff.1 hover
  exact ⟨x, h, hr, hsteps, hlen,
    canceled_subscription_is_free hr hsteps hdone fun b hb _ => hdead b hb⟩

/-- The subscription is deleted, and its deletion handled, after a checkout has fetched it and
before the checkout writes what it fetched. -/
theorem deletion_before_reconcile : ∃ x h, subscriptionSystem.Run x h ∧ x.procs = [] ∧
    (∀ e ∈ x.store.events.rows, e.created ∈ x.store.answered) ∧
    (∀ b ∈ x.store.subs.rows, b.deletedAt.isSome = true) ∧ x.store.org.tier = .pro := by
  obtain ⟨x, h, hr, hp⟩ := Machine.Run.of_exec subscriptionSystem
    (atStripe (.create 7 .active (some .pro)) ++ atStripe (.checkout true true true 1) ++
      deliverFor 2 2 ++ atStripe (.delete 1) ++ deliverFor 3 3 ++ List.replicate 4 (.run 0) ++
      deliverFor 1 3) noSubscriptions
    (fun x => List.isEmpty x.1.procs && BillingStore.isOver x.1.store &&
      decide (OrgBilling.tier x.1.store.org = .pro))
    ⟨noSubscriptions_isStart, rfl⟩ (by decide +kernel)
  simp only [Bool.and_eq_true, decide_eq_true_eq, List.isEmpty_iff] at hp
  obtain ⟨⟨hprocs, hover⟩, htier⟩ := hp
  obtain ⟨hdone, hdead⟩ := BillingStore.isOver_iff.1 hover
  exact ⟨x, h, hr, hprocs, hdone, hdead, htier⟩

end Spooled.Billing
