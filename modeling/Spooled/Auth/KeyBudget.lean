import Spooled.Auth.KeyStep
import Mathlib

/-!
# The budget of failed authentications

A scan is charged before it starts, and the charge is taken back when the key is
found or the scan never ran. The counter of a budget is then the number of
charges of its window that were not taken back, provided that a refund meets the
window it was charged in, and that the `DEL` of an empty counter meets an empty
counter. From this the bound follows: a scan starts only while the counter is
within the limit.
-/

namespace Spooled.Auth

variable {crypto : Crypto} {s : Site} {os : List Proc} {c : Command} {b : FailedAuthBudget}

/-! ## What happens to a charge -/

/-- Phases from the charge to the refund, or to the failure. -/
def AuthPhase.owing : AuthPhase → Bool
  | .candidates | .turn _ | .recheckCache | .recheckMiss | .find .waited | .verifyFound .waited _
  | .candidatesAgain | .verifyNext _ | .backfill _ | .publish _ | .find .retry
  | .verifyFound .retry _ | .refundDecr _ | .setMiss => true
  | _ => false

def AuthPhase.early : AuthPhase → Bool
  | .readCache | .readMiss | .find .fast | .verifyFound .fast _ | .join | .await | .charge => true
  | _ => false

/-- The request was charged to the budget in window `w`, and the charge stands. -/
def AuthProc.owes (b : FailedAuthBudget) (w : Nat) (p : AuthProc) : Bool :=
  p.budget == b && p.phase.owing && p.charged == some w

def Proc.owes (b : FailedAuthBudget) (w : Nat) : Proc → Bool
  | .auth p => p.owes b w
  | _ => false

inductive BudgetEvent
  /-- A scan is charged in window `w`. -/
  | charged (w : Nat)
  /-- A request is charged and does not scan. -/
  | denied (w : Nat)
  | refunded (w : Nat)
  /-- A charged request ends without a key, or is cancelled. -/
  | failed (w : Nat)
deriving DecidableEq, Repr

namespace BudgetEvent

/-- One more charge of window `w` stands. -/
def opens (w : Nat) : Option BudgetEvent → Nat
  | some (charged w') => if w' = w then 1 else 0
  | _ => 0

def closes (w : Nat) : Option BudgetEvent → Nat
  | some (refunded w') | some (failed w') => if w' = w then 1 else 0
  | _ => 0

end BudgetEvent

def AuthProc.event (s : Site) (p : AuthProc) : Option BudgetEvent :=
  match p.phase with
  | .charge =>
    if (s.chargeCounter p.budget).value ≤ p.budget.limit then
      some (.charged (((Command.charge p.budget).run s).windows p.budget))
    else some (.denied (((Command.charge p.budget).run s).windows p.budget))
  | .refundDecr _ => p.charged.map .refunded
  | .setMiss => p.charged.map .failed
  | _ => none

section

variable (b : FailedAuthBudget)

def Proc.event (s : Site) : Proc → Option BudgetEvent
  | .auth p => if p.budget = b then p.event s else none
  | _ => none

def Proc.cancelled : Proc → Option BudgetEvent
  | .auth p => if p.budget = b ∧ p.phase.owing = true then p.charged.map .failed else none
  | _ => none

def budgetEvent (x : Pool Site Proc) : PoolLabel Arrival → Option BudgetEvent
  | .ask _ => none
  | .run j => x.procs[j]?.bind (Proc.event b x.store)
  | .drop j => x.procs[j]?.bind (Proc.cancelled b)

def tally (h : List (Pool Site Proc × PoolLabel Arrival))
    (e : BudgetEvent) : Nat :=
  h.countP fun z => budgetEvent b z.1 z.2 == some e

def owing (w : Nat) (ps : List Proc) : Nat := ps.countP (Proc.owes b w)

end

/-! ## Steps of one request -/

/-- A request is charged once, in a window that has been. -/
structure AuthProc.ChargedOnce (s : Site) (p : AuthProc) : Prop where
  early : p.phase.early = true → p.charged = none
  window : ∀ w ∈ p.charged, w ≤ s.windows p.budget

def Proc.ChargedOnce (s : Site) : Proc → Prop
  | .auth p => p.ChargedOnce s
  | _ => True

namespace AuthProc

variable {p q : AuthProc} {w : Nat}

theorem Stays.owing (h : Stays crypto s os p q) (hp : p.phase.early = true → p.charged = none) :
    q.charged = p.charged ∧ q.budget = p.budget ∧ p.event s = none ∧
      (q.phase.early = true → p.phase.early = true) ∧
      (q.phase.owing = p.phase.owing ∨ p.charged = none) := by
  unfold event
  cases h with
  | @indexed u k h hk =>
    rw [h]
    cases u <;> exact ⟨rfl, rfl, rfl, id, .inl rfl⟩
  | @unindexed u h hk | @unverified u r h hv =>
    rw [h]
    cases u with
    | fast => exact ⟨rfl, rfl, rfl, id, .inl rfl⟩
    | waited | retry => exact ⟨rfl, rfl, rfl, nofun, .inl rfl⟩
  | @verified u r h hv =>
    rw [h] at hp ⊢
    cases u with
    | fast => exact ⟨rfl, rfl, rfl, nofun, .inr (hp rfl)⟩
    | waited => exact ⟨rfl, rfl, rfl, nofun, .inl rfl⟩
    | retry =>
      by_cases hc : p.charged.isSome = true
      · have he : p.found r .retry = .refundDecr (.cache r) := if_pos hc
        rw [he]
        exact ⟨rfl, rfl, rfl, nofun, .inl rfl⟩
      · have he : p.found r .retry = .reread r := if_neg hc
        rw [he]
        exact ⟨rfl, rfl, rfl, nofun, .inr (Option.not_isSome_iff_eq_none.1 hc)⟩
  | @told scan h | hit h | noRecord h | miss h | noMiss h | join h | impatient h | lead h =>
    rw [h] at hp ⊢
    exact ⟨rfl, rfl, rfl, fun _ => rfl, .inr (hp rfl)⟩
  | reread h | inactive h | finish h | noCandidates h | candidates h | busy h | waited h | turn h
  | recheckHit h | recheckNoRecord h | recheckMissed h | recheckNoMiss h | candidatesAgain h
  | exhausted h | matched h | unmatched h =>
    rw [h]
    exact ⟨rfl, rfl, rfl, nofun, .inl rfl⟩

theorem Stays.owes_eq (h : Stays crypto s os p q) (hp : p.phase.early = true → p.charged = none)
    (b : FailedAuthBudget) (w : Nat) : q.owes b w = p.owes b w := by
  obtain ⟨hc, hb, -, -, ho⟩ := h.owing hp
  unfold owes
  rw [hc, hb]
  rcases ho with ho | ho
  · rw [ho]
  · rw [ho]
    simp

theorem owes_iff : p.owes b w = true ↔ p.budget = b ∧ p.phase.owing = true ∧ p.charged = some w := by
  simp [owes, and_assoc]

theorem Runs.owes_eq (h : Runs crypto s p c q) (b : FailedAuthBudget) (w : Nat) :
    (if q.owes b w then 1 else 0) + BudgetEvent.closes w ((Proc.auth p).event b s) =
      (if p.owes b w then 1 else 0) + BudgetEvent.opens w ((Proc.auth p).event b s) := by
  have hmap : ∀ (f : Nat → BudgetEvent), f = .refunded ∨ f = .failed →
      BudgetEvent.closes w (p.charged.map f) = (if p.charged = some w then 1 else 0) ∧
        BudgetEvent.opens w (p.charged.map f) = 0 := by
    intro f hf
    cases hc : p.charged with
    | none => simp [BudgetEvent.closes, BudgetEvent.opens]
    | some w' => rcases hf with rfl | rfl <;> simp [BudgetEvent.closes, BudgetEvent.opens]
  unfold Proc.event
  by_cases hb : p.budget = b
  · subst hb
    cases h with
    | charge h hle =>
      simp [event, owes, AuthPhase.owing, BudgetEvent.closes, BudgetEvent.opens, h, hle]
    | overBudget h hlt =>
      simp [event, owes, AuthPhase.owing, BudgetEvent.closes, BudgetEvent.opens, h, hlt]
    | decr h | setMiss h => simp [event, owes, AuthPhase.owing, h, hmap]
    | @refunded a h => cases a <;> simp [event, owes, AuthPhase.owing, After.phase, h, hmap]
    | @del a h =>
      cases a <;>
        simp [event, owes, AuthPhase.owing, After.phase, BudgetEvent.closes, BudgetEvent.opens, h]
    | setRecord h | setReverse h | backfill h | missed h | found h | busy h =>
      simp [event, owes, AuthPhase.owing, BudgetEvent.closes, BudgetEvent.opens, h]
  · have hno : q.owes b w = false ∧ p.owes b w = false := by
      cases h <;> simp [owes, hb]
    simp [hno, hb, BudgetEvent.closes, BudgetEvent.opens]

end AuthProc

/-! ## Steps of the pool -/

section Pool

variable {w : Nat}

theorem owing_cons (p : Proc) (ps : List Proc) :
    owing b w (p :: ps) = (if p.owes b w then 1 else 0) + owing b w ps := by
  unfold owing
  rw [List.countP_cons, Nat.add_comm]

theorem Proc.owes_tell (c : Command) (q : Proc) : (c.tell crypto q).owes b w = q.owes b w := by
  cases q with
  | auth q =>
    cases c with
    | publish f scan =>
      show Proc.owes b w (.auth (if _ then _ else _)) = _
      split <;> rfl
    | _ => rfl
  | edit | clock | organization => cases c <;> rfl

theorem owing_tell (c : Command) (ps : List Proc) :
    owing b w (ps.map (c.tell crypto)) = owing b w ps := by
  unfold owing
  rw [List.countP_map]
  exact List.countP_congr fun q _ => by rw [Function.comp_apply, Proc.owes_tell]

end Pool

/-! ## Windows -/

theorem Command.windows_le_run (s : Site) (c : Command) (b : FailedAuthBudget) :
    s.windows b ≤ (c.run s).windows b := by
  cases c with
  | charge b' =>
    show s.windows b ≤ Function.update s.windows b' _ b
    by_cases hb : b = b'
    · subst hb
      rw [Function.update_self]
      split <;> omega
    · rw [Function.update_of_ne hb]
  | _ => exact le_refl _

theorem Proc.ChargedOnce.run {q : Proc} (h : q.ChargedOnce s) (c : Command) :
    q.ChargedOnce (c.run s) := by
  cases q with
  | auth q => exact ⟨h.early, fun w hw => (h.window w hw).trans (Command.windows_le_run s c _)⟩
  | edit | clock | organization => trivial

theorem Proc.ChargedOnce.tell {q : Proc} (h : q.ChargedOnce s) :
    (c.tell crypto q).ChargedOnce s := by
  cases q with
  | auth q =>
    cases c with
    | publish f scan =>
      show Proc.ChargedOnce s (.auth (if _ then _ else _))
      split
      · exact ⟨h.early, h.window⟩
      · exact h
    | _ => exact h
  | edit | clock | organization => cases c <;> trivial

theorem AuthProc.ChargedOnce.runs {p q : AuthProc} (h : p.ChargedOnce s)
    (hruns : AuthProc.Runs crypto s p c q) : q.ChargedOnce (c.run s) := by
  have hkeep : q.charged = p.charged → q.budget = p.budget → q.phase.early = false →
      q.ChargedOnce (c.run s) := by
    intro hc hb he
    refine ⟨fun h => absurd h (by simp [he]), fun w hw => ?_⟩
    rw [hb]
    exact (h.window w (hc ▸ hw)).trans (Command.windows_le_run s c _)
  cases hruns with
  | charge hphase hle =>
    refine ⟨nofun, fun w hw => ?_⟩
    cases hw
    exact le_refl _
  | @refunded a | @del a => cases a <;> exact hkeep rfl rfl rfl
  | _ => exact hkeep rfl rfl rfl

/-- **One charge per request**, in a window that has been. -/
theorem charged_once (crypto : Crypto) (A : PoolSpec.Allow (keyRequests crypto)) :
    PoolSpec.Kept (keyRequests crypto) A (fun _ => True) Proc.ChargedOnce fun _ _ _ => True where
  symm _ := trivial
  ask {s a} _ _ := by
    refine ⟨trivial, ?_⟩
    cases a with
    | authenticate => exact ⟨fun _ => rfl, nofun⟩
    | edit | clock | organization => trivial
  ask_other _ _ hq := ⟨hq, trivial⟩
  ask_pair _ := trivial
  stay {s os p p'} he _ hb := by
    refine ⟨?_, fun _ _ => trivial⟩
    cases Proc.moves (keyRequests_stay he) with
    | @stay p q hstays =>
      have hp : p.ChargedOnce s := hb.own
      obtain ⟨hc, hbudget, -, hearly, -⟩ := hstays.owing hp.early
      refine ⟨fun h => hc.trans (hp.early (hearly h)), fun w hw => ?_⟩
      rw [hbudget]
      exact hp.window w (hc ▸ hw)
    | edit => trivial
  share {s os p s' p' tell} he _ hb := by
    obtain ⟨c, hm, rfl, rfl⟩ := keyRequests_share he
    refine ⟨trivial, fun r hr => ⟨?_, fun _ _ => trivial⟩, fun r hr => ((hb.others r hr).run c).tell,
      fun _ _ _ _ _ => trivial⟩
    cases Proc.moves hm with
    | run hruns =>
      cases hr
      exact AuthProc.ChargedOnce.runs hb.own hruns
    | assign | delRecord | delReverse =>
      cases hr
      trivial
    | clock | organization => cases hr

/-! ## The counter -/

/-- A refund meets the window it was charged in, and the `DEL` of an empty counter an empty one. -/
def AuthProc.refundsInTime (s : Site) (p : AuthProc) : Bool :=
  match p.phase with
  | .refundDecr _ => (s.counter p.budget).isSome && p.charged == some (s.windows p.budget)
  | .refundDel _ => (s.counter p.budget).all (·.value ≤ 0)
  | _ => true

def Proc.refundsInTime (s : Site) : Proc → Bool
  | .auth p => p.refundsInTime s
  | _ => true

@[reducible] def refundsInTime (crypto : Crypto) : PoolSpec.Allow (keyRequests crypto) :=
  .onRun (keyRequests crypto) fun s _ p => Proc.refundsInTime s p

/-- What an event does to the counter of the budget. -/
inductive CounterStep (b : FailedAuthBudget) (s s' : Site) : Option BudgetEvent → Prop
  | charged (hc : s'.counters b = some (s.chargeCounter b))
      (hw : s'.windows b = if (s.chargeCounter b).value = 1 then s.windows b + 1 else s.windows b)
      (hle : (s.chargeCounter b).value ≤ b.limit) :
      CounterStep b s s' (some (.charged (s'.windows b)))
  | denied (hc : s'.counters b = some (s.chargeCounter b))
      (hw : s'.windows b = if (s.chargeCounter b).value = 1 then s.windows b + 1 else s.windows b)
      (hlt : ¬ (s.chargeCounter b).value ≤ b.limit) :
      CounterStep b s s' (some (.denied (s'.windows b)))
  | refunded {c : Counter} (hlive : s.counter b = some c)
      (hc : s'.counters b = some ⟨c.value - 1, c.deadline⟩) (hw : s'.windows b = s.windows b) :
      CounterStep b s s' (some (.refunded (s.windows b)))
  | failed {w : Nat} (hc : s'.counters b = s.counters b) (hw : s'.windows b = s.windows b) :
      CounterStep b s s' (some (.failed w))
  | cleared (hempty : ∀ c, s.counter b = some c → c.value ≤ 0) (hc : s'.counters b = Option.none)
      (hw : s'.windows b = s.windows b) : CounterStep b s s' none
  | none (hc : s'.counters b = s.counters b) (hw : s'.windows b = s.windows b) :
      CounterStep b s s' none

def Command.budget : Command → Option FailedAuthBudget
  | charge b | decr b | del b => some b
  | _ => none

theorem CounterStep.refl (b : FailedAuthBudget) (s : Site) : CounterStep b s s Option.none :=
  .none rfl rfl

theorem Command.counterStep_of_ne (hb : c.budget ≠ some b) : CounterStep b s (c.run s) none := by
  cases c with
  | charge b' =>
    have hne : b ≠ b' := fun h => hb (congrArg some h.symm)
    exact .none (Function.update_of_ne hne _ s.counters) (Function.update_of_ne hne _ s.windows)
  | decr b' | del b' =>
    have hne : b ≠ b' := fun h => hb (congrArg some h.symm)
    exact .none (Function.update_of_ne hne _ s.counters) rfl
  | _ => exact .none rfl rfl

theorem AuthProc.Runs.budget {p q : AuthProc} (h : AuthProc.Runs crypto s p c q) :
    ∀ b ∈ c.budget, b = p.budget := by
  cases h <;> simp [Command.budget]

theorem AuthProc.Runs.counterStep {p q : AuthProc} (h : AuthProc.Runs crypto s p c q)
    (hA : p.refundsInTime s = true) (b : FailedAuthBudget) :
    CounterStep b s (c.run s) ((Proc.auth p).event b s) := by
  by_cases hb : p.budget = b
  · subst hb
    have hev : (Proc.auth p).event p.budget s = p.event s := if_pos rfl
    rw [hev]
    unfold AuthProc.event
    unfold AuthProc.refundsInTime at hA
    cases h with
    | charge h hle =>
      simp only [h, if_pos hle]
      exact .charged (Function.update_self ..) (Function.update_self ..) hle
    | overBudget h hlt =>
      simp only [h, if_neg hlt]
      exact .denied (Function.update_self ..) (Function.update_self ..) hlt
    | decr h | refunded h =>
      simp only [h, Bool.and_eq_true, Option.isSome_iff_exists, beq_iff_eq] at hA
      obtain ⟨⟨v, hv⟩, hw⟩ := hA
      simp only [h, hw, Option.map_some]
      have hd : s.decrCounter p.budget = ⟨v.value - 1, v.deadline⟩ := by
        simp only [Site.decrCounter, hv]
      exact .refunded hv ((Function.update_self ..).trans (congrArg some hd)) rfl
    | del h =>
      simp only [h] at hA ⊢
      refine .cleared (fun v hv => ?_) (Function.update_self ..) rfl
      simpa [hv] using hA
    | setMiss h =>
      simp only [h]
      cases p.charged with
      | none => exact .none rfl rfl
      | some w => exact .failed rfl rfl
    | setRecord h | setReverse h | backfill h | missed h | found h | busy h =>
      simp only [h]
      exact .none rfl rfl
  · have hev : (Proc.auth p).event b s = none := if_neg hb
    rw [hev]
    exact Command.counterStep_of_ne fun h' => hb (h.budget b h').symm

/-! ## Steps of the system -/

/-- **What a step means for a budget**: the clock goes on, and the counter and the charges that
stand move as the event says. -/
structure Booked (b : FailedAuthBudget) (x x' : Pool Site Proc) (e : Option BudgetEvent) :
    Prop where
  now : x.store.now ≤ x'.store.now
  counter : CounterStep b x.store x'.store e
  charges : ∀ w, owing b w x'.procs + BudgetEvent.closes w e =
    owing b w x.procs + BudgetEvent.opens w e

theorem booked_drop (s : Site) (os : List Proc) (p : Proc) (b : FailedAuthBudget) :
    Booked b ⟨s, p :: os⟩ ⟨s, os⟩ (p.cancelled b) := by
  cases p with
  | edit | clock | organization => exact ⟨le_refl _, .refl b s, fun _ => rfl⟩
  | auth p =>
    have hfree : (∀ w, p.owes b w = false) → Booked b ⟨s, .auth p :: os⟩ ⟨s, os⟩ none := by
      refine fun ho => ⟨le_refl _, .refl b s, fun w => ?_⟩
      show owing b w os = owing b w (.auth p :: os)
      rw [owing_cons, show (Proc.auth p).owes b w = false from ho w]
      exact (Nat.zero_add _).symm
    unfold Proc.cancelled
    dsimp only
    by_cases h : p.budget = b ∧ p.phase.owing = true
    · rw [if_pos h]
      cases hc : p.charged with
      | none => exact hfree fun w => by simp [AuthProc.owes, hc]
      | some w' =>
        refine ⟨le_refl _, .failed rfl rfl, fun w => ?_⟩
        show owing b w os + _ = owing b w (.auth p :: os) + 0
        rw [owing_cons]
        simp [Proc.owes, AuthProc.owes, hc, h, BudgetEvent.closes, Nat.add_comm]
    · rw [if_neg h]
      refine hfree fun w => Bool.eq_false_iff.2 fun ho => ?_
      obtain ⟨hb, hp, -⟩ := AuthProc.owes_iff.1 ho
      exact h ⟨hb, hp⟩

theorem booked_move {p : Proc} {m : Move} (h : p.Moves crypto s os (some m))
    (hp : p.ChargedOnce s) (hA : p.refundsInTime s = true) (b : FailedAuthBudget) :
    Booked b ⟨s, p :: os⟩ ((keyRequests crypto).after s os (m.effect crypto s)) (p.event b s) := by
  -- the commands of the other requests are about no counter
  have hquiet : ∀ {c : Command} {q : Option Proc}, c.budget = none →
      (∀ w, owing b w (q.toList ++ os) = owing b w (p :: os)) →
      Booked b ⟨s, p :: os⟩ ⟨c.run s, q.toList ++ os.map (c.tell crypto)⟩ none := by
    intro c q hc ho
    refine ⟨Command.now_le_run s c, Command.counterStep_of_ne (by simp [hc]), fun w => ?_⟩
    have hos : owing b w (os.map (c.tell crypto)) = owing b w os := owing_tell c os
    have hw := ho w
    unfold owing at *
    rw [List.countP_append] at *
    exact (congrArg _ hos).trans hw
  cases h with
  | @stay p q hstays =>
    obtain ⟨-, -, hev, -⟩ := hstays.owing hp.early
    have hnone : (Proc.auth p).event b s = none := by simp [Proc.event, hev]
    rw [hnone]
    refine ⟨le_refl _, .refl b s, fun w => ?_⟩
    show owing b w (.auth q :: os) = owing b w (.auth p :: os)
    rw [owing_cons, owing_cons]
    exact congrArg (fun o : Bool => (if o then 1 else 0) + _) (hstays.owes_eq hp.early b w)
  | @quit p a ha =>
    have hnone : (Proc.auth p).event b s = none := by simp [Proc.event, AuthProc.event, ha]
    rw [hnone]
    refine ⟨le_refl _, .refl b s, fun w => ?_⟩
    have ho : (Proc.auth p).owes b w = false := by
      simp [Proc.owes, AuthProc.owes, AuthPhase.owing, ha]
    show owing b w os = owing b w (.auth p :: os)
    rw [owing_cons, ho]
    exact (Nat.zero_add _).symm
  | @run p q c hruns =>
    refine ⟨Command.now_le_run s c, hruns.counterStep hA b, fun w => ?_⟩
    have he := hruns.owes_eq b w
    show owing b w (.auth q :: os.map (c.tell crypto)) + _ = owing b w (.auth p :: os) + _
    rw [owing_cons, owing_cons, owing_tell]
    show (if q.owes b w then 1 else 0) + _ + _ = (if p.owes b w then 1 else 0) + _ + _
    omega
  | edit | edited => exact ⟨le_refl _, .refl b s, fun _ => rfl⟩
  | assign | delRecord | delReverse | clock | organization => exact hquiet rfl fun _ => rfl

theorem booked_next {x x' : Pool Site Proc} {a : PoolLabel Arrival}
    (hx : ∀ p ∈ x.procs, p.ChargedOnce x.store) (hA : (refundsInTime crypto).step x a)
    (hn : (keyRequests crypto).next x a = some x') (b : FailedAuthBudget) :
    Booked b x x' (budgetEvent b x a) := by
  have hfocus : ∀ {j p e}, x.procs[j]? = some p →
      Booked b ⟨x.store, p :: x.procs.eraseIdx j⟩ x' e → Booked b x x' e := by
    intro j p e hp h
    refine ⟨h.now, h.counter, fun w => (h.charges w).trans ?_⟩
    have hperm := @PoolSpec.perm_focus (keyRequests crypto) x j p hp
    exact congrArg (· + _) (hperm.countP_eq _).symm
  cases a with
  | ask a =>
    obtain rfl := Option.some.inj hn
    refine ⟨le_refl _, .refl b x.store, fun w => ?_⟩
    have hnew : a.proc.owes b w = false := by
      cases a <;> simp [Arrival.proc, Proc.owes, AuthProc.owes, AuthPhase.owing]
    show owing b w (a.proc :: x.procs) = _
    rw [owing_cons, hnew]
    exact Nat.zero_add _
  | drop j =>
    obtain ⟨p, hp, rfl⟩ := Option.map_eq_some_iff.1 hn
    have hev : budgetEvent b x (.drop j) = Proc.cancelled b p := congrArg (Option.bind · _) hp
    rw [hev]
    exact hfocus hp (booked_drop x.store _ p b)
  | run j =>
    obtain ⟨p, m, hp, hm, rfl⟩ := keyRequests_run hn
    have hev : budgetEvent b x (.run j) = Proc.event b x.store p := congrArg (Option.bind · _) hp
    rw [hev]
    exact hfocus hp (booked_move (Proc.moves hm) (hx _ (List.mem_of_getElem? hp)) (hA _ hp) b)

/-! ## The account over a run -/

def windowOpened (b : FailedAuthBudget) : List (Pool Site Proc × PoolLabel Arrival) → Option Time
  | [] => none
  | z :: h =>
    if budgetEvent b z.1 z.2 = some (.charged (z.1.store.windows b + 1)) then some z.1.store.now
    else windowOpened b h

/-- The number in Redis; a counter that is not there is 0. -/
def Site.budgetUsed (s : Site) (b : FailedAuthBudget) : Int := ((s.counter b).map (·.value)).getD 0

section Ledger

variable {x x' : Pool Site Proc} {a : PoolLabel Arrival} {h : List (Pool Site Proc × PoolLabel Arrival)}

structure Ledger (b : FailedAuthBudget) (x : Pool Site Proc)
    (h : List (Pool Site Proc × PoolLabel Arrival)) : Prop where
  charges : ∀ w, tally b h (.charged w) =
    tally b h (.refunded w) + tally b h (.failed w) + owing b w x.procs
  later : ∀ w, x.store.windows b < w → tally b h (.charged w) = 0 ∧ tally b h (.denied w) = 0 ∧
    tally b h (.refunded w) = 0
  bound : ∀ w, (tally b h (.charged w) : Int) ≤ tally b h (.refunded w) + b.limit
  deadline : ∀ c, x.store.counters b = some c →
    ∃ t, windowOpened b h = some t ∧ c.deadline = some (t + budgetWindow)
  value : ∀ t, windowOpened b h = some t → x.store.now < t + budgetWindow →
    x.store.budgetUsed b = tally b h (.charged (x.store.windows b)) +
      tally b h (.denied (x.store.windows b)) - tally b h (.refunded (x.store.windows b))

theorem tally_cons (z : Pool Site Proc × PoolLabel Arrival) (e : BudgetEvent) :
    tally b (z :: h) e = tally b h e + if budgetEvent b z.1 z.2 = some e then 1 else 0 := by
  unfold tally
  rw [List.countP_cons]
  simp only [beq_iff_eq]

theorem BudgetEvent.opens_eq (w : Nat) (e : Option BudgetEvent) :
    opens w e = if e = some (.charged w) then 1 else 0 := by
  cases e with
  | none => rfl
  | some e => cases e <;> simp [opens]

theorem BudgetEvent.closes_eq (w : Nat) (e : Option BudgetEvent) :
    closes w e = (if e = some (.refunded w) then 1 else 0) +
      if e = some (.failed w) then 1 else 0 := by
  cases e with
  | none => rfl
  | some e => cases e <;> simp [closes]

def Site.budgetStored (s : Site) (b : FailedAuthBudget) : Int :=
  ((s.counters b).map (·.value)).getD 0

theorem Site.counter_of_deadline {d : Time}
    (hd : ∀ c, s.counters b = some c → c.deadline = some d) (hnow : s.now < d) :
    s.counter b = s.counters b := by
  unfold counter
  cases hc : s.counters b with
  | none => rfl
  | some c => exact Option.filter_eq_some_iff.2 ⟨rfl, by simp [hd c hc, hnow]⟩

theorem Ledger.counter_eq (hl : Ledger b x h) {t : Time} (ht : windowOpened b h = some t)
    (hnow : x.store.now < t + budgetWindow) : x.store.counter b = x.store.counters b := by
  refine Site.counter_of_deadline (fun c hc => ?_) hnow
  obtain ⟨t', ht', hd⟩ := hl.deadline c hc
  obtain rfl : t = t' := Option.some.inj (ht.symm.trans ht')
  exact hd

theorem Site.counters_of_counter {c : Counter} (h : s.counter b = some c) :
    s.counters b = some c := (Option.filter_eq_some_iff.1 h).1

theorem Site.chargeCounter_cases (s : Site) (b : FailedAuthBudget) :
    (s.chargeCounter b).value = 1 ∧ (s.chargeCounter b).deadline = some (s.now + budgetWindow) ∨
      (s.chargeCounter b).value ≠ 1 ∧ ∃ c, s.counter b = some c ∧
        s.chargeCounter b = ⟨c.value + 1, c.deadline⟩ := by
  unfold chargeCounter
  cases hc : s.counter b with
  | none => exact .inl ⟨rfl, rfl⟩
  | some c =>
    by_cases h1 : c.value + 1 = 1
    · exact .inl ⟨h1, by simp only [if_pos h1]⟩
    · exact .inr ⟨h1, c, rfl, by simp only [if_neg h1]⟩

theorem FailedAuthBudget.one_le_limit (b : FailedAuthBudget) : 1 ≤ b.limit := by
  cases b with
  | clientIp ip => exact (by decide : (1 : Int) ≤ 20)
  | grpc => exact (by decide : (1 : Int) ≤ 60)

theorem Ledger.value_of_counter (hl : Ledger b x h) {c : Counter}
    (hc : x.store.counter b = some c) : c.value = tally b h (.charged (x.store.windows b)) +
      tally b h (.denied (x.store.windows b)) - tally b h (.refunded (x.store.windows b)) := by
  obtain ⟨hstored, hlive⟩ := Option.filter_eq_some_iff.1 hc
  obtain ⟨t, ht, hd⟩ := hl.deadline c hstored
  rw [← hl.value t ht (by simpa [hd] using hlive), Site.budgetUsed, hc]
  rfl

theorem Ledger.stored (hl : Ledger b x h) {t : Time} (ht : windowOpened b h = some t)
    (hlt : x.store.now < t + budgetWindow) :
    x.store.budgetStored b = tally b h (.charged (x.store.windows b)) +
      tally b h (.denied (x.store.windows b)) - tally b h (.refunded (x.store.windows b)) := by
  rw [← hl.value t ht hlt, Site.budgetUsed, hl.counter_eq ht hlt, Site.budgetStored]

/-- The event `e` of a step is entered into the account. -/
structure Posting (b : FailedAuthBudget) (h : List (Pool Site Proc × PoolLabel Arrival))
    (x : Pool Site Proc) (a : PoolLabel Arrival) (x' : Pool Site Proc) (e : Option BudgetEvent) :
    Prop where
  ledger : Ledger b x h
  event : budgetEvent b x a = e
  now : x.store.now ≤ x'.store.now
  owed : ∀ w, owing b w x'.procs + BudgetEvent.closes w e = owing b w x.procs + BudgetEvent.opens w e

namespace Posting

variable {e : Option BudgetEvent}

theorem tally_eq (P : Posting b h x a x' e) (e' : BudgetEvent) :
    tally b ((x, a) :: h) e' = tally b h e' + if e = some e' then 1 else 0 :=
  P.event ▸ tally_cons (x, a) e'

theorem charges (P : Posting b h x a x' e) (w : Nat) :
    tally b ((x, a) :: h) (.charged w) = tally b ((x, a) :: h) (.refunded w) +
      tally b ((x, a) :: h) (.failed w) + owing b w x'.procs := by
  have ho := P.owed w
  have := P.ledger.charges w
  rw [BudgetEvent.opens_eq, BudgetEvent.closes_eq] at ho
  simp only [P.tally_eq]
  omega

/-- A step that opens no window. -/
theorem inside (P : Posting b h x a x' e) (hw : x'.store.windows b = x.store.windows b)
    (hlater : ∀ w, x.store.windows b < w → e ≠ some (.charged w) ∧ e ≠ some (.denied w) ∧
      e ≠ some (.refunded w))
    (hbound : ∀ w, (tally b ((x, a) :: h) (.charged w) : Int) ≤
      tally b ((x, a) :: h) (.refunded w) + b.limit)
    (hdeadline : ∀ c', x'.store.counters b = some c' →
      ∃ c, x.store.counters b = some c ∧ c'.deadline = c.deadline)
    (hstored : ∀ t, windowOpened b h = some t → x.store.now < t + budgetWindow →
      x'.store.budgetStored b =
        tally b ((x, a) :: h) (.charged (x.store.windows b)) +
        tally b ((x, a) :: h) (.denied (x.store.windows b)) -
        tally b ((x, a) :: h) (.refunded (x.store.windows b))) :
    Ledger b x' ((x, a) :: h) := by
  have hopen : windowOpened b ((x, a) :: h) = windowOpened b h :=
    if_neg (P.event ▸ (hlater _ (Nat.lt_succ_self _)).1)
  have hdead : ∀ c', x'.store.counters b = some c' →
      ∃ t, windowOpened b ((x, a) :: h) = some t ∧ c'.deadline = some (t + budgetWindow) := by
    intro c' hc'
    obtain ⟨c, hc, hd⟩ := hdeadline c' hc'
    obtain ⟨t, ht, hd'⟩ := P.ledger.deadline c hc
    exact ⟨t, hopen.trans ht, hd.trans hd'⟩
  refine ⟨P.charges, fun w hlt => ?_, hbound, hdead, fun t ht hlt => ?_⟩
  · obtain ⟨h₁, h₂, h₃⟩ := hlater w (hw ▸ hlt)
    obtain ⟨h₁', h₂', h₃'⟩ := P.ledger.later w (hw ▸ hlt)
    simp only [P.tally_eq, if_neg h₁, if_neg h₂, if_neg h₃]
    exact ⟨h₁', h₂', h₃'⟩
  · have hc : x'.store.counter b = x'.store.counters b := by
      refine Site.counter_of_deadline (fun c' hc' => ?_) hlt
      obtain ⟨t', ht', hd⟩ := hdead c' hc'
      obtain rfl : t = t' := Option.some.inj (ht.symm.trans ht')
      exact hd
    unfold Site.budgetUsed
    rw [hc, hw]
    exact hstored t (hopen ▸ ht) (lt_of_le_of_lt P.now hlt)

/-- The first charge of a window. -/
theorem opens (P : Posting b h x a x' (some (.charged (x'.store.windows b))))
    (hc : x'.store.counters b = some (x.store.chargeCounter b))
    (hw : x'.store.windows b = x.store.windows b + 1) (h1 : (x.store.chargeCounter b).value = 1)
    (hd : (x.store.chargeCounter b).deadline = some (x.store.now + budgetWindow)) :
    Ledger b x' ((x, a) :: h) := by
  have hopen : windowOpened b ((x, a) :: h) = some x.store.now := if_pos (by rw [P.event, hw])
  have hcounters : ∀ c, x'.store.counters b = some c → x.store.chargeCounter b = c :=
    fun c hc' => Option.some.inj (hc.symm.trans hc')
  obtain ⟨hl₁, hl₂, hl₃⟩ := P.ledger.later (x.store.windows b + 1) (Nat.lt_succ_self _)
  refine ⟨P.charges, fun w hlt => ?_, fun w => ?_, fun c hc' => ?_, fun t ht hlt => ?_⟩
  · obtain ⟨h₁, h₂, h₃⟩ := P.ledger.later w (by omega)
    have hne : x'.store.windows b ≠ w := by omega
    simp [P.tally_eq, hne, h₁, h₂, h₃]
  · have := P.ledger.bound w
    have := b.one_le_limit
    simp only [P.tally_eq, Option.some.injEq, BudgetEvent.charged.injEq, reduceCtorEq, if_false]
    split
    · next hw' =>
      obtain rfl : w = x.store.windows b + 1 := by omega
      omega
    · omega
  · exact ⟨_, hopen, hcounters c hc' ▸ hd⟩
  · obtain rfl : x.store.now = t := Option.some.inj (hopen.symm.trans ht)
    have hcounter : x'.store.counter b = some (x.store.chargeCounter b) := by
      rw [Site.counter_of_deadline (fun c hc' => hcounters c hc' ▸ hd) hlt, hc]
    simp [Site.budgetUsed, hcounter, h1, P.tally_eq, hw, hl₁, hl₂, hl₃]

theorem charged (P : Posting b h x a x' (some (.charged (x'.store.windows b)))) {v : Counter}
    (hv : x.store.counter b = some v)
    (hc : x'.store.counters b = some ⟨v.value + 1, v.deadline⟩)
    (hw : x'.store.windows b = x.store.windows b) (hle : v.value + 1 ≤ b.limit) :
    Ledger b x' ((x, a) :: h) := by
  have hvalue := P.ledger.value_of_counter hv
  refine P.inside hw (fun w hlt => ?_) (fun w => ?_) (fun c' hc' => ?_) fun t ht hlt => ?_
  · simp only [ne_eq, Option.some.injEq, BudgetEvent.charged.injEq, reduceCtorEq,
      not_false_eq_true, and_true]
    omega
  · have := P.ledger.bound w
    simp only [P.tally_eq, Option.some.injEq, BudgetEvent.charged.injEq, reduceCtorEq, if_false]
    split
    · next hw' =>
      obtain rfl : w = x.store.windows b := by omega
      omega
    · omega
  · exact ⟨v, Site.counters_of_counter hv, by rw [← Option.some.inj (hc.symm.trans hc')]⟩
  · simp only [Site.budgetStored, hc, hw, P.tally_eq, Option.some.injEq, reduceCtorEq, if_false,
      if_true, Option.map_some, Option.getD_some]
    omega

theorem denied (P : Posting b h x a x' (some (.denied (x'.store.windows b)))) {v : Counter}
    (hv : x.store.counter b = some v)
    (hc : x'.store.counters b = some ⟨v.value + 1, v.deadline⟩)
    (hw : x'.store.windows b = x.store.windows b) : Ledger b x' ((x, a) :: h) := by
  have hvalue := P.ledger.value_of_counter hv
  refine P.inside hw (fun w hlt => ?_) (fun w => ?_) (fun c' hc' => ?_) fun t ht hlt => ?_
  · simp only [ne_eq, Option.some.injEq, BudgetEvent.denied.injEq, reduceCtorEq,
      not_false_eq_true, and_true, true_and]
    omega
  · simpa [P.tally_eq] using P.ledger.bound w
  · exact ⟨v, Site.counters_of_counter hv, by rw [← Option.some.inj (hc.symm.trans hc')]⟩
  · simp only [Site.budgetStored, hc, hw, P.tally_eq, Option.some.injEq, reduceCtorEq, if_false,
      if_true, Option.map_some, Option.getD_some]
    omega

theorem refunded (P : Posting b h x a x' (some (.refunded (x.store.windows b)))) {v : Counter}
    (hv : x.store.counter b = some v)
    (hc : x'.store.counters b = some ⟨v.value - 1, v.deadline⟩)
    (hw : x'.store.windows b = x.store.windows b) : Ledger b x' ((x, a) :: h) := by
  have hvalue := P.ledger.value_of_counter hv
  refine P.inside hw (fun w hlt => ?_) (fun w => ?_) (fun c' hc' => ?_) fun t ht hlt => ?_
  · simp only [ne_eq, Option.some.injEq, BudgetEvent.refunded.injEq, reduceCtorEq,
      not_false_eq_true, true_and]
    omega
  · have := P.ledger.bound w
    simp only [P.tally_eq, Option.some.injEq, reduceCtorEq, if_false]
    split <;> omega
  · exact ⟨v, Site.counters_of_counter hv, by rw [← Option.some.inj (hc.symm.trans hc')]⟩
  · simp only [Site.budgetStored, hc, P.tally_eq, Option.some.injEq, reduceCtorEq, if_false, if_true,
      Option.map_some, Option.getD_some]
    omega

/-- A counter is removed only when nothing stands, so nothing is lost. -/
theorem cleared (P : Posting b h x a x' none)
    (hempty : ∀ c, x.store.counter b = some c → c.value ≤ 0) (hc : x'.store.counters b = none)
    (hw : x'.store.windows b = x.store.windows b) : Ledger b x' ((x, a) :: h) := by
  refine P.inside hw (fun w hlt => ⟨nofun, nofun, nofun⟩) (fun w => ?_)
    (fun c' hc' => absurd (hc.symm.trans hc') nofun) fun t ht hlt => ?_
  · simpa [P.tally_eq] using P.ledger.bound w
  · have hv := P.ledger.stored ht hlt
    have hle : x.store.budgetStored b ≤ 0 := by
      unfold Site.budgetStored
      rw [← P.ledger.counter_eq ht hlt]
      cases hv : x.store.counter b with
      | none => exact le_refl _
      | some v => exact hempty v hv
    have hstand := P.ledger.charges (x.store.windows b)
    simp only [Site.budgetStored, hc, P.tally_eq, reduceCtorEq, if_false, Option.map_none,
      Option.getD_none]
    omega

end Posting

/-- **One step of the books.** -/
theorem Ledger.step (hl : Ledger b x h) (hb : Booked b x x' (budgetEvent b x a)) :
    Ledger b x' ((x, a) :: h) := by
  obtain ⟨hnow, hstep, howing⟩ := hb
  have P : Posting b h x a x' (budgetEvent b x a) := ⟨hl, rfl, hnow, howing⟩
  generalize budgetEvent b x a = e at hstep P
  cases hstep with
  | charged hc hw hle =>
    rcases Site.chargeCounter_cases x.store b with ⟨h1, hd⟩ | ⟨h1, v, hv, hcharge⟩
    · exact P.opens hc (by rw [hw, if_pos h1]) h1 hd
    · rw [hcharge] at hc hle
      exact P.charged hv hc (by rw [hw, if_neg h1]) hle
  | denied hc hw hgt =>
    rcases Site.chargeCounter_cases x.store b with ⟨h1, -⟩ | ⟨h1, v, hv, hcharge⟩
    · exact absurd (h1 ▸ b.one_le_limit) hgt
    · rw [hcharge] at hc
      exact P.denied hv hc (by rw [hw, if_neg h1])
  | refunded hv hc hw => exact P.refunded hv hc hw
  | failed hc hw | none hc hw =>
    refine P.inside hw (fun w hlt => ⟨nofun, nofun, nofun⟩) (fun w => ?_)
      (fun c' hc' => ⟨c', hc ▸ hc', rfl⟩) fun t ht hlt => ?_
    · simpa [P.tally_eq] using hl.bound w
    · simpa [P.tally_eq, Site.budgetStored, hc] using hl.stored ht hlt
  | cleared hempty hc hw => exact P.cleared hempty hc hw

def Site.Uncharged (s : Site) : Prop := ∀ b, s.counters b = none

def budgetSystem (crypto : Crypto) : Machine := (keyRequests crypto).machine Site.Uncharged

theorem ledger_of_run (hr : (budgetSystem crypto).Run x h)
    (hC : (budgetSystem crypto).Steps (refundsInTime crypto).step h) (b : FailedAuthBudget) :
    Ledger b x h := by
  refine hr.invariant (M := budgetSystem crypto) (C := (refundsInTime crypto).step)
    (I := fun x h => Ledger b x h) (fun x hx => ?_) (fun x h a x' hr hC ih hA hn => ?_) hC
  · obtain ⟨hnone, hprocs⟩ := hx
    refine ⟨fun w => ?_, fun w _ => ⟨rfl, rfl, rfl⟩, fun w => ?_, fun c hc => ?_, nofun⟩
    · show 0 = 0 + 0 + owing b w x.procs
      rw [hprocs]
      rfl
    · have := b.one_le_limit
      show (0 : Int) ≤ 0 + b.limit
      omega
    · exact absurd ((hnone b).symm.trans hc) nofun
  · have hx := (charged_once crypto (refundsInTime crypto)).invariant (fun _ _ => trivial) hr hC
    exact ih.step (booked_next hx.each hA hn b)

/-- **The failed-auth budget is exact**, while refunds meet the window they were charged in: the
charged scans of a window that fail or are cancelled stay within the limit, and the counter is at
every moment what stands: those failures, the scans still at work and the refused requests. A scan
that found its key is in none of them. -/
theorem failed_auth_budget_exact (hr : (budgetSystem crypto).Run x h)
    (hC : (budgetSystem crypto).Steps (refundsInTime crypto).step h) (b : FailedAuthBudget) :
    (∀ w, (tally b h (.failed w) : Int) ≤ b.limit) ∧
    ∀ t, windowOpened b h = some t → x.store.now < t + secs 60 →
      x.store.budgetUsed b = tally b h (.failed (x.store.windows b)) +
        owing b (x.store.windows b) x.procs + tally b h (.denied (x.store.windows b)) := by
  have hl := ledger_of_run hr hC b
  refine ⟨fun w => ?_, fun t ht hlt => ?_⟩
  · have := hl.charges w
    have := hl.bound w
    omega
  · have := hl.charges (x.store.windows b)
    have := hl.value t ht hlt
    omega

end Ledger

def scannedKey : ApiKey := { id := 1, organizationId := 7, keyHash := ['k'] }

def scanStart : Pool Site Proc := ⟨{ keys := ⟨[scannedKey], by decide⟩ }, []⟩

def scanFound : List (PoolLabel Arrival) :=
  .ask (.authenticate ['k'] (.clientIp []) 0 false false false) :: List.replicate 11 (.run 0)

def scanCancelled : List (PoolLabel Arrival) :=
  .ask (.authenticate ['x'] (.clientIp []) 0 false false false) :: List.replicate 6 (.run 0) ++
    [.drop 0]

theorem failed_auth_budget_exact_found : ∃ x h, (budgetSystem .plain).Run x h ∧
    (budgetSystem .plain).Steps (refundsInTime .plain).step h ∧
    tally (.clientIp []) h (.refunded 1) = 1 ∧ tally (.clientIp []) h (.failed 1) = 1 ∧
    x.procs = [] ∧ x.store.windows (.clientIp []) = 1 ∧ x.store.budgetUsed (.clientIp []) = 1 := by
  obtain ⟨x, h, hr, hC, hp⟩ := (refundsInTime .plain).run_of_exec Site.Uncharged
    (scanFound ++ scanCancelled ++ List.replicate 6 (.run 0)) scanStart
    (fun x => (tally (.clientIp []) x.2 (.refunded 1) == 1) && (tally (.clientIp []) x.2 (.failed 1) == 1) &&
      (tally (.clientIp []) x.2 (.denied 1) == 0) && x.1.procs.isEmpty &&
      (x.1.store.windows (.clientIp []) == 1) &&
      (windowOpened (.clientIp []) x.2 == some 0) && decide (x.1.store.now < secs 60))
    ⟨fun _ => rfl, rfl⟩ (by decide +kernel)
  simp only [Bool.and_eq_true, beq_iff_eq, decide_eq_true_eq, List.isEmpty_iff, and_assoc] at hp
  obtain ⟨hrefunded, hfailed, hdenied, hprocs, hw, hopen, hnow⟩ := hp
  have hused := (failed_auth_budget_exact hr hC (.clientIp [])).2 0 hopen (by simpa using hnow)
  rw [hw, hfailed, hdenied, hprocs] at hused
  exact ⟨x, h, hr, hC, hrefunded, hfailed, hprocs, hw, hused⟩

/-- A refund that comes after the end of its window takes a charge from the next one, where
21 scans are then cancelled under a limit of 20. -/
theorem late_refund_exceeds_limit : ∃ x h, (budgetSystem .plain).Run x h ∧
    FailedAuthBudget.limit (.clientIp []) = 20 ∧ tally (.clientIp []) h (.failed 2) = 21 ∧
    windowOpened (.clientIp []) h = some (secs 60) ∧ x.store.now = secs 60 := by
  obtain ⟨x, h, hr, hp⟩ := Machine.Run.of_exec (budgetSystem .plain)
    (scanFound ++ [.ask (.clock (secs 60)), .run 0] ++ scanCancelled ++ scanCancelled ++ [.run 0] ++
      (List.replicate 19 scanCancelled).flatten) scanStart
    (fun x => (tally (.clientIp []) x.2 (.failed 2) == 21) &&
      (windowOpened (.clientIp []) x.2 == some (secs 60)) && x.1.store.now == secs 60)
    ⟨fun _ => rfl, rfl⟩ (by decide +kernel)
  simp only [Bool.and_eq_true, beq_iff_eq, and_assoc] at hp
  exact ⟨x, h, hr, rfl, hp⟩

end Spooled.Auth
