import Spooled.Lib.Run
import Mathlib

/-!
# Processes over a shared store

A pool is a store together with the processes at work on it. A step lets one
process act: it changes only itself, it ends, or it changes the store, and then
every other process is told. A request starts a process, and a process may be
dropped at any time.

`Kept` is the proof rule for such pools. An invariant consists of a property
`K` of the store, a property `I` of the store and one process, and a symmetric
property `J` of the store and two processes; what has to be shown is what one
process does to its own part and, when it shares, to the parts of the others.
-/

namespace Spooled

open List

/-- What a process does in one step. -/
inductive Effect (S P : Type)
  | stay (p : P)
  | quit
  /-- The store changes and the others are told; `none` ends the process. -/
  | share (s : S) (p : Option P) (tell : P → P)

structure Pool (S P : Type) where
  store : S
  procs : List P := []

inductive PoolLabel (A : Type)
  | ask (a : A)
  | run (k : Nat)
  | drop (k : Nat)

structure PoolSpec where
  Store : Type
  Proc : Type
  Ask : Type
  start : Store → Ask → Store × Proc
  /-- One step of a process beside the others; `none`: it has to wait. -/
  act : Store → List Proc → Proc → Option (Effect Store Proc)

namespace PoolSpec

variable {spec : PoolSpec}

/-- The pool after an effect of a process, `os` being the other ones. -/
def after (spec : PoolSpec) (s : spec.Store) (os : List spec.Proc) :
    Effect spec.Store spec.Proc → Pool spec.Store spec.Proc
  | .stay p => ⟨s, p :: os⟩
  | .quit => ⟨s, os⟩
  | .share s' p tell => ⟨s', p.toList ++ os.map tell⟩

def next (spec : PoolSpec) (x : Pool spec.Store spec.Proc) :
    PoolLabel spec.Ask → Option (Pool spec.Store spec.Proc)
  | .ask a => some ⟨(spec.start x.store a).1, (spec.start x.store a).2 :: x.procs⟩
  | .run k => x.procs[k]?.bind fun p =>
      (spec.act x.store (x.procs.eraseIdx k) p).map (spec.after x.store (x.procs.eraseIdx k))
  | .drop k => x.procs[k]?.map fun _ => ⟨x.store, x.procs.eraseIdx k⟩

def machine (spec : PoolSpec) (init : spec.Store → Prop) : Machine where
  State := Pool spec.Store spec.Proc
  Label := PoolLabel spec.Ask
  Init x := init x.store ∧ x.procs = []
  next := spec.next

/-- Conditions on the state before a step: of the request, of the process that
acts beside the others, of the process that is dropped. -/
structure Allow (spec : PoolSpec) where
  ask : spec.Store → spec.Ask → Prop := fun _ _ => True
  run : spec.Store → List spec.Proc → spec.Proc → Prop := fun _ _ _ => True
  drop : spec.Store → List spec.Proc → spec.Proc → Prop := fun _ _ _ => True

def Allow.step (A : Allow spec) (x : Pool spec.Store spec.Proc) : PoolLabel spec.Ask → Prop
  | .ask a => A.ask x.store a
  | .run k => ∀ p ∈ x.procs[k]?, A.run x.store (x.procs.eraseIdx k) p
  | .drop k => ∀ p ∈ x.procs[k]?, A.drop x.store (x.procs.eraseIdx k) p

/-- Conditions on what a process does, and on nothing else. -/
def Allow.onRun (spec : PoolSpec) (f : spec.Store → List spec.Proc → spec.Proc → Bool) :
    Allow spec where
  run s os p := f s os p = true

section

variable {f : spec.Store → List spec.Proc → spec.Proc → Bool} (s : spec.Store)
  (os : List spec.Proc) (p : spec.Proc)

instance (a : spec.Ask) : Decidable ((Allow.onRun spec f).ask s a) := .isTrue trivial

instance : Decidable ((Allow.onRun spec f).run s os p) :=
  inferInstanceAs (Decidable (f s os p = true))

instance : Decidable ((Allow.onRun spec f).drop s os p) := .isTrue trivial

end

section Check

variable (A : Allow spec) [∀ s a, Decidable (A.ask s a)] [∀ s os p, Decidable (A.run s os p)]
  [∀ s os p, Decidable (A.drop s os p)]

instance Allow.decidableStep (x : Pool spec.Store spec.Proc) (a : PoolLabel spec.Ask) :
    Decidable (A.step x a) :=
  match a with
  | .ask a => inferInstanceAs (Decidable (A.ask x.store a))
  | .run k => inferInstanceAs (Decidable (∀ p ∈ x.procs[k]?, A.run x.store (x.procs.eraseIdx k) p))
  | .drop k => inferInstanceAs (Decidable (∀ p ∈ x.procs[k]?, A.drop x.store (x.procs.eraseIdx k) p))

def Allow.check (h : List (Pool spec.Store spec.Proc × PoolLabel spec.Ask)) : Bool :=
  h.all fun z => decide (A.step z.1 z.2)

variable {A}

theorem Allow.steps_of_check (init : spec.Store → Prop)
    {h : List (Pool spec.Store spec.Proc × PoolLabel spec.Ask)} (hc : A.check h = true) :
    (spec.machine init).Steps A.step h :=
  fun z hz => @of_decide_eq_true _ (A.decidableStep z.1 z.2) (all_eq_true.1 hc z hz)

variable (A)

/-- A run that is executed under the conditions. -/
theorem Allow.run_of_exec (init : spec.Store → Prop) (as : List (PoolLabel spec.Ask))
    (x₀ : Pool spec.Store spec.Proc)
    (P : Pool spec.Store spec.Proc × List (Pool spec.Store spec.Proc × PoolLabel spec.Ask) → Bool)
    (hi : (spec.machine init).Init x₀)
    (he : ((spec.machine init).exec as (x₀, [])).any (fun x => P x && A.check x.2) = true) :
    ∃ x h, (spec.machine init).Run x h ∧ (spec.machine init).Steps A.step h ∧ P (x, h) = true := by
  obtain ⟨x, h, hr, hp⟩ := Machine.Run.of_exec (spec.machine init) as x₀ _ hi he
  obtain ⟨hp, hc⟩ := Bool.and_eq_true_iff.1 hp
  exact ⟨x, h, hr, Allow.steps_of_check init hc, hp⟩

end Check

structure Holds (spec : PoolSpec) (K : spec.Store → Prop) (I : spec.Store → spec.Proc → Prop)
    (J : spec.Store → spec.Proc → spec.Proc → Prop) (x : Pool spec.Store spec.Proc) : Prop where
  store : K x.store
  each : ∀ p ∈ x.procs, I x.store p
  pairs : x.procs.Pairwise (J x.store)

/-- What one process may rely on: its own part, and the parts of the others. -/
structure Beside (spec : PoolSpec) (K : spec.Store → Prop) (I : spec.Store → spec.Proc → Prop)
    (J : spec.Store → spec.Proc → spec.Proc → Prop) (s : spec.Store) (os : List spec.Proc)
    (p : spec.Proc) : Prop where
  store : K s
  own : I s p
  others : ∀ q ∈ os, I s q
  pair : ∀ q ∈ os, J s p q

section Beside

variable {K₁ K₂ : spec.Store → Prop} {I₁ I₂ : spec.Store → spec.Proc → Prop}
  {J₁ J₂ : spec.Store → spec.Proc → spec.Proc → Prop} {s : spec.Store} {os : List spec.Proc}
  {p : spec.Proc}

theorem Beside.fst (h : Beside spec (fun s => K₁ s ∧ K₂ s) (fun s p => I₁ s p ∧ I₂ s p)
    (fun s p q => J₁ s p q ∧ J₂ s p q) s os p) : Beside spec K₁ I₁ J₁ s os p :=
  ⟨h.store.1, h.own.1, fun q hq => (h.others q hq).1, fun q hq => (h.pair q hq).1⟩

theorem Beside.snd (h : Beside spec (fun s => K₁ s ∧ K₂ s) (fun s p => I₁ s p ∧ I₂ s p)
    (fun s p q => J₁ s p q ∧ J₂ s p q) s os p) : Beside spec K₂ I₂ J₂ s os p :=
  ⟨h.store.2, h.own.2, fun q hq => (h.others q hq).2, fun q hq => (h.pair q hq).2⟩

end Beside

/-- The obligations of the rule. -/
structure Kept (spec : PoolSpec) (A : Allow spec) (K : spec.Store → Prop)
    (I : spec.Store → spec.Proc → Prop) (J : spec.Store → spec.Proc → spec.Proc → Prop) :
    Prop where
  symm : ∀ {s p q}, J s p q → J s q p
  ask : ∀ {s a}, A.ask s a → K s → K (spec.start s a).1 ∧ I (spec.start s a).1 (spec.start s a).2
  ask_other : ∀ {s a q}, A.ask s a → K s → I s q →
    I (spec.start s a).1 q ∧ J (spec.start s a).1 (spec.start s a).2 q
  ask_pair : ∀ {s a q r}, J s q r → J (spec.start s a).1 q r
  stay : ∀ {s os p p'}, spec.act s os p = some (.stay p') → A.run s os p →
    Beside spec K I J s os p → I s p' ∧ ∀ q ∈ os, J s p' q
  share : ∀ {s os p s' p' tell}, spec.act s os p = some (.share s' p' tell) → A.run s os p →
    Beside spec K I J s os p →
      K s' ∧ (∀ r ∈ p', I s' r ∧ ∀ q ∈ os, J s' r (tell q)) ∧
      (∀ q ∈ os, I s' (tell q)) ∧ ∀ q ∈ os, ∀ r ∈ os, J s q r → J s' (tell q) (tell r)

variable {A : Allow spec} {K : spec.Store → Prop} {I : spec.Store → spec.Proc → Prop}
  {J : spec.Store → spec.Proc → spec.Proc → Prop} {x x' : Pool spec.Store spec.Proc}
  {a : PoolLabel spec.Ask} {k : Nat} {p : spec.Proc}

theorem perm_focus (hk : x.procs[k]? = some p) : x.procs.Perm (p :: x.procs.eraseIdx k) := by
  obtain ⟨hlt, rfl⟩ := List.getElem?_eq_some_iff.1 hk
  exact (getElem_cons_eraseIdx_perm hlt).symm

theorem Holds.focus (h : Holds spec K I J x) (hsymm : ∀ {s p q}, J s p q → J s q p)
    (hk : x.procs[k]? = some p) : Beside spec K I J x.store (x.procs.eraseIdx k) p ∧
      (x.procs.eraseIdx k).Pairwise (J x.store) := by
  have hperm := perm_focus hk
  have hpairs := (hperm.pairwise_iff fun h => hsymm h).1 h.pairs
  rw [pairwise_cons] at hpairs
  exact ⟨⟨h.store, h.each p (hperm.mem_iff.2 mem_cons_self),
    fun q hq => h.each q (mem_of_mem_eraseIdx hq), hpairs.1⟩, hpairs.2⟩

/-- **One step keeps the invariant.** -/
theorem Kept.step (hkept : Kept spec A K I J) (h : Holds spec K I J x) (hC : A.step x a)
    (hn : spec.next x a = some x') : Holds spec K I J x' := by
  cases a with
  | ask a =>
    obtain rfl := Option.some.inj hn
    obtain ⟨hK, hI⟩ := hkept.ask hC h.store
    refine ⟨hK, fun q hq => ?_, pairwise_cons.2 ⟨fun q hq => ?_, ?_⟩⟩
    · rcases mem_cons.1 hq with rfl | hq
      · exact hI
      · exact (hkept.ask_other hC h.store (h.each q hq)).1
    · exact (hkept.ask_other hC h.store (h.each q hq)).2
    · exact h.pairs.imp hkept.ask_pair
  | run k =>
    obtain ⟨p, hk, hn⟩ := Option.bind_eq_some_iff.1 hn
    obtain ⟨e, he, rfl⟩ := Option.map_eq_some_iff.1 hn
    obtain ⟨hb, hpairs⟩ := h.focus hkept.symm hk
    have hA := hC p hk
    cases e with
    | stay p' =>
      obtain ⟨hI, hJ⟩ := hkept.stay he hA hb
      exact ⟨h.store, forall_mem_cons.2 ⟨hI, hb.others⟩, pairwise_cons.2 ⟨hJ, hpairs⟩⟩
    | quit => exact ⟨h.store, hb.others, hpairs⟩
    | share s' p' tell =>
      obtain ⟨hK, hp', hos, hpair⟩ := hkept.share he hA hb
      have hos' : ∀ q ∈ (x.procs.eraseIdx k).map tell, I s' q := by
        intro q hq
        obtain ⟨r, hr, rfl⟩ := mem_map.1 hq
        exact hos r hr
      have hpairs' : ((x.procs.eraseIdx k).map tell).Pairwise (J s') :=
        pairwise_map.2 (hpairs.imp_of_mem fun hq hr h => hpair _ hq _ hr h)
      cases p' with
      | none => exact ⟨hK, hos', hpairs'⟩
      | some r =>
        obtain ⟨hI, hJ⟩ := hp' r rfl
        refine ⟨hK, forall_mem_cons.2 ⟨hI, hos'⟩, pairwise_cons.2 ⟨fun q hq => ?_, hpairs'⟩⟩
        obtain ⟨q', hq', rfl⟩ := mem_map.1 hq
        exact hJ q' hq'
  | drop k =>
    obtain ⟨p, hk, rfl⟩ := Option.map_eq_some_iff.1 hn
    obtain ⟨hb, hpairs⟩ := h.focus hkept.symm hk
    exact ⟨h.store, hb.others, hpairs⟩

/-- The obligations for a second invariant, once a first one is known to be kept. -/
structure KeptOver (spec : PoolSpec) (A : Allow spec) (K₁ : spec.Store → Prop)
    (I₁ : spec.Store → spec.Proc → Prop) (J₁ : spec.Store → spec.Proc → spec.Proc → Prop)
    (K₂ : spec.Store → Prop) (I₂ : spec.Store → spec.Proc → Prop)
    (J₂ : spec.Store → spec.Proc → spec.Proc → Prop) : Prop where
  symm : ∀ {s p q}, J₂ s p q → J₂ s q p
  ask : ∀ {s a}, A.ask s a → K₁ s → K₂ s →
    K₂ (spec.start s a).1 ∧ I₂ (spec.start s a).1 (spec.start s a).2
  ask_other : ∀ {s a q}, A.ask s a → K₁ s → K₂ s → I₁ s q → I₂ s q →
    I₂ (spec.start s a).1 q ∧ J₂ (spec.start s a).1 (spec.start s a).2 q
  ask_pair : ∀ {s a q r}, J₂ s q r → J₂ (spec.start s a).1 q r
  stay : ∀ {s os p p'}, spec.act s os p = some (.stay p') → A.run s os p →
    Beside spec K₁ I₁ J₁ s os p → Beside spec K₂ I₂ J₂ s os p → I₂ s p' ∧ ∀ q ∈ os, J₂ s p' q
  share : ∀ {s os p s' p' tell}, spec.act s os p = some (.share s' p' tell) → A.run s os p →
    Beside spec K₁ I₁ J₁ s os p → Beside spec K₂ I₂ J₂ s os p →
      K₂ s' ∧ (∀ r ∈ p', I₂ s' r ∧ ∀ q ∈ os, J₂ s' r (tell q)) ∧ (∀ q ∈ os, I₂ s' (tell q)) ∧
      ∀ q ∈ os, ∀ r ∈ os, J₁ s q r → J₂ s q r → J₂ s' (tell q) (tell r)

/-- **Invariants in layers.** -/
theorem Kept.over {K₂ : spec.Store → Prop} {I₂ : spec.Store → spec.Proc → Prop}
    {J₂ : spec.Store → spec.Proc → spec.Proc → Prop} (h₁ : Kept spec A K I J)
    (h₂ : KeptOver spec A K I J K₂ I₂ J₂) :
    Kept spec A (fun s => K s ∧ K₂ s) (fun s p => I s p ∧ I₂ s p)
      fun s p q => J s p q ∧ J₂ s p q where
  symm h := ⟨h₁.symm h.1, h₂.symm h.2⟩
  ask hA h := by
    obtain ⟨hK, hI⟩ := h₁.ask hA h.1
    obtain ⟨hK₂, hI₂⟩ := h₂.ask hA h.1 h.2
    exact ⟨⟨hK, hK₂⟩, hI, hI₂⟩
  ask_other hA h hq := by
    obtain ⟨hI, hJ⟩ := h₁.ask_other hA h.1 hq.1
    obtain ⟨hI₂, hJ₂⟩ := h₂.ask_other hA h.1 h.2 hq.1 hq.2
    exact ⟨⟨hI, hI₂⟩, hJ, hJ₂⟩
  ask_pair h := ⟨h₁.ask_pair h.1, h₂.ask_pair h.2⟩
  stay he hA h := by
    obtain ⟨hI, hJ⟩ := h₁.stay he hA h.fst
    obtain ⟨hI₂, hJ₂⟩ := h₂.stay he hA h.fst h.snd
    exact ⟨⟨hI, hI₂⟩, fun q hq => ⟨hJ q hq, hJ₂ q hq⟩⟩
  share he hA h := by
    obtain ⟨hK, hp, hos, hpair⟩ := h₁.share he hA h.fst
    obtain ⟨hK₂, hp₂, hos₂, hpair₂⟩ := h₂.share he hA h.fst h.snd
    refine ⟨⟨hK, hK₂⟩, fun r hr => ?_, fun q hq => ⟨hos q hq, hos₂ q hq⟩, fun q hq r hr h =>
      ⟨hpair q hq r hr h.1, hpair₂ q hq r hr h.1 h.2⟩⟩
    exact ⟨⟨(hp r hr).1, (hp₂ r hr).1⟩, fun q hq => ⟨(hp r hr).2 q hq, (hp₂ r hr).2 q hq⟩⟩

/-- **The rule.** -/
theorem Kept.invariant (hkept : Kept spec A K I J) {init : spec.Store → Prop}
    (hinit : ∀ s, init s → K s) {h : List (Pool spec.Store spec.Proc × PoolLabel spec.Ask)}
    (hr : (spec.machine init).Run x h) (hC : (spec.machine init).Steps A.step h) :
    Holds spec K I J x := by
  refine hr.invariant (M := spec.machine init) (C := A.step) (I := fun x _ => Holds spec K I J x)
    (fun y hy => ?_) (fun y _ a y' _ _ h hA hn => hkept.step h hA hn) hC
  obtain ⟨hy, hnil⟩ := hy
  exact ⟨hinit _ hy, by rw [hnil]; exact fun _ h => absurd h not_mem_nil,
    by rw [hnil]; exact List.Pairwise.nil⟩

def Allow.any : Allow spec where

theorem Allow.steps_any (init : spec.Store → Prop)
    (h : List (Pool spec.Store spec.Proc × PoolLabel spec.Ask)) :
    (spec.machine init).Steps (@Allow.any spec).step h := by
  intro z _
  obtain ⟨x, a⟩ := z
  cases a with
  | ask a => trivial
  | run | drop => exact fun _ _ => trivial

theorem Kept.always (hkept : Kept spec .any K I J) {init : spec.Store → Prop}
    (hinit : ∀ s, init s → K s) {h : List (Pool spec.Store spec.Proc × PoolLabel spec.Ask)}
    (hr : (spec.machine init).Run x h) : Holds spec K I J x :=
  hkept.invariant hinit hr (Allow.steps_any init h)

theorem Holds.pair (h : Holds spec K I J x) (hsymm : ∀ {s p q}, J s p q → J s q p) {i j : Nat}
    {p q : spec.Proc} (hij : i ≠ j) (hi : x.procs[i]? = some p) (hj : x.procs[j]? = some q) :
    J x.store p q := by
  obtain ⟨hi', rfl⟩ := List.getElem?_eq_some_iff.1 hi
  obtain ⟨hj', rfl⟩ := List.getElem?_eq_some_iff.1 hj
  have hpairs := pairwise_iff_getElem.1 h.pairs
  rcases Nat.lt_or_gt_of_ne hij with hlt | hlt
  · exact hpairs i j hi' hj' hlt
  · exact hsymm (hpairs j i hj' hi' hlt)

/-! ## Properties of all the processes together -/

/-- The obligations for a property of the store and all the processes, in any order, over an
invariant that is known to be kept. -/
structure KeptAll (spec : PoolSpec) (A : Allow spec) (K : spec.Store → Prop)
    (I : spec.Store → spec.Proc → Prop) (J : spec.Store → spec.Proc → spec.Proc → Prop)
    (G : spec.Store → List spec.Proc → Prop) : Prop where
  perm : ∀ {s ps qs}, ps.Perm qs → G s ps → G s qs
  ask : ∀ {s a ps}, A.ask s a → K s → (∀ q ∈ ps, I s q) → G s ps →
    G (spec.start s a).1 ((spec.start s a).2 :: ps)
  stay : ∀ {s os p p'}, spec.act s os p = some (.stay p') → A.run s os p →
    Beside spec K I J s os p → G s (p :: os) → G s (p' :: os)
  quit : ∀ {s os p}, spec.act s os p = some .quit → A.run s os p →
    Beside spec K I J s os p → G s (p :: os) → G s os
  share : ∀ {s os p s' p' tell}, spec.act s os p = some (.share s' p' tell) → A.run s os p →
    Beside spec K I J s os p → G s (p :: os) → G s' (p'.toList ++ os.map tell)
  drop : ∀ {s os p}, A.drop s os p → Beside spec K I J s os p → G s (p :: os) → G s os

variable {G : spec.Store → List spec.Proc → Prop}

theorem KeptAll.step (hall : KeptAll spec A K I J G) (hsymm : ∀ {s p q}, J s p q → J s q p)
    (hx : Holds spec K I J x) (h : G x.store x.procs) (hC : A.step x a)
    (hn : spec.next x a = some x') : G x'.store x'.procs := by
  cases a with
  | ask a =>
    obtain rfl := Option.some.inj hn
    exact hall.ask hC hx.store hx.each h
  | run k =>
    obtain ⟨p, hk, hn⟩ := Option.bind_eq_some_iff.1 hn
    obtain ⟨e, he, rfl⟩ := Option.map_eq_some_iff.1 hn
    obtain ⟨hb, -⟩ := hx.focus hsymm hk
    have hfocus := hall.perm (perm_focus hk) h
    cases e with
    | stay p' => exact hall.stay he (hC p hk) hb hfocus
    | quit => exact hall.quit he (hC p hk) hb hfocus
    | share s' p' tell => exact hall.share he (hC p hk) hb hfocus
  | drop k =>
    obtain ⟨p, hk, rfl⟩ := Option.map_eq_some_iff.1 hn
    obtain ⟨hb, -⟩ := hx.focus hsymm hk
    exact hall.drop (hC p hk) hb (hall.perm (perm_focus hk) h)

/-- **The rule for such properties.** -/
theorem KeptAll.invariant (hall : KeptAll spec A K I J G) (hkept : Kept spec A K I J)
    {init : spec.Store → Prop} (hinit : ∀ s, init s → K s) (hG : ∀ s, init s → G s [])
    {h : List (Pool spec.Store spec.Proc × PoolLabel spec.Ask)}
    (hr : (spec.machine init).Run x h) (hC : (spec.machine init).Steps A.step h) :
    G x.store x.procs := by
  refine hr.invariant (M := spec.machine init) (C := A.step) (I := fun x _ => G x.store x.procs)
    (fun y hy => ?_) (fun y _ a y' hr hC h hA hn => ?_) hC
  · obtain ⟨hy, hnil⟩ := hy
    rw [hnil]
    exact hG _ hy
  · exact hall.step hkept.symm (hkept.invariant hinit hr hC) h hA hn

end PoolSpec

end Spooled
