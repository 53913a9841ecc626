import Spooled.Lib.Pool

/-!
# Processes that run commands

A process reads the store, and changes it by one command at a time. `Keeps` is
the rule for invariants of such pools: what a step does to the process itself,
and what a command does to the store and to the parts of the others.
-/

namespace Spooled

/-- One step of a process: on itself alone, its end, or a command (`none` ends the process). -/
inductive Turn (C P : Type)
  | stay (p : P)
  | quit
  | run (c : C) (p : Option P)

/-- What a turn may be: nothing while the process waits, its end, a step of `G` on itself or a
command of `R`. -/
inductive Turn.Allowed {C P : Type} (G : P → Prop) (R : C → Option P → Prop) :
    Option (Turn C P) → Prop
  | wait : Allowed G R none
  | quit : Allowed G R (some .quit)
  | stay {p : P} (h : G p) : Allowed G R (some (.stay p))
  | run {c : C} {q : Option P} (h : R c q) : Allowed G R (some (.run c q))

namespace Turn.Allowed

variable {C P : Type} {G : P → Prop} {R : C → Option P → Prop} {t : Option (Turn C P)}

theorem of_stay {p : P} (h : Allowed G R t) (ht : t = some (.stay p)) : G p := by
  subst ht
  cases h with | stay h => exact h

theorem of_run {c : C} {q : Option P} (h : Allowed G R t) (ht : t = some (.run c q)) : R c q := by
  subst ht
  cases h with | run h => exact h

end Turn.Allowed

structure CommandSpec where
  Store : Type
  Proc : Type
  Ask : Type
  Command : Type
  start : Store → Ask → Store × Proc
  run : Store → Command → Store
  act : Store → List Proc → Proc → Option (Turn Command Proc)

namespace CommandSpec

variable (spec : CommandSpec)

def effect (s : spec.Store) : Turn spec.Command spec.Proc → Effect spec.Store spec.Proc
  | .stay p => .stay p
  | .quit => .quit
  | .run c p => .share (spec.run s c) p id

@[reducible] def pool : PoolSpec where
  Store := spec.Store
  Proc := spec.Proc
  Ask := spec.Ask
  start := spec.start
  act s os p := (spec.act s os p).map (spec.effect s)

variable {spec} {A : PoolSpec.Allow spec.pool} {K : spec.Store → Prop}
  {I : spec.Store → spec.Proc → Prop} {J : spec.Store → spec.Proc → spec.Proc → Prop}
  {s : spec.Store} {os : List spec.Proc} {p : spec.Proc}

theorem pool_stay {p' : spec.Proc} (h : spec.pool.act s os p = some (.stay p')) :
    spec.act s os p = some (.stay p') := by
  obtain ⟨t, ht, he⟩ := Option.map_eq_some_iff.1 h
  cases t with
  | stay q =>
    cases he
    exact ht
  | quit | run => cases he

theorem pool_share {s' : spec.Store} {p' : Option spec.Proc} {tell : spec.Proc → spec.Proc}
    (h : spec.pool.act s os p = some (.share s' p' tell)) :
    ∃ c, spec.act s os p = some (.run c p') ∧ s' = spec.run s c ∧ tell = id := by
  obtain ⟨t, ht, he⟩ := Option.map_eq_some_iff.1 h
  cases t with
  | stay | quit => cases he
  | run c q =>
    cases he
    exact ⟨c, ht, rfl, rfl⟩

theorem store_of_run {x x' : Pool spec.Store spec.Proc} {k : Nat}
    (h : spec.pool.next x (.run k) = some x') :
    x'.store = x.store ∨ ∃ p c q, x.procs[k]? = some p ∧
      spec.act x.store (x.procs.eraseIdx k) p = some (.run c q) ∧
      x'.store = spec.run x.store c := by
  obtain ⟨p, hk, h⟩ := Option.bind_eq_some_iff.1 h
  obtain ⟨e, he, rfl⟩ := Option.map_eq_some_iff.1 h
  cases e with
  | stay | quit => exact .inl rfl
  | share s' q tell =>
    obtain ⟨c, hact, rfl, rfl⟩ := pool_share he
    exact .inr ⟨p, c, q, hk, hact, rfl⟩

theorem store_of_next {x x' : Pool spec.Store spec.Proc} {a : PoolLabel spec.Ask}
    (h : spec.pool.next x a = some x') :
    (∃ b, a = .ask b ∧ x'.store = (spec.start x.store b).1) ∨ x'.store = x.store ∨
      ∃ k p c q, x.procs[k]? = some p ∧ spec.act x.store (x.procs.eraseIdx k) p = some (.run c q) ∧
        x'.store = spec.run x.store c := by
  cases a with
  | ask b =>
    cases h
    exact .inl ⟨b, rfl, rfl⟩
  | run k =>
    rcases store_of_run h with he | ⟨p, c, q, hrun⟩
    · exact .inr (.inl he)
    · exact .inr (.inr ⟨k, p, c, q, hrun⟩)
  | drop k =>
    obtain ⟨p, -, rfl⟩ := Option.map_eq_some_iff.1 h
    exact .inr (.inl rfl)

structure Keeps (spec : CommandSpec) (A : PoolSpec.Allow spec.pool) (K : spec.Store → Prop)
    (I : spec.Store → spec.Proc → Prop) (J : spec.Store → spec.Proc → spec.Proc → Prop) :
    Prop where
  symm : ∀ {s p q}, J s p q → J s q p
  ask : ∀ {s a}, A.ask s a → K s → K (spec.start s a).1 ∧ I (spec.start s a).1 (spec.start s a).2
  ask_other : ∀ {s a q}, A.ask s a → K s → I s q →
    I (spec.start s a).1 q ∧ J (spec.start s a).1 (spec.start s a).2 q
  ask_pair : ∀ {s a q r}, J s q r → J (spec.start s a).1 q r
  stay : ∀ {s os p p'}, spec.act s os p = some (.stay p') → A.run s os p →
    PoolSpec.Beside spec.pool K I J s os p → I s p' ∧ ∀ q ∈ os, J s p' q
  run : ∀ {s os p c p'}, spec.act s os p = some (.run c p') → A.run s os p →
    PoolSpec.Beside spec.pool K I J s os p →
      K (spec.run s c) ∧ (∀ r ∈ p', I (spec.run s c) r ∧ ∀ q ∈ os, J (spec.run s c) r q) ∧
      (∀ q ∈ os, I (spec.run s c) q) ∧ ∀ q ∈ os, ∀ r ∈ os, J s q r → J (spec.run s c) q r

/-- **The rule.** -/
theorem Keeps.kept (h : Keeps spec A K I J) : PoolSpec.Kept spec.pool A K I J where
  symm := h.symm
  ask := h.ask
  ask_other := h.ask_other
  ask_pair := h.ask_pair
  stay he hA hb := h.stay (pool_stay he) hA hb
  share he hA hb := by
    obtain ⟨c, hc, rfl, rfl⟩ := pool_share he
    exact h.run hc hA hb

end CommandSpec

end Spooled
