import Mathlib
import Spooled.Lib.Graph

/-!
# The cycle check of workflow definitions

`has_circular_dependency` is a depth-first search over the step keys with a
`visiting` and a `visited` set. The recursion is on a fuel argument; a path of
the search holds no key twice, so one unit per key and one more never run out,
and running out answers `true` (the definition is refused). When the search
answers `false`, the visited keys form a sorted list: every key is entered
after all of its dependencies.
-/

namespace Spooled

open List

variable {κ : Type}

structure Marks (κ : Type) where
  visiting : List κ := []
  visited : List κ := []

def visitAll (visit : κ → Marks κ → Bool × Marks κ) : List κ → Marks κ → Bool × Marks κ
  | [], m => (false, m)
  | d :: ds, m =>
    let r := visit d m
    if r.1 then r else visitAll visit ds r.2

/-- The inner function of `has_circular_dependency`. -/
def visit [DecidableEq κ] (deps : κ → List κ) : Nat → κ → Marks κ → Bool × Marks κ
  | 0, _, m => (true, m)
  | n + 1, key, m =>
    if key ∈ m.visited then (false, m)
    else if key ∈ m.visiting then (true, m)
    else
      let r := visitAll (visit deps n) (deps key) { m with visiting := key :: m.visiting }
      if r.1 then r
      else (false, ⟨r.2.visiting.erase key, key :: r.2.visited⟩)

/-- `has_circular_dependency`; `keys` is the iteration order of the map. -/
def hasCircularDependency [DecidableEq κ] (deps : κ → List κ) (keys : List κ) : Bool :=
  (visitAll (visit deps (keys.length + 1)) keys {}).1

/-- The visited keys of `m` are sorted, without repetition and disjoint from
the keys under way. -/
structure Marks.Ok (deps : κ → List κ) (m : Marks κ) : Prop where
  sorted : Sorted (fun a b => b ∈ deps a) m.visited
  nodup : m.visited.Nodup
  disjoint : ∀ k ∈ m.visiting, k ∉ m.visited

theorem Marks.Ok.enter {deps : κ → List κ} {m : Marks κ} {key : κ} (hm : m.Ok deps)
    (h : key ∉ m.visited) : ({ m with visiting := key :: m.visiting } : Marks κ).Ok deps :=
  ⟨hm.sorted, hm.nodup, forall_mem_cons.2 ⟨h, hm.disjoint⟩⟩

/-- What an unsuccessful search for a cycle leaves behind. -/
structure Extends (deps : κ → List κ) (m m' : Marks κ) : Prop where
  ok : m'.Ok deps
  visiting : m'.visiting = m.visiting
  visited : ∀ k ∈ m.visited, k ∈ m'.visited

theorem Extends.trans {deps : κ → List κ} {m m' m'' : Marks κ} (h : Extends deps m m')
    (h' : Extends deps m' m'') : Extends deps m m'' :=
  ⟨h'.ok, h'.visiting.trans h.visiting, fun k hk => h'.visited k (h.visited k hk)⟩

theorem visitAll_extends {deps : κ → List κ} {v : κ → Marks κ → Bool × Marks κ}
    (hv : ∀ k m, m.Ok deps → (v k m).1 = false → Extends deps m (v k m).2 ∧ k ∈ (v k m).2.visited)
    (ks : List κ) (m : Marks κ) (hm : m.Ok deps) (hr : (visitAll v ks m).1 = false) :
    Extends deps m (visitAll v ks m).2 ∧ ∀ k ∈ ks, k ∈ (visitAll v ks m).2.visited := by
  induction ks generalizing m with
  | nil => exact ⟨⟨hm, rfl, fun _ h => h⟩, by simp⟩
  | cons d ds ih =>
    simp only [visitAll] at hr ⊢
    split at hr
    · next hd => rw [hd] at hr; cases hr
    · next hd =>
      rw [if_neg hd]
      obtain ⟨h₁, hd'⟩ := hv d m hm (by simpa using hd)
      obtain ⟨h₂, hds⟩ := ih _ h₁.ok hr
      refine ⟨h₁.trans h₂, fun k hk => ?_⟩
      rcases mem_cons.1 hk with rfl | hk
      · exact h₂.visited _ hd'
      · exact hds k hk

theorem visit_extends [DecidableEq κ] (deps : κ → List κ) (n : Nat) (key : κ) (m : Marks κ) (hm : m.Ok deps)
    (hr : (visit deps n key m).1 = false) :
    Extends deps m (visit deps n key m).2 ∧ key ∈ (visit deps n key m).2.visited := by
  induction n generalizing key m with
  | zero => simp [visit] at hr
  | succ n ih =>
    simp only [visit] at hr ⊢
    by_cases h₁ : key ∈ m.visited
    · rw [if_pos h₁]
      exact ⟨⟨hm, rfl, fun _ h => h⟩, h₁⟩
    by_cases h₂ : key ∈ m.visiting
    · rw [if_neg h₁, if_pos h₂] at hr; cases hr
    rw [if_neg h₁, if_neg h₂] at hr ⊢
    set m₁ : Marks κ := { m with visiting := key :: m.visiting } with hm₁
    have hok : m₁.Ok deps := hm.enter h₁
    split at hr
    · next hd => rw [hd] at hr; cases hr
    · next hd =>
      rw [if_neg hd]
      obtain ⟨he, hds⟩ := visitAll_extends (ih) (deps key) m₁ hok (by simpa using hd)
      have hkey := he.ok.disjoint key (by rw [he.visiting]; exact mem_cons_self)
      have hvis : (visitAll (visit deps n) (deps key) m₁).2.visiting.erase key = m.visiting := by
        rw [he.visiting, hm₁]; exact erase_cons_head ..
      refine ⟨⟨⟨⟨hds, he.ok.sorted⟩, nodup_cons.2 ⟨hkey, he.ok.nodup⟩, ?_⟩, hvis, ?_⟩,
        mem_cons_self⟩
      · intro k hk hk'
        rw [hvis] at hk
        rcases mem_cons.1 hk' with rfl | hk'
        · exact h₂ hk
        · exact he.ok.disjoint k (by rw [he.visiting]; exact mem_cons_of_mem _ hk) hk'
      · exact fun k hk => mem_cons_of_mem _ (he.visited k hk)

/-! ## The search finds only cycles -/

section Exact

variable {deps : κ → List κ} {keys : List κ} {m : Marks κ}

/-- On the way to `key`, every key under way is a key of the map and reaches `key`. -/
structure Marks.Path (deps : κ → List κ) (keys : List κ) (m : Marks κ) (key : κ) : Prop where
  ok : m.Ok deps
  nodup : m.visiting.Nodup
  known : ∀ k ∈ m.visiting, k ∈ keys
  reaches : ∀ k ∈ m.visiting, Relation.TransGen (fun a b => b ∈ deps a) k key

/-- Two searches that agree on every key in turn, and the reason of a `true`. -/
theorem visitAll_rule {v w : κ → Marks κ → Bool × Marks κ} {C : Prop} {l : List κ}
    (hv : ∀ k m, m.Ok deps → (v k m).1 = false → Extends deps m (v k m).2 ∧ k ∈ (v k m).2.visited)
    (hm : m.Ok deps)
    (h : ∀ k ∈ l, ∀ m', Extends deps m m' → w k m' = v k m' ∧ ((v k m').1 = true → C)) :
    visitAll w l m = visitAll v l m ∧ ((visitAll v l m).1 = true → C) := by
  induction l generalizing m with
  | nil => exact ⟨rfl, fun h => by cases h⟩
  | cons d ds ih =>
    obtain ⟨heq, hd⟩ := h d mem_cons_self m ⟨hm, rfl, fun _ h => h⟩
    simp only [visitAll, heq]
    cases hr : (v d m).1 with
    | true => exact ⟨rfl, fun _ => hd hr⟩
    | false =>
      have he := (hv d m hm hr).1
      exact ih he.ok fun k hk m' hm' => h k (mem_cons_of_mem _ hk) m' (he.trans hm')

/-- The keys under way are distinct keys of the map, so the fuel lasts; more of it
changes nothing, and a `true` is the answer to a key met again. -/
theorem visit_exact [DecidableEq κ] (hkeys : ∀ k, deps k ≠ [] → k ∈ keys) (key : κ)
    {n n' : Nat} (hle : n ≤ n') (hn : keys.length < n + m.visiting.length) (hm : m.Path deps keys key) :
    visit deps n' key m = visit deps n key m ∧ ((visit deps n key m).1 = true →
      ∃ k, Relation.TransGen (fun a b => b ∈ deps a) k k) := by
  induction n generalizing n' key m with
  | zero =>
    have hlen := (hm.nodup.subperm hm.known).length_le
    omega
  | succ n ih =>
    obtain ⟨n', rfl⟩ := Nat.exists_eq_succ_of_ne_zero (show n' ≠ 0 by omega)
    by_cases h₁ : key ∈ m.visited
    · simp [visit, h₁]
    by_cases h₂ : key ∈ m.visiting
    · simp only [visit, if_neg h₁, if_pos h₂, true_and]
      exact fun _ => ⟨key, hm.reaches key h₂⟩
    simp only [visit, if_neg h₁, if_neg h₂]
    have hok : ({ m with visiting := key :: m.visiting } : Marks κ).Ok deps := hm.ok.enter h₁
    obtain ⟨heq, hcycle⟩ := visitAll_rule (visit_extends deps n) hok (l := deps key)
      (w := visit deps n') (C := ∃ k, Relation.TransGen (fun a b => b ∈ deps a) k k)
      fun d hd m' hm' => by
        refine ih d (by omega) ?_ ⟨hm'.ok, ?_, ?_, ?_⟩
        · rw [hm'.visiting, length_cons]
          omega
        · rw [hm'.visiting]
          exact nodup_cons.2 ⟨h₂, hm.nodup⟩
        · rw [hm'.visiting]
          exact forall_mem_cons.2 ⟨hkeys key (ne_nil_of_mem hd), hm.known⟩
        · rw [hm'.visiting]
          exact forall_mem_cons.2 ⟨.single hd, fun k hk => (hm.reaches k hk).tail hd⟩
    rw [heq]
    refine ⟨rfl, fun h => hcycle ?_⟩
    split at h
    · next hd => exact hd
    · cases h

end Exact

/-- **A definition the check accepts has no cycle among its keys.** -/
theorem not_cycle_of_hasCircularDependency [DecidableEq κ] {deps : κ → List κ} {keys : List κ}
    (h : hasCircularDependency deps keys = false) {k : κ} (hk : k ∈ keys) :
    ¬ Relation.TransGen (fun a b => b ∈ deps a) k k := by
  have hstart : (({} : Marks κ)).Ok deps := ⟨trivial, nodup_nil, by simp⟩
  obtain ⟨he, hall⟩ := visitAll_extends (visit_extends deps (keys.length + 1)) keys {} hstart h
  exact he.ok.sorted.not_cycle he.ok.nodup (hall k hk)

/-! ## The check of a definition -/

/-- The fields of a `WorkflowJobDefinition` that the check reads. -/
structure WorkflowJobDefinition where
  key : String
  dependsOn : List String

variable (jobs : List WorkflowJobDefinition)

/-- `job_deps`: of two steps with one key the later is kept. -/
def jobDeps (key : String) : List String :=
  ((jobs.reverse.find? (·.key = key)).map (·.dependsOn)).getD []

/-- The step with key `a` lists `b`. -/
def DependsOn (a b : String) : Prop :=
  ∃ j ∈ jobs, j.key = a ∧ b ∈ j.dependsOn

theorem mem_jobDeps {jobs : List WorkflowJobDefinition} (hn : (jobs.map (·.key)).Nodup)
    (a b : String) : b ∈ jobDeps jobs a ↔ DependsOn jobs a b := by
  unfold jobDeps
  cases hf : jobs.reverse.find? (·.key = a) with
  | none =>
    refine ⟨fun h => absurd h not_mem_nil, fun ⟨j, hj, ha, _⟩ => ?_⟩
    exact absurd (decide_eq_true ha) (find?_eq_none.1 hf j (mem_reverse.2 hj))
  | some j =>
    have hj := mem_reverse.1 (mem_of_find?_eq_some hf)
    have ha : j.key = a := by simpa using find?_some hf
    refine ⟨fun h => ⟨j, hj, ha, h⟩, fun ⟨j', hj', ha', h⟩ => ?_⟩
    rw [inj_on_of_nodup_map hn hj hj' (ha.trans ha'.symm)]
    exact h

/-- **The cycle check is exact.** Whatever the order of the map, the search ends (no call is
deeper than the steps are many) and finds a cycle if and only if there is one. -/
theorem cycle_check_exact (hn : (jobs.map (·.key)).Nodup)
    (keys : List String) (hkeys : keys.Perm (jobs.map (·.key))) :
    (∀ n, keys.length < n → visitAll (visit (jobDeps jobs) n) keys {} =
      visitAll (visit (jobDeps jobs) (keys.length + 1)) keys {}) ∧
    (hasCircularDependency (jobDeps jobs) keys = true ↔
      ∃ k, Relation.TransGen (DependsOn jobs) k k) := by
  have hrel : (fun a b => b ∈ jobDeps jobs a) = DependsOn jobs :=
    funext₂ fun a b => propext (mem_jobDeps hn a b)
  have hknown : ∀ a b, DependsOn jobs a b → a ∈ keys := by
    rintro _ b ⟨j, hj, rfl, -⟩
    exact hkeys.mem_iff.2 (mem_map_of_mem hj)
  have hsource : ∀ k, jobDeps jobs k ≠ [] → k ∈ keys := by
    intro k hk
    obtain ⟨d, hd⟩ := exists_mem_of_ne_nil _ hk
    exact hknown k d ((mem_jobDeps hn k d).1 hd)
  have hstart : (({} : Marks String)).Ok (jobDeps jobs) := ⟨trivial, nodup_nil, by simp⟩
  have hsearch := fun n hlt => visitAll_rule (l := keys) (w := visit (jobDeps jobs) n)
    (visit_extends (jobDeps jobs) (keys.length + 1)) hstart fun k _ m hm =>
      visit_exact hsource k hlt (by simp [hm.visiting])
        ⟨hm.ok, by simp [hm.visiting], by simp [hm.visiting], by simp [hm.visiting]⟩
  rw [hrel] at hsearch
  refine ⟨fun n hlt => (hsearch n hlt).1, (hsearch _ le_rfl).2, fun ⟨k, hk⟩ => ?_⟩
  by_contra hno
  obtain ⟨b, hb, -⟩ := Relation.TransGen.head'_iff.1 hk
  exact not_cycle_of_hasCircularDependency (Bool.eq_false_iff.2 hno) (hknown k b hb) (hrel ▸ hk)

/-- A self-reference, a repeated entry and an unknown key. -/
theorem cycle_check_exact_self :
    hasCircularDependency (jobDeps [⟨"a", ["b", "b", "x"]⟩, ⟨"b", ["b"]⟩]) ["b", "a"] = true :=
  (cycle_check_exact [⟨"a", ["b", "b", "x"]⟩, ⟨"b", ["b"]⟩] (by decide) ["b", "a"] (by decide)).2.2
    ⟨"b", .single ⟨⟨"b", ["b"]⟩, by simp, rfl, by simp⟩⟩

end Spooled
