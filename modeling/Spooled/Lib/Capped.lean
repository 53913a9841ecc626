import Spooled.Lib.Commands
import Spooled.Lib.Table
import Mathlib

/-!
# Counting under a lock

Names are held, and at most `m` of them may be. A process that wants to add a
name takes a lock, finds room, and writes before it lets the lock go. `Capped`
lists what makes such a pool keep the bound: whoever has found room has the
lock, and a write by anybody else adds no name.
-/

namespace Spooled

section Room

variable {α : Type} [DecidableEq α] {m : Nat} {S T : Finset α} {k : α}

/-- Beside the other names there is room for `k`. -/
def Room (m : Nat) (S : Finset α) (k : α) : Prop := (S.erase k).card < m

theorem room_of_mem (hk : k ∈ S) (h : S.card ≤ m) : Room m S k :=
  Nat.lt_of_lt_of_le (Finset.card_erase_lt_of_mem hk) h

theorem room_of_lt (h : S.card < m) : Room m S k :=
  Nat.lt_of_le_of_lt (Finset.card_le_card (Finset.erase_subset k S)) h

theorem Room.take (h : Room m S k) (hT : T ⊆ insert k S) : Room m T k := by
  have hsub : T.erase k ⊆ S.erase k := by
    intro j hj
    obtain ⟨hne, hj⟩ := Finset.mem_erase.1 hj
    exact Finset.mem_erase.2 ⟨hne, (Finset.mem_insert.1 (hT hj)).resolve_left hne⟩
  exact Nat.lt_of_le_of_lt (Finset.card_le_card hsub) h

theorem Room.mono (h : Room m S k) (hT : T ⊆ S) : Room m T k :=
  h.take (hT.trans (Finset.subset_insert k S))

theorem Room.card_le (h : Room m S k) (hT : T ⊆ insert k S) : T.card ≤ m := by
  have hroom := h.take hT
  have hcard : T.card - 1 ≤ (T.erase k).card := Finset.pred_card_le_card_erase
  unfold Room at hroom
  omega

end Room

namespace Table

variable {κ α : Type} {key : α → κ} [DecidableEq κ]

/-- The keys of the rows among `p`. -/
def keysWhere (t : Table κ α key) (p : α → Bool) : Finset κ := ((t.rows.filter p).map key).toFinset

theorem mem_keysWhere {t : Table κ α key} {p : α → Bool} {k : κ} :
    k ∈ t.keysWhere p ↔ (t.find k).any p = true := by
  rw [keysWhere, List.mem_toFinset, mem_map_key_filter]

theorem card_keysWhere (t : Table κ α key) (p : α → Bool) :
    (t.keysWhere p).card = t.rows.countP p := by
  have hnodup : ((t.rows.filter p).map key).Nodup :=
    t.nodup.sublist (List.filter_sublist.map key)
  rw [keysWhere, List.toFinset_card_of_nodup hnodup, List.length_map, List.countP_eq_length_filter]

end Table

namespace CommandSpec

variable {α : Type} [DecidableEq α] {spec : CommandSpec} {A : PoolSpec.Allow spec.pool}
  {K : spec.Store → Prop} {I : spec.Store → spec.Proc → Prop}
  {J : spec.Store → spec.Proc → spec.Proc → Prop} {held : spec.Store → Finset α}
  {locks : spec.Proc → Prop} {due : spec.Proc → Option α} {m : Nat}

/-- What makes a pool keep the bound, over an invariant that is known to be kept: `held` are the
names, `locks` says who has the lock, `due` for which name a process has found room. -/
structure Capped (spec : CommandSpec) (A : PoolSpec.Allow spec.pool) (K : spec.Store → Prop)
    (I : spec.Store → spec.Proc → Prop) (J : spec.Store → spec.Proc → spec.Proc → Prop)
    (held : spec.Store → Finset α) (locks : spec.Proc → Prop) (due : spec.Proc → Option α)
    (m : Nat) : Prop where
  start : ∀ {s a}, held (spec.start s a).1 ⊆ held s ∧ ¬ locks (spec.start s a).2
  due_locks : ∀ {p k}, due p = some k → locks p
  stay_locks : ∀ {s os p p'}, spec.act s os p = some (.stay p') → locks p' →
    locks p ∨ ∀ q ∈ os, ¬ locks q
  stay_due : ∀ {s os p p' k}, spec.act s os p = some (.stay p') → A.run s os p →
    PoolSpec.Beside spec.pool K I J s os p → due p' = some k →
      due p = some k ∨ k ∈ held s ∨ (held s).card < m
  run_held : ∀ {s os p c p'}, spec.act s os p = some (.run c p') → A.run s os p →
    PoolSpec.Beside spec.pool K I J s os p →
      held (spec.run s c) ⊆ held s ∨ ∃ k, due p = some k ∧ held (spec.run s c) ⊆ insert k (held s)
  run_next : ∀ {s os p c p'}, spec.act s os p = some (.run c (some p')) →
    (locks p' → locks p) ∧ ∀ k, due p' = some k → due p = some k

theorem Capped.keptOver (h : Capped spec A K I J held locks due m) :
    PoolSpec.KeptOver spec.pool A K I J (fun s => (held s).card ≤ m)
      (fun s p => ∀ k, due p = some k → Room m (held s) k)
      (fun _ p q => ¬ (locks p ∧ locks q)) where
  symm hpq hqp := hpq ⟨hqp.2, hqp.1⟩
  ask _ _ hK := ⟨Nat.le_trans (Finset.card_le_card h.start.1) hK,
    fun _ hk => absurd (h.due_locks hk) h.start.2⟩
  ask_other _ _ _ _ hq := ⟨fun k hk => (hq k hk).mono h.start.1, fun hpq => h.start.2 hpq.1⟩
  ask_pair hqr := hqr
  stay hact hA hb hb₂ := by
    replace hact := pool_stay hact
    refine ⟨fun k hk => ?_, fun q hq hpq => ?_⟩
    · rcases h.stay_due hact hA hb hk with hdue | hmem | hlt
      · exact hb₂.own k hdue
      · exact room_of_mem hmem hb₂.store
      · exact room_of_lt hlt
    · rcases h.stay_locks hact hpq.1 with hp | hfree
      · exact hb₂.pair q hq ⟨hp, hpq.2⟩
      · exact hfree q hq hpq.2
  share {s os p s' p' tell} he hA hb hb₂ := by
    obtain ⟨c, hact, rfl, rfl⟩ := pool_share he
    -- another process that found room has the lock, so this one did not
    have hothers : ∀ q ∈ os, ∀ k, due q = some k → held (spec.run s c) ⊆ held s := by
      intro q hq k hk
      rcases h.run_held hact hA hb with hsub | ⟨k', hk', -⟩
      · exact hsub
      · exact absurd ⟨h.due_locks hk', h.due_locks hk⟩ (hb₂.pair q hq)
    refine ⟨?_, fun r hr => ?_, fun q hq k hk => ?_, fun q _ r _ _ hqr => hqr⟩
    · rcases h.run_held hact hA hb with hsub | ⟨k, hk, hsub⟩
      · exact Nat.le_trans (Finset.card_le_card hsub) hb₂.store
      · exact Room.card_le (hb₂.own k hk) hsub
    · cases hr
      obtain ⟨hlocks, hdue⟩ := h.run_next hact
      refine ⟨fun k hk => ?_, fun q hq hpq => hb₂.pair q hq ⟨hlocks hpq.1, hpq.2⟩⟩
      rcases h.run_held hact hA hb with hsub | ⟨k', hk', hsub⟩
      · exact Room.mono (hb₂.own k (hdue k hk)) hsub
      · obtain rfl : k' = k := Option.some.inj (hk'.symm.trans (hdue k hk))
        exact Room.take (hb₂.own k' hk') hsub
    · exact Room.mono (hb₂.others q hq k hk) (hothers q hq k hk)

/-- **The rule.** Started within the bound, the pool stays within it. -/
theorem Capped.card_le (h : Capped spec A K I J held locks due m)
    (hkept : PoolSpec.Kept spec.pool A K I J) {init : spec.Store → Prop}
    (hinit : ∀ s, init s → K s ∧ (held s).card ≤ m) {x : Pool spec.Store spec.Proc}
    {hist : List (Pool spec.Store spec.Proc × PoolLabel spec.Ask)}
    (hr : (spec.pool.machine init).Run x hist) (hC : (spec.pool.machine init).Steps A.step hist) :
    (held x.store).card ≤ m :=
  ((hkept.over h.keptOver).invariant hinit hr hC).store.2

end CommandSpec

end Spooled
