import Spooled.Lib.Expiring
import Mathlib

/-!
# Counters by fixed windows

The first use of a key opens a window of length `W`, and every use in it is
counted; after its end the next use opens a new one. What passes is logged with the
start of its window. Windows do not overlap, so an interval as long as a window
meets at most two of them.
-/

namespace Spooled

namespace Expiring

variable {κ : Type}

/-- The count and the end of the window, after one more use. -/
def counted (m : Expiring κ Nat) (W now : Nat) (k : κ) : Nat × Nat :=
  match m k with
  | some (n, deadline) => if now < deadline then (n + 1, deadline) else (1, now + W)
  | none => (1, now + W)

def count [DecidableEq κ] (m : Expiring κ Nat) (W now : Nat) (k : κ) : Expiring κ Nat :=
  m.set k (m.counted W now k).1 (m.counted W now k).2

end Expiring

/-- A use that passed, and the start of its window. -/
structure Pass where
  time : Nat
  since : Nat
deriving DecidableEq, Repr

/-- At most `limit` uses pass in a window. -/
structure Windows (W limit : Nat) (log : List Pass) : Prop where
  inside : ∀ p ∈ log, p.since ≤ p.time ∧ p.time < p.since + W
  apart : ∀ p ∈ log, ∀ q ∈ log, p.since = q.since ∨ p.since + W ≤ q.since ∨ q.since + W ≤ p.since
  few : ∀ t, log.countP (fun p => decide (p.since = t)) ≤ limit

/-- The counter agrees with the log. -/
def Tracks (W now : Nat) (entry : Option (Nat × Nat)) (log : List Pass) : Prop :=
  match entry with
  | none => log = []
  | some (n, deadline) => ∃ start ≤ now, deadline = start + W ∧
      log.countP (fun p => decide (p.since = start)) ≤ n ∧
      ∀ p ∈ log, p.since = start ∨ p.since + W ≤ start

variable {W limit now n deadline : Nat} {log : List Pass} {entry : Option (Nat × Nat)}

/-- Passes whose windows begin close to each other are of one window. -/
theorem Windows.countP_le (h : Windows W limit log) {P : Pass → Bool}
    (hclose : ∀ p ∈ log, P p = true → ∀ q ∈ log, P q = true → p.since < q.since + W) :
    log.countP P ≤ limit := by
  by_cases hex : ∃ p ∈ log, P p = true
  · obtain ⟨p, hp, hPp⟩ := hex
    refine Nat.le_trans (List.countP_mono_left fun q hq hPq => ?_) (h.few p.since)
    have hpq := hclose p hp hPp q hq hPq
    have hqp := hclose q hq hPq p hp hPp
    rcases h.apart p hp q hq with heq | hle | hle
    · exact decide_eq_true heq.symm
    · omega
    · omega
  · have hzero : log.countP P = 0 := List.countP_eq_zero.2 fun p hp hPp => hex ⟨p, hp, hPp⟩
    omega

/-- **An interval as long as a window meets two windows at most.** -/
theorem Windows.countP_interval (h : Windows W limit log) (a : Nat) :
    log.countP (fun p => decide (a ≤ p.time ∧ p.time < a + W)) ≤ 2 * limit := by
  have hsplit : log.countP (fun p => decide (a ≤ p.time ∧ p.time < a + W)) =
      log.countP (fun p => decide ((a ≤ p.time ∧ p.time < a + W) ∧ p.since ≤ a)) +
      log.countP (fun p => decide ((a ≤ p.time ∧ p.time < a + W) ∧ a < p.since)) := by
    clear h
    induction log with
    | nil => rfl
    | cons p log ih =>
      simp only [List.countP_cons, decide_eq_true_eq, ih]
      by_cases hin : a ≤ p.time ∧ p.time < a + W
      · by_cases hle : p.since ≤ a
        · have hlt : ¬ a < p.since := by omega
          simp only [hin, hle, hlt, and_self, and_false, if_true, if_false]
          omega
        · have hlt : a < p.since := by omega
          simp only [hin, hle, hlt, and_self, and_false, if_true, if_false]
          omega
      · simp only [hin, false_and, if_false]
        omega
  have hbefore : log.countP
      (fun p => decide ((a ≤ p.time ∧ p.time < a + W) ∧ p.since ≤ a)) ≤ limit := by
    refine h.countP_le fun p hp hPp q hq hPq => ?_
    have hq' := h.inside q hq
    simp only [decide_eq_true_eq] at hPp hPq
    omega
  have hafter : log.countP
      (fun p => decide ((a ≤ p.time ∧ p.time < a + W) ∧ a < p.since)) ≤ limit := by
    refine h.countP_le fun p hp hPp q hq hPq => ?_
    have hp' := h.inside p hp
    simp only [decide_eq_true_eq] at hPp hPq
    omega
  omega

theorem Tracks.later (h : Tracks W now entry log) {now' : Nat} (hle : now ≤ now') :
    Tracks W now' entry log := by
  cases entry with
  | none => exact h
  | some e =>
    obtain ⟨start, hstart, hrest⟩ := h
    exact ⟨start, Nat.le_trans hstart hle, hrest⟩

section Count

variable {κ : Type} {m : Expiring κ Nat} {k : κ}

theorem Tracks.counted (h : Tracks W now (m k) log) (hW : 0 < W) :
    ∃ start ≤ now, (m.counted W now k).2 = start + W ∧ now < start + W ∧
      log.countP (fun p => decide (p.since = start)) + 1 ≤ (m.counted W now k).1 ∧
      ∀ p ∈ log, p.since = start ∨ p.since + W ≤ start := by
  -- a window that opens now
  have hnew : (∀ p ∈ log, p.since + W ≤ now) → ∃ start ≤ now, now + W = start + W ∧
      now < start + W ∧ log.countP (fun p => decide (p.since = start)) + 1 ≤ 1 ∧
      ∀ p ∈ log, p.since = start ∨ p.since + W ≤ start := by
    intro hover
    refine ⟨now, Nat.le_refl _, rfl, by omega, ?_, fun p hp => .inr (hover p hp)⟩
    have hzero : log.countP (fun p => decide (p.since = now)) = 0 := by
      refine List.countP_eq_zero.2 fun p hp heq => ?_
      have hp := hover p hp
      have heq := of_decide_eq_true heq
      omega
    omega
  unfold Expiring.counted
  cases hk : m k with
  | none =>
    rw [hk] at h
    have hnil : log = [] := h
    subst hnil
    exact hnew nofun
  | some e =>
    obtain ⟨n, deadline⟩ := e
    rw [hk] at h
    obtain ⟨start, hstart, hdeadline, hcount, hstarts⟩ := h
    by_cases hlt : now < deadline
    · simp only [hlt, if_true]
      exact ⟨start, hstart, hdeadline, hdeadline ▸ hlt, Nat.succ_le_succ hcount, hstarts⟩
    · simp only [hlt, if_false]
      refine hnew fun p hp => ?_
      rcases hstarts p hp with heq | hle
      · omega
      · omega

variable [DecidableEq κ]

theorem Tracks.refused (h : Tracks W now (m k) log) (hW : 0 < W) :
    Tracks W now ((m.count W now k) k) log := by
  obtain ⟨start, hle, hend, -, hcount, hstarts⟩ := h.counted hW
  unfold Expiring.count
  rw [Expiring.set_self]
  exact ⟨start, hle, hend, by omega, hstarts⟩

/-- **A use that passes.** -/
theorem Tracks.passed (h : Tracks W now (m k) log) (hW : 0 < W) (hlog : Windows W limit log)
    (hlimit : (m.counted W now k).1 ≤ limit) :
    Tracks W now ((m.count W now k) k) (⟨now, (m.counted W now k).2 - W⟩ :: log) ∧
      Windows W limit (⟨now, (m.counted W now k).2 - W⟩ :: log) := by
  obtain ⟨start, hle, hend, hlt, hcount, hstarts⟩ := h.counted hW
  have hsince : (m.counted W now k).2 - W = start := by omega
  rw [hsince]
  have hself : (⟨now, start⟩ :: log).countP (fun p => decide (p.since = start)) =
      log.countP (fun p => decide (p.since = start)) + 1 :=
    List.countP_cons_of_pos (decide_eq_true rfl)
  have hall : ∀ p ∈ (⟨now, start⟩ :: log : List Pass), p.since = start ∨ p.since + W ≤ start :=
    List.forall_mem_cons.2 ⟨.inl rfl, hstarts⟩
  refine ⟨?_, List.forall_mem_cons.2 ⟨⟨hle, hlt⟩, hlog.inside⟩, ?_, fun t => ?_⟩
  · unfold Expiring.count
    rw [Expiring.set_self]
    exact ⟨start, hle, hend, by rw [hself]; exact hcount, hall⟩
  · intro p hp q hq
    rcases List.mem_cons.1 hp with rfl | hp
    · rcases hall q hq with hq | hq
      · exact .inl hq.symm
      · exact .inr (.inr hq)
    · rcases List.mem_cons.1 hq with rfl | hq
      · rcases hstarts p hp with hp | hp
        · exact .inl hp
        · exact .inr (.inl hp)
      · exact hlog.apart p hp q hq
  · by_cases ht : start = t
    · subst ht
      rw [hself]
      exact Nat.le_trans hcount hlimit
    · have hskip : (⟨now, start⟩ :: log).countP (fun p => decide (p.since = t)) =
          log.countP (fun p => decide (p.since = t)) :=
        List.countP_cons_of_neg fun h => ht (of_decide_eq_true h)
      rw [hskip]
      exact hlog.few t

theorem Expiring.count_of_ne {k' : κ} (h : k' ≠ k) : (m.count W now k) k' = m k' :=
  Expiring.set_of_ne h

end Count

end Spooled
