import Mathlib

/-!
# Paths of a relation

A list in which every element comes before its successors has no cycle of the
relation through its elements. `Walk` counts the pairs of a path.
-/

namespace Spooled

open Relation

variable {α : Type}

/-- Every element's successors come later in the list. -/
def Sorted (E : α → α → Prop) : List α → Prop
  | [] => True
  | a :: l => (∀ b, E a b → b ∈ l) ∧ Sorted E l

theorem Sorted.closed {E : α → α → Prop} {l : List α} (h : Sorted E l) {a b : α} (ha : a ∈ l)
    (hab : E a b) : b ∈ l := by
  induction l with
  | nil => simp at ha
  | cons c l ih =>
    obtain ⟨hc, hl⟩ := h
    rcases List.mem_cons.1 ha with rfl | ha
    · exact List.mem_cons_of_mem _ (hc b hab)
    · exact List.mem_cons_of_mem _ (ih hl ha)

theorem Sorted.closed_trans {E : α → α → Prop} {l : List α} (h : Sorted E l) {a b : α}
    (ha : a ∈ l) (hab : TransGen E a b) : b ∈ l := by
  induction hab with
  | single hab => exact h.closed ha hab
  | tail _ hbc ih => exact h.closed ih hbc

theorem Sorted.not_cycle {E : α → α → Prop} {l : List α} (h : Sorted E l) (hn : l.Nodup) {a : α}
    (ha : a ∈ l) : ¬ TransGen E a a := by
  induction l with
  | nil => simp at ha
  | cons c l ih =>
    obtain ⟨hc, hl⟩ := h
    obtain ⟨hcl, hn⟩ := List.nodup_cons.1 hn
    rcases List.mem_cons.1 ha with rfl | ha
    · intro hcyc
      rcases TransGen.head'_iff.1 hcyc with ⟨b, hab, hba⟩
      have hb := hc b hab
      rcases hba.cases_head with rfl | ⟨d, hbd, hda⟩
      · exact hcl hb
      · exact hcl (hl.closed_trans hb (TransGen.head' hbd hda))
    · exact ih hl hn ha

/-- A path of exactly `n` pairs. -/
inductive Walk (E : α → α → Prop) : Nat → α → α → Prop
  | nil (a : α) : Walk E 0 a a
  | cons {n : Nat} {a b c : α} : E a b → Walk E n b c → Walk E (n + 1) a c

theorem Walk.mono {E F : α → α → Prop} (hEF : ∀ a b, E a b → F a b) {n : Nat} {a b : α}
    (h : Walk E n a b) : Walk F n a b := by
  induction h with
  | nil a => exact .nil a
  | cons h _ ih => exact .cons (hEF _ _ h) ih

end Spooled
