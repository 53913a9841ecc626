import Mathlib

/-!
# Maps whose entries expire

Every entry has a deadline, and from then on it is as if it were not there.
-/

namespace Spooled

def Expiring (κ α : Type) : Type := κ → Option (α × Nat)

namespace Expiring

variable {κ α : Type} {m : Expiring κ α} {now now' deadline : Nat} {k k' : κ} {v : α}

def empty : Expiring κ α := fun _ => none

def get (m : Expiring κ α) (now : Nat) (k : κ) : Option α :=
  (m k).bind fun e => if now < e.2 then some e.1 else none

theorem get_eq_some : m.get now k = some v ↔ ∃ deadline, m k = some (v, deadline) ∧ now < deadline := by
  unfold get
  rw [Option.bind_eq_some_iff]
  constructor
  · rintro ⟨⟨v', deadline⟩, hm, hv⟩
    split at hv
    · next hlt =>
      cases hv
      exact ⟨deadline, hm, hlt⟩
    · cases hv
  · rintro ⟨deadline, hm, hlt⟩
    exact ⟨(v, deadline), hm, if_pos hlt⟩

theorem get_of_get_later (h : m.get now' k = some v) (hle : now ≤ now') : m.get now k = some v := by
  obtain ⟨deadline, hm, hlt⟩ := get_eq_some.1 h
  exact get_eq_some.2 ⟨deadline, hm, Nat.lt_of_le_of_lt hle hlt⟩

variable [DecidableEq κ]

def set (m : Expiring κ α) (k : κ) (v : α) (deadline : Nat) : Expiring κ α :=
  Function.update m k (some (v, deadline))

def delete (m : Expiring κ α) (k : κ) : Expiring κ α := Function.update m k none

theorem set_self : (m.set k v deadline) k = some (v, deadline) := Function.update_self ..

theorem set_of_ne (h : k' ≠ k) : (m.set k v deadline) k' = m k' := Function.update_of_ne h ..

theorem delete_self : (m.delete k) k = none := Function.update_self ..

theorem delete_of_ne (h : k' ≠ k) : (m.delete k) k' = m k' := Function.update_of_ne h ..

end Expiring

end Spooled
