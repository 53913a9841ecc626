import Mathlib

/-!
# Keyed tables

A `Table κ α key` is a list of rows in which no two rows share a key: the
uniqueness of the primary key is a field, so a table that violates it cannot
be built. `update`, `delete` and `insert?` are the three write statements of
SQL on one table; `find` is the lookup by primary key and every statement is
characterised by what it does to `find`.
-/

namespace Spooled

open List

/-- Rows with a primary key. -/
structure Table (κ α : Type) (key : α → κ) where
  rows : List α
  nodup : (rows.map key).Nodup

namespace Table

variable {κ α : Type} {key : α → κ}

/-- The rows of `UPDATE … SET f WHERE p`. -/
def updateRows (p : α → Bool) (f : α → α) (rows : List α) : List α :=
  rows.map fun r => if p r then f r else r

theorem map_key_updateRows {p : α → Bool} {f : α → α} (hf : ∀ r, key (f r) = key r)
    (rows : List α) : (updateRows p f rows).map key = rows.map key := by
  simp only [updateRows, map_map]
  refine map_congr_left fun r _ => ?_
  simp only [Function.comp_apply]
  split
  · exact hf r
  · rfl

def empty : Table κ α key := ⟨[], nodup_nil⟩

instance : Inhabited (Table κ α key) := ⟨empty⟩

/-- `UPDATE t SET f WHERE p`, for an assignment that leaves the key alone. -/
def update (t : Table κ α key) (p : α → Bool) (f : α → α) (hf : ∀ r, key (f r) = key r) :
    Table κ α key where
  rows := updateRows p f t.rows
  nodup := by rw [map_key_updateRows hf]; exact t.nodup

theorem eq_of_rows {t t' : Table κ α key} (h : t.rows = t'.rows) : t = t' := by
  cases t
  cases t'
  cases h
  rfl

theorem update_of_none {t : Table κ α key} {p : α → Bool} {f : α → α}
    {hf : ∀ r, key (f r) = key r} (h : ∀ r ∈ t.rows, p r = false) : t.update p f hf = t := by
  apply eq_of_rows
  show updateRows p f t.rows = t.rows
  unfold updateRows
  conv_rhs => rw [← map_id t.rows]
  refine map_congr_left fun r hr => ?_
  rw [h r hr]
  rfl

/-- `DELETE FROM t WHERE p`. -/
def delete (t : Table κ α key) (p : α → Bool) : Table κ α key where
  rows := t.rows.filter fun r => !p r
  nodup := t.nodup.sublist (filter_sublist.map key)

theorem eq_of_key {t : Table κ α key} {r r' : α} (hr : r ∈ t.rows) (hr' : r' ∈ t.rows)
    (h : key r = key r') : r = r' :=
  inj_on_of_nodup_map t.nodup hr hr' h

@[simp] theorem mem_update {t : Table κ α key} {p : α → Bool} {f : α → α}
    {hf : ∀ r, key (f r) = key r} {r : α} :
    r ∈ (t.update p f hf).rows ↔ ∃ r₀ ∈ t.rows, (if p r₀ then f r₀ else r₀) = r := by
  simp [update, updateRows]

@[simp] theorem mem_delete {t : Table κ α key} {p : α → Bool} {r : α} :
    r ∈ (t.delete p).rows ↔ r ∈ t.rows ∧ p r = false := by
  simp [delete]

variable [DecidableEq κ]

def find (t : Table κ α key) (k : κ) : Option α := t.rows.find? fun r => key r = k

/-- `INSERT INTO t VALUES r`; a duplicate key is refused and the table is unchanged. -/
def insert (t : Table κ α key) (r : α) : Table κ α key :=
  if h : key r ∈ t.rows.map key then t
  else ⟨t.rows ++ [r], by
    rw [map_append, nodup_append]
    refine ⟨t.nodup, by simp, ?_⟩
    intro a ha b hb
    simp only [map_cons, map_nil, mem_singleton] at hb
    subst hb
    rintro rfl
    exact h ha⟩

/-! ## Lookup -/

theorem find_eq_some {t : Table κ α key} {k : κ} {r : α} :
    t.find k = some r ↔ r ∈ t.rows ∧ key r = k := by
  constructor
  · intro h
    exact ⟨mem_of_find?_eq_some h, by simpa using find?_some h⟩
  · rintro ⟨hr, rfl⟩
    cases hf : t.find (key r) with
    | none => simpa using find?_eq_none.1 hf r hr
    | some r' =>
      have hk : key r' = key r := by simpa using find?_some hf
      rw [eq_of_key (mem_of_find?_eq_some hf) hr hk]

theorem find_key {t : Table κ α key} {r : α} (hr : r ∈ t.rows) : t.find (key r) = some r :=
  find_eq_some.2 ⟨hr, rfl⟩

theorem key_of_find {t : Table κ α key} {k : κ} {r : α} (h : t.find k = some r) : key r = k :=
  (find_eq_some.1 h).2

theorem mem_of_find {t : Table κ α key} {k : κ} {r : α} (h : t.find k = some r) : r ∈ t.rows :=
  (find_eq_some.1 h).1

theorem find_eq_none {t : Table κ α key} {k : κ} :
    t.find k = none ↔ ∀ r ∈ t.rows, key r ≠ k := by
  simp [find, find?_eq_none]

theorem filter_of_key {t : Table κ α key} {p : α → Bool} {k : κ}
    (h : ∀ r ∈ t.rows, p r = true → key r = k) :
    t.rows.filter p = [] ∨ ∃ r, t.find k = some r ∧ p r = true ∧ t.rows.filter p = [r] := by
  have hnodup : ((t.rows.filter p).map key).Nodup :=
    t.nodup.sublist (filter_sublist.map key)
  have hkey : ∀ r ∈ t.rows.filter p, key r = k := fun r hr =>
    h r (mem_filter.1 hr).1 (mem_filter.1 hr).2
  cases hf : t.rows.filter p with
  | nil => exact .inl rfl
  | cons r rs =>
    have hr : r ∈ t.rows.filter p := by rw [hf]; exact mem_cons_self
    have hk := hkey r hr
    obtain ⟨hmem, hp⟩ := mem_filter.1 hr
    refine .inr ⟨r, by rw [← hk]; exact find_key hmem, hp, ?_⟩
    cases rs with
    | nil => rfl
    | cons x xs =>
      have hx : key x = k := hkey x (by rw [hf]; simp)
      rw [hf, map_cons, map_cons, hk, hx] at hnodup
      simp at hnodup

theorem mem_map_key_filter {t : Table κ α key} {p : α → Bool} {k : κ} :
    k ∈ (t.rows.filter p).map key ↔ (t.find k).any p = true := by
  rw [mem_map, Option.any_eq_true]
  constructor
  · rintro ⟨r, hr, rfl⟩
    obtain ⟨hr, hp⟩ := mem_filter.1 hr
    exact ⟨r, find_key hr, hp⟩
  · rintro ⟨r, hr, hp⟩
    exact ⟨r, mem_filter.2 ⟨mem_of_find hr, hp⟩, key_of_find hr⟩

/-- Counting rows by their keys: `t'` has the rows of `t` among `p`, and those with keys `ks`. -/
theorem countP_rows {t t' : Table κ α key} {p : α → Bool} {ks : List κ} (hks : ks.Nodup)
    (hnew : ∀ k ∈ ks, (t.find k).any p = false)
    (h : ∀ k, (t'.find k).any p = true ↔ (t.find k).any p = true ∨ k ∈ ks) :
    t'.rows.countP p = t.rows.countP p + ks.length := by
  have hnodup : ∀ t : Table κ α key, ((t.rows.filter p).map key).Nodup :=
    fun t => t.nodup.sublist (filter_sublist.map key)
  have happend : ((t.rows.filter p).map key ++ ks).Nodup := by
    refine nodup_append.2 ⟨hnodup t, hks, fun k hk k' hk' he => ?_⟩
    rw [mem_map_key_filter, he, hnew k' hk'] at hk
    cases hk
  have hperm : ((t'.rows.filter p).map key).Perm ((t.rows.filter p).map key ++ ks) := by
    refine (perm_ext_iff_of_nodup (hnodup t') happend).2 fun k => ?_
    rw [mem_append, mem_map_key_filter, mem_map_key_filter]
    exact h k
  have hlen := hperm.length_eq
  rwa [length_append, length_map, length_map, ← countP_eq_length_filter,
    ← countP_eq_length_filter] at hlen

/-- At most one of the rows among `p` has a given key. -/
theorem countP_key_filter (t : Table κ α key) (p : α → Bool) (k : κ) :
    (t.rows.filter p).countP (fun r => decide (key r = k)) = ((t.find k).any p).toNat := by
  obtain ⟨rows, nodup⟩ := t
  simp only [find]
  induction rows with
  | nil => rfl
  | cons r rows ih =>
    rw [map_cons, nodup_cons] at nodup
    rw [countP_filter, countP_cons, ← countP_filter, ih nodup.2]
    by_cases hk : key r = k
    · have hno : rows.find? (fun r => decide (key r = k)) = none := by
        rw [find?_eq_none]
        intro x hx hxk
        refine nodup.1 (mem_map.2 ⟨x, hx, ?_⟩)
        rw [hk, of_decide_eq_true hxk]
      rw [hno, find?_cons_of_pos (by simp [hk])]
      cases hp : p r <;> simp [hp, hk]
    · rw [find?_cons_of_neg (by simp [hk])]
      simp [hk]

/-! ## What each statement does to a row -/

theorem find_update (t : Table κ α key) (p : α → Bool) (f : α → α)
    (hf : ∀ r, key (f r) = key r) (k : κ) :
    (t.update p f hf).find k = (t.find k).map fun r => if p r then f r else r := by
  simp only [find, update, updateRows, find?_map]
  have hp : ((fun r => decide (key r = k)) ∘ fun r => if p r then f r else r)
      = fun r => decide (key r = k) := by
    funext r
    simp only [Function.comp_apply]
    split
    · rw [hf]
    · rfl
  rw [hp]

theorem find_delete (t : Table κ α key) (p : α → Bool) (k : κ) :
    (t.delete p).find k = (t.find k).filter fun r => !p r := by
  cases h : t.find k with
  | none =>
    rw [Option.filter_none, find_eq_none]
    intro r hr
    exact find_eq_none.1 h r (mem_delete.1 hr).1
  | some r =>
    obtain ⟨hr, rfl⟩ := find_eq_some.1 h
    cases hp : p r with
    | false =>
      rw [Option.filter_some, hp]
      exact find_key (mem_delete.2 ⟨hr, hp⟩)
    | true =>
      simp only [Option.filter_some, hp, Bool.not_true, Bool.false_eq_true, if_false]
      rw [find_eq_none]
      intro r' hr' hk
      obtain ⟨hm, hp'⟩ := mem_delete.1 hr'
      rw [eq_of_key hm hr hk, hp] at hp'
      exact Bool.noConfusion hp'

theorem mem_insert {t : Table κ α key} {r r' : α} :
    r' ∈ (t.insert r).rows ↔ r' ∈ t.rows ∨ (t.find (key r) = none ∧ r' = r) := by
  have hmem : key r ∈ t.rows.map key ↔ ¬ t.find (key r) = none := by
    rw [find_eq_none]; simp
  unfold insert
  split
  · next h => simp [hmem.1 h]
  · next h => simp only [mem_append, mem_singleton, not_not.1 (mt hmem.2 h), true_and]

theorem find_insert (t : Table κ α key) (r : α) (k : κ) :
    (t.insert r).find k = if k = key r ∧ t.find k = none then some r else t.find k := by
  split
  · next h =>
    obtain ⟨rfl, hn⟩ := h
    exact find_eq_some.2 ⟨mem_insert.2 (.inr ⟨hn, rfl⟩), rfl⟩
  · next h =>
    cases hk : t.find k with
    | some r' =>
      obtain ⟨hr', hkey⟩ := find_eq_some.1 hk
      exact find_eq_some.2 ⟨mem_insert.2 (.inl hr'), hkey⟩
    | none =>
      rw [find_eq_none]
      intro r' hr' hkey
      rcases mem_insert.1 hr' with hm | ⟨-, rfl⟩
      · exact find_eq_none.1 hk r' hm hkey
      · exact h ⟨hkey.symm, hk⟩

end Table

end Spooled
