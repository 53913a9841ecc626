import Spooled.Create.Handlers

/-!
# What the insert transactions do

`JobStore.Adds` is the common effect of every insert transaction: some new rows
with their keys, and of the rows that were there at most `updated_at` changes.
The bulk statement is an instance of it for the first item of each key.
-/

namespace Spooled

open List

/-- At most `updated_at` has changed. -/
def Job.Touched (j j' : Job) : Prop := ∃ t, j' = { j with updatedAt := t }

variable {now started : Time} {st st' : JobStore}

theorem Job.Touched.refl (j : Job) : j.Touched j := ⟨j.updatedAt, rfl⟩

theorem Job.Touched.trans {j j' j'' : Job} (h : j.Touched j')
    (h' : j'.Touched j'') : j.Touched j'' := by
  obtain ⟨_, rfl⟩ := h
  obtain ⟨t, rfl⟩ := h'
  exact ⟨t, rfl⟩

theorem Job.Touched.same {j j' : Job} (h : j.Touched j') :
    j'.organizationId = j.organizationId ∧ j'.queueName = j.queueName ∧
      j'.createdAt = j.createdAt := by
  obtain ⟨_, rfl⟩ := h
  exact ⟨rfl, rfl, rfl⟩

namespace JobStore

/-- The rows `new`, with their keys, are added. -/
structure Adds (st st' : JobStore) (new : List (Job × Option String)) : Prop where
  old : ∀ i j, st.db.job i = some j → ∃ j', st'.db.job i = some j' ∧ j.Touched j'
  added : ∀ x ∈ new, st.db.job x.1.id = none ∧ ∃ j', st'.db.job x.1.id = some j' ∧ x.1.Touched j'
  only : ∀ i j, st'.db.job i = some j → (∃ j₀, st.db.job i = some j₀) ∨ ∃ x ∈ new, x.1.id = i
  key : ∀ i, (∀ x ∈ new, x.1.id ≠ i) → st'.keyOf i = st.keyOf i
  newKey : ∀ x ∈ new, st'.keyOf x.1.id = x.2
  nodup : (new.map (·.1.id)).Nodup

section Adds

variable {st st₁ st₂ : JobStore} {new new' : List (Job × Option String)}

theorem Adds.refl (st : JobStore) : Adds st st [] :=
  ⟨fun _ j hj => ⟨j, hj, .refl j⟩, fun _ h => absurd h not_mem_nil,
    fun _ j hj => .inl ⟨j, hj⟩, fun _ _ => rfl, fun _ h => absurd h not_mem_nil, .nil⟩

theorem Adds.ne_of_some (h : Adds st st₁ new) {i : JobId} {j : Job} (hj : st.db.job i = some j) :
    ∀ x ∈ new, x.1.id ≠ i := by
  rintro x hx rfl
  rw [(h.added x hx).1] at hj
  cases hj

theorem Adds.job_none (h : Adds st st₁ new) {i : JobId} (hi : st.db.job i = none)
    (hne : ∀ x ∈ new, x.1.id ≠ i) : st₁.db.job i = none := by
  cases hj : st₁.db.job i with
  | none => rfl
  | some j =>
    rcases h.only i j hj with ⟨j₀, hj₀⟩ | ⟨x, hx, hid⟩
    · rw [hi] at hj₀
      cases hj₀
    · exact absurd hid (hne x hx)

theorem Adds.trans (h : Adds st st₁ new) (h' : Adds st₁ st₂ new') :
    Adds st st₂ (new ++ new') := by
  -- the rows of the first part are there when the second one starts
  have hmid : ∀ x ∈ new, ∀ y ∈ new', y.1.id ≠ x.1.id := by
    intro x hx
    obtain ⟨-, j, hj, -⟩ := h.added x hx
    exact h'.ne_of_some hj
  refine ⟨?_, ?_, ?_, ?_, ?_, ?_⟩
  · intro i j hj
    obtain ⟨j₁, hj₁, ht⟩ := h.old i j hj
    obtain ⟨j₂, hj₂, ht'⟩ := h'.old i j₁ hj₁
    exact ⟨j₂, hj₂, ht.trans ht'⟩
  · intro x hx
    rcases mem_append.1 hx with hx | hx
    · obtain ⟨hnone, j, hj, ht⟩ := h.added x hx
      obtain ⟨j', hj', ht'⟩ := h'.old _ j hj
      exact ⟨hnone, j', hj', ht.trans ht'⟩
    · obtain ⟨hnone, hsome⟩ := h'.added x hx
      refine ⟨?_, hsome⟩
      cases hj : st.db.job x.1.id with
      | none => rfl
      | some j =>
        obtain ⟨j', hj', -⟩ := h.old _ j hj
        rw [hnone] at hj'
        cases hj'
  · intro i j hj
    rcases h'.only i j hj with ⟨j₁, hj₁⟩ | ⟨x, hx, hid⟩
    · rcases h.only i j₁ hj₁ with hold | ⟨x, hx, hid⟩
      · exact .inl hold
      · exact .inr ⟨x, mem_append_left _ hx, hid⟩
    · exact .inr ⟨x, mem_append_right _ hx, hid⟩
  · intro i hi
    rw [h'.key i fun x hx => hi x (mem_append_right _ hx)]
    exact h.key i fun x hx => hi x (mem_append_left _ hx)
  · intro x hx
    rcases mem_append.1 hx with hx | hx
    · rw [h'.key _ (hmid x hx), h.newKey x hx]
    · exact h'.newKey x hx
  · rw [map_append, nodup_append]
    refine ⟨h.nodup, h'.nodup, fun i hi k hk => ?_⟩
    obtain ⟨x, hx, rfl⟩ := mem_map.1 hi
    obtain ⟨y, hy, rfl⟩ := mem_map.1 hk
    exact (hmid x hx y hy).symm

theorem Adds.congr (h : Adds st st₁ new) (hjob : ∀ i, st₂.db.job i = st₁.db.job i)
    (hkeys : st₂.keys = st₁.keys) : Adds st st₂ new := by
  have hkey : ∀ i, st₂.keyOf i = st₁.keyOf i := fun i => by rw [keyOf, keyOf, hkeys]
  refine ⟨?_, ?_, ?_, ?_, ?_, h.nodup⟩ <;> simp only [hjob, hkey]
  · exact h.old
  · exact h.added
  · exact h.only
  · exact h.key
  · exact h.newKey

end Adds

theorem Ok.fresh {st : JobStore} {uuid i : Nat} (h : st.Ok uuid) (hi : uuid ≤ i) :
    st.db.job i = none ∧ st.keyOf i = none := by
  constructor
  · cases hj : st.db.job i with
    | none => rfl
    | some j => exact absurd (h.ids i j hj) (Nat.not_lt.2 hi)
  · cases hk : st.keyOf i with
    | none => rfl
    | some k => exact absurd (h.keyIds i k hk) (Nat.not_lt.2 hi)

section Upsert

variable {now : Time} {st st' : JobStore} {org : OrgId} {k : String} {j row : Job}
  {key : Option String} {inScope : String → Bool} {id : Option JobId}

theorem of_existingIdempotentJob (h : st.existingIdempotentJob org k = some j) :
    st.db.job j.id = some j ∧ j.organizationId = org ∧ st.keyOf j.id = some k := by
  have hp := find?_some h
  simp only [Bool.and_eq_true, beq_iff_eq] at hp
  exact ⟨Db.job_of_mem (mem_of_find?_eq_some h), hp⟩

theorem existingIdempotentJob_none (h : st.existingIdempotentJob org k = none) {i : JobId}
    (hj : st.db.job i = some j) (ho : j.organizationId = org) : st.keyOf i ≠ some k := by
  intro hk
  have hno := find?_eq_none.1 h j (Db.job_mem hj)
  rw [Db.job_id hj, ho, hk] at hno
  simp at hno

theorem existingIdempotentJob_some {i : JobId} (hj : st.db.job i = some j)
    (ho : j.organizationId = org) (hk : st.keyOf i = some k) :
    ∃ j', st.existingIdempotentJob org k = some j' := by
  cases h : st.existingIdempotentJob org k with
  | none => exact absurd hk (existingIdempotentJob_none h hj ho)
  | some j' => exact ⟨j', rfl⟩

theorem adds_touch (now : Time) (st : JobStore) (i : JobId) :
    Adds st { st with db := st.db.setJobs now (·.id == i) fun j => j } [] := by
  refine ⟨fun k j hj => ⟨_, Db.job_setJobs_some hj, ?_⟩, fun _ h => absurd h not_mem_nil,
    fun k j hj => ?_, fun _ _ => rfl, fun _ h => absurd h not_mem_nil, .nil⟩
  · split
    · exact ⟨_, rfl⟩
    · exact .refl _
  · cases hk : st.db.job k with
    | some j₀ => exact .inl ⟨j₀, rfl⟩
    | none =>
      rw [Db.job_setJobs, hk] at hj
      cases hj

theorem adds_insertRow (hfresh : st.db.job row.id = none) (hkey : st.keyOf row.id = none) :
    Adds st (st.insertRow row key) [(row, key)] := by
  have hjob : ∀ i, (st.insertRow row key).db.job i =
      if i = row.id ∧ st.db.job i = none then some row else st.db.job i :=
    fun i => Table.find_insert st.db.jobs row i
  have hlookup : ∀ i, (st.insertRow row key).keyOf i =
      if i = row.id then key else st.keyOf i := by
    intro i
    unfold keyOf insertRow
    cases key with
    | none =>
      by_cases hi : i = row.id
      · subst hi
        rw [if_pos rfl]
        exact hkey
      · rw [if_neg hi]
        rfl
    | some k =>
      show ((row.id, k) :: st.keys).lookup i = _
      rw [lookup_cons]
      by_cases hi : i = row.id
      · subst hi
        rw [beq_self_eq_true, if_pos rfl]
      · rw [beq_eq_false_iff_ne.2 hi, if_neg hi]
  refine ⟨?_, ?_, ?_, ?_, ?_, by simp⟩
  · intro i j hj
    refine ⟨j, ?_, .refl _⟩
    rw [hjob, if_neg (by rw [hj]; simp), hj]
  · intro x hx
    obtain rfl := mem_singleton.1 hx
    refine ⟨hfresh, row, ?_, .refl _⟩
    rw [hjob, if_pos ⟨rfl, hfresh⟩]
  · intro i j hj
    rw [hjob] at hj
    split at hj
    · next hc => exact .inr ⟨(row, key), mem_singleton.2 rfl, hc.1.symm⟩
    · exact .inl ⟨j, hj⟩
  · intro i hi
    rw [hlookup, if_neg (Ne.symm (hi (row, key) (mem_singleton.2 rfl)))]
  · intro x hx
    obtain rfl := mem_singleton.1 hx
    rw [hlookup, if_pos rfl]

/-- **One row of an insert**: a replay in scope, one out of scope, or a new row. -/
inductive Outcome (st : JobStore) (org : OrgId) (inScope : String → Bool) (key : Option String)
    (new : JobId) : Option JobId → Prop
  | replay (k : String) (i : JobId) (j : Job) : key = some k → st.db.job i = some j →
      j.organizationId = org → st.keyOf i = some k → inScope j.queueName = true →
      Outcome st org inScope key new (some i)
  | conflict (k : String) (i : JobId) (j : Job) : key = some k → st.db.job i = some j →
      j.organizationId = org → st.keyOf i = some k → inScope j.queueName = false →
      Outcome st org inScope key new none
  | created : (∀ k i j, key = some k → st.db.job i = some j → j.organizationId = org →
      st.keyOf i ≠ some k) → Outcome st org inScope key new (some new)

theorem upsert_spec (hfresh : st.db.job row.id = none) (hkey : st.keyOf row.id = none)
    (h : st.upsert now row key inScope = some (st', id)) :
    Outcome st row.organizationId inScope key row.id id ∧
      Adds st st' (if id = some row.id then [(row, key)] else []) := by
  unfold upsert at h
  cases hb : key.bind (st.existingIdempotentJob row.organizationId) with
  | some j =>
    obtain ⟨k, rfl, hex⟩ := Option.bind_eq_some_iff.1 hb
    obtain ⟨hj, ho, hk⟩ := of_existingIdempotentJob hex
    rw [hb] at h
    dsimp only at h
    split at h
    · next hs =>
      obtain ⟨rfl, rfl⟩ := Prod.mk.inj (Option.some.inj h)
      have hne : some j.id ≠ some row.id := by
        intro he
        rw [Option.some.inj he, hfresh] at hj
        cases hj
      rw [if_neg hne]
      exact ⟨.replay k j.id j rfl hj ho hk hs, adds_touch now st j.id⟩
    · next hs =>
      obtain ⟨rfl, rfl⟩ := Prod.mk.inj (Option.some.inj h)
      exact ⟨.conflict k j.id j rfl hj ho hk (Bool.eq_false_iff.2 hs), Adds.refl st⟩
  | none =>
    rw [hb] at h
    dsimp only at h
    split at h
    · obtain ⟨rfl, rfl⟩ := Prod.mk.inj (Option.some.inj h)
      rw [if_pos rfl]
      refine ⟨.created ?_, adds_insertRow hfresh hkey⟩
      rintro k i j rfl hj ho
      exact existingIdempotentJob_none hb hj ho
    · cases h

theorem Outcome.key_new {i : JobId} (h : Outcome st org inScope key i (some i))
    (hi : st.db.job i = none) : ∀ k i' j, key = some k → st.db.job i' = some j →
      j.organizationId = org → st.keyOf i' ≠ some k := by
  cases h with
  | replay _ _ j _ hj =>
    rw [hi] at hj
    cases hj
  | created hno => exact hno

theorem Outcome.of_adds {new : List (Job × Option String)} {jid : JobId} (hadds : Adds st st' new)
    (hne : ∀ x ∈ new, ∀ k, x.2 = some k → key ≠ some k)
    (h : Outcome st' org inScope key jid id) : Outcome st org inScope key jid id := by
  -- a row that has the key now had it before
  have hold : ∀ k i j, key = some k → st'.db.job i = some j → st'.keyOf i = some k →
      ∃ j₀, st.db.job i = some j₀ ∧ j₀.Touched j ∧ st.keyOf i = some k := by
    intro k i j hk hj hkey
    have hnew : ∀ x ∈ new, x.1.id ≠ i := by
      rintro x hx rfl
      exact hne x hx k ((hadds.newKey x hx).symm.trans hkey) hk
    rcases hadds.only i j hj with ⟨j₀, hj₀⟩ | ⟨x, hx, hid⟩
    · obtain ⟨j', hj', ht⟩ := hadds.old i j₀ hj₀
      rw [Option.some.inj (hj.symm.trans hj')]
      exact ⟨j₀, hj₀, ht, (hadds.key i hnew).symm.trans hkey⟩
    · exact absurd hid (hnew x hx)
  cases h with
  | replay k i j hk hj ho hkey hs =>
    obtain ⟨j₀, hj₀, ht, hkey₀⟩ := hold k i j hk hj hkey
    obtain ⟨horg, hq, -⟩ := ht.same
    exact .replay k i j₀ hk hj₀ (horg.symm.trans ho) hkey₀ (hq ▸ hs)
  | conflict k i j hk hj ho hkey hs =>
    obtain ⟨j₀, hj₀, ht, hkey₀⟩ := hold k i j hk hj hkey
    obtain ⟨horg, hq, -⟩ := ht.same
    exact .conflict k i j₀ hk hj₀ (horg.symm.trans ho) hkey₀ (hq ▸ hs)
  | created hno =>
    refine .created fun k i j hk hj ho hkey => ?_
    obtain ⟨j', hj', ht⟩ := hadds.old i j hj
    refine hno k i j' hk hj' (ht.same.1.trans ho) ?_
    rw [hadds.key i (hadds.ne_of_some hj)]
    exact hkey

end Upsert

end JobStore

/-! ## The rows of a bulk request -/

namespace BulkRequest

section Dedup

variable {seen : List DedupKey} {rows : List InputRow} {ij : InputRow}

theorem dedupInput_sublist (seen : List DedupKey) (rows : List InputRow) :
    (dedupInput seen rows).Sublist rows := by
  induction rows generalizing seen with
  | nil => exact .slnil
  | cons ij rows ih =>
    unfold dedupInput
    split
    · exact (ih seen).cons ij
    · exact (ih _).cons_cons ij

theorem not_mem_seen_of_mem_dedupInput (h : ij ∈ dedupInput seen rows) : ij.dedupKey ∉ seen := by
  induction rows generalizing seen with
  | nil => cases h
  | cons x rows ih =>
    unfold dedupInput at h
    split at h
    · exact ih h
    · next hx =>
      rcases mem_cons.1 h with rfl | h
      · exact hx
      · exact fun hs => ih h (mem_cons_of_mem _ hs)

theorem nodup_dedupInput (seen : List DedupKey) (rows : List InputRow) :
    ((dedupInput seen rows).map (·.dedupKey)).Nodup := by
  induction rows generalizing seen with
  | nil => exact .nil
  | cons x rows ih =>
    unfold dedupInput
    split
    · exact ih seen
    · refine nodup_cons.2 ⟨fun hm => ?_, ih _⟩
      obtain ⟨y, hy, he⟩ := mem_map.1 hm
      exact not_mem_seen_of_mem_dedupInput hy (by rw [he]; exact mem_cons_self)

theorem exists_mem_dedupInput (h : ij ∈ rows) (hs : ij.dedupKey ∉ seen) :
    ∃ d ∈ dedupInput seen rows, d.dedupKey = ij.dedupKey := by
  induction rows generalizing seen with
  | nil => cases h
  | cons x rows ih =>
    unfold dedupInput
    rcases mem_cons.1 h with rfl | h
    · rw [if_neg hs]
      exact ⟨ij, mem_cons_self, rfl⟩
    · split
      · exact ih h hs
      · by_cases hx : ij.dedupKey = x.dedupKey
        · exact ⟨x, mem_cons_self, hx.symm⟩
        · obtain ⟨d, hd, he⟩ := ih h (not_mem_cons_of_ne_of_not_mem hx hs)
          exact ⟨d, mem_cons_of_mem _ hd, he⟩

theorem countP_dedupInput_le (ex : List String) {batch : List String}
    (hb : ∀ k ∈ batch, DedupKey.idem k ∈ seen) :
    (dedupInput seen rows).countP (fun d => d.idem.all (· ∉ ex)) ≤
      (creates ex batch (rows.map (·.idem))).count true := by
  induction rows generalizing seen batch with
  | nil => exact Nat.zero_le _
  | cons x rows ih =>
    have hcons : ∀ {k}, ∀ k' ∈ batch, DedupKey.idem k' ∈ k :: seen :=
      fun k' hk' => mem_cons_of_mem _ (hb k' hk')
    obtain ⟨idx, jid, item, idem⟩ := x
    cases idem with
    | none =>
      rw [map_cons, creates, count_cons_self]
      unfold dedupInput
      split
      · exact Nat.le_succ_of_le (ih hb)
      · rw [countP_cons_of_pos (by rfl)]
        exact Nat.succ_le_succ (ih hcons)
    | some k =>
      rw [map_cons, creates]
      unfold dedupInput
      by_cases hs : (InputRow.mk idx jid item (some k)).dedupKey ∈ seen
      · rw [if_pos hs]
        split
        · rw [count_cons_of_ne (by decide)]
          exact ih hb
        · split
          · rw [count_cons_of_ne (by decide)]
            exact ih hb
          · rw [count_cons_self]
            refine Nat.le_succ_of_le (ih fun k' hk' => ?_)
            rcases mem_cons.1 hk' with rfl | hk'
            · exact hs
            · exact hb k' hk'
      · rw [if_neg hs]
        by_cases hex : k ∈ ex
        · rw [if_pos hex, countP_cons_of_neg (by simp [hex]), count_cons_of_ne (by decide)]
          exact ih hcons
        · rw [if_neg hex, if_neg fun hk => hs (hb k hk), countP_cons_of_pos (by simp [hex]),
            count_cons_self]
          refine Nat.succ_le_succ (ih fun k' hk' => ?_)
          rcases mem_cons.1 hk' with rfl | hk'
          · exact mem_cons_self
          · exact hcons k' hk'

end Dedup

/-! ## The multi-row insert -/

section Inserted

variable {r : BulkRequest} {now started : Time} {server : Int} {st st' : JobStore}
  {rows : List InputRow} {ins : List (JobId × Option String)}

def returned (res : List (InputRow × Option JobId)) : List (JobId × Option String) :=
  res.filterMap fun x => x.2.map fun i => (i, x.1.idem)

def createdRows (res : List (InputRow × Option JobId)) : List (InputRow × Option JobId) :=
  res.filter fun x => x.2 == some x.1.jid

/-- The effect of the multi-row insert, row by row. -/
structure InsertSpec (r : BulkRequest) (started : Time) (st st' : JobStore)
    (rows : List InputRow) (ins : List (JobId × Option String))
    (res : List (InputRow × Option JobId)) (new : List (Job × Option String)) : Prop where
  each : res.map (·.1) = rows
  ret : ins = returned res
  adds : JobStore.Adds st st' new
  created : new.map (fun x => (x.1.id, x.2)) = (createdRows res).map fun x => (x.1.jid, x.1.idem)
  columns : ∀ x ∈ new, x.1.organizationId = r.organizationId ∧ x.1.queueName = r.queueName ∧
    x.1.createdAt = started
  outcome : ∀ x ∈ res, JobStore.Outcome st r.organizationId r.scope x.1.idem x.1.jid x.2

theorem inserted_spec (hjid : (rows.map (·.jid)).Nodup)
    (hfresh : ∀ ij ∈ rows, st.db.job ij.jid = none ∧ st.keyOf ij.jid = none)
    (hkeys : (rows.map (·.dedupKey)).Nodup)
    (h : r.inserted now started server st rows = some (st', ins)) :
    ∃ res new, InsertSpec r started st st' rows ins res new := by
  induction rows generalizing st ins with
  | nil =>
    obtain ⟨rfl, rfl⟩ := Prod.mk.inj (Option.some.inj h)
    exact ⟨[], [], rfl, rfl, .refl st, rfl, fun _ h => absurd h not_mem_nil,
      fun _ h => absurd h not_mem_nil⟩
  | cons ij rows ih =>
    unfold inserted at h
    obtain ⟨⟨st₁, id⟩, hup, h⟩ := Option.bind_eq_some_iff.1 h
    obtain ⟨⟨st₂, rest⟩, hrest, h⟩ := Option.bind_eq_some_iff.1 h
    obtain ⟨rfl, rfl⟩ := Prod.mk.inj (Option.some.inj h)
    obtain ⟨hnone, hnokey⟩ := hfresh ij mem_cons_self
    have hrow : st.db.job (r.newRow st.db started server ij).id = none := hnone
    obtain ⟨hout, hadds⟩ := JobStore.upsert_spec hrow hnokey hup
    rw [map_cons, nodup_cons] at hjid hkeys
    -- the first row changes nothing for the others
    have hadded : ∀ x ∈ (if id = some (r.newRow st.db started server ij).id
        then [(r.newRow st.db started server ij, ij.idem)] else []),
        x = (r.newRow st.db started server ij, ij.idem) := by
      intro x hx
      split at hx
      · exact mem_singleton.1 hx
      · cases hx
    have hfresh₁ : ∀ ij' ∈ rows, st₁.db.job ij'.jid = none ∧ st₁.keyOf ij'.jid = none := by
      intro ij' hij'
      obtain ⟨hn, hk⟩ := hfresh ij' (mem_cons_of_mem _ hij')
      have hne : ∀ x ∈ (if id = some (r.newRow st.db started server ij).id
          then [(r.newRow st.db started server ij, ij.idem)] else []), x.1.id ≠ ij'.jid := by
        intro x hx he
        rw [hadded x hx] at he
        exact hjid.1 (mem_map.2 ⟨ij', hij', he.symm⟩)
      exact ⟨hadds.job_none hn hne, (hadds.key _ hne).trans hk⟩
    obtain ⟨res, new, I⟩ := ih hjid.2 hfresh₁ hkeys.2 hrest
    refine ⟨(ij, id) :: res, _, ?_, ?_, hadds.trans I.adds, ?_, ?_, ?_⟩
    · rw [map_cons, I.each]
    · rw [I.ret, returned, returned, filterMap_cons]
      cases id <;> rfl
    · rw [map_append, I.created, createdRows, createdRows, filter_cons]
      by_cases hc : id = some (r.newRow st.db started server ij).id
      · have hb : ((ij, id).2 == some (ij, id).1.jid) = true := beq_iff_eq.2 hc
        rw [if_pos hc, if_pos hb]
        rfl
      · have hb : ¬ ((ij, id).2 == some (ij, id).1.jid) = true := fun hb => hc (beq_iff_eq.1 hb)
        rw [if_neg hc, if_neg hb]
        rfl
    · intro x hx
      rcases mem_append.1 hx with hx | hx
      · rw [hadded x hx]
        exact ⟨rfl, rfl, rfl⟩
      · exact I.columns x hx
    · intro x hx
      rcases mem_cons.1 hx with rfl | hx
      · exact hout
      · refine (I.outcome x hx).of_adds hadds fun y hy k hk he => ?_
        have hx' : x.1 ∈ rows := by
          rw [← I.each]
          exact mem_map_of_mem hx
        rw [hadded y hy] at hk
        refine hkeys.1 (mem_map.2 ⟨x.1, hx', ?_⟩)
        rw [InputRow.dedupKey, InputRow.dedupKey, he, show ij.idem = some k from hk]

end Inserted

/-! ## From the returned rows back to the items -/

section Joined

variable {r : BulkRequest} {started : Time} {st st' : JobStore} {input : List InputRow}
  {ins : List (JobId × Option String)} {res : List (InputRow × Option JobId)}
  {new : List (Job × Option String)}

/-- The job an input row comes to: that of the row kept for its key. -/
def found (res : List (InputRow × Option JobId)) (y : InputRow) : Option JobId :=
  (res.find? (·.1.dedupKey == y.dedupKey)).bind (·.2)

variable {x : InputRow × Option JobId}
  (S : InsertSpec r started st st' (dedupInput [] input) ins res new)

include S

theorem InsertSpec.old_id (hx : x ∈ res) {i : JobId} (hi : x.2 = some i) (hne : i ≠ x.1.jid) :
    ∃ j, st.db.job i = some j := by
  have hout := S.outcome x hx
  rw [hi] at hout
  cases hout with
  | replay k i j _ hj => exact ⟨j, hj⟩
  | created => exact absurd rfl hne

theorem InsertSpec.mem_input (hx : x ∈ res) : x.1 ∈ input := by
  have hmem : x.1 ∈ dedupInput [] input := by
    rw [← S.each]
    exact mem_map_of_mem hx
  exact (dedupInput_sublist [] input).subset hmem

theorem InsertSpec.nodup : (res.map (·.1.dedupKey)).Nodup := by
  have := nodup_dedupInput [] input
  rw [← S.each, map_map] at this
  exact this

theorem InsertSpec.kept {y : InputRow} (hy : y ∈ input) :
    ∃ x, res.filter (·.1.dedupKey == y.dedupKey) = [x] ∧ x ∈ res ∧ x.1.dedupKey = y.dedupKey ∧
      found res y = x.2 := by
  obtain ⟨d, hd, he⟩ := exists_mem_dedupInput hy not_mem_nil
  rw [← S.each] at hd
  obtain ⟨x, hx, rfl⟩ := mem_map.1 hd
  cases hf : res.filter (·.1.dedupKey == y.dedupKey) with
  | nil =>
    have := filter_eq_nil_iff.1 hf x hx
    simp [he] at this
  | cons x' rest =>
    have hx' : x' ∈ res.filter (·.1.dedupKey == y.dedupKey) := by rw [hf]; exact mem_cons_self
    obtain ⟨hmem, hkey⟩ := mem_filter.1 hx'
    have hfind : res.find? (·.1.dedupKey == y.dedupKey) = some x' := by
      rw [← head?_filter, hf, head?_cons]
    refine ⟨x', ?_, hmem, beq_iff_eq.1 hkey, by rw [found, hfind, Option.bind_some]⟩
    cases rest with
    | nil => rfl
    | cons x'' rest =>
      have hsub : ((x' :: x'' :: rest).map (·.1.dedupKey)).Nodup := by
        rw [← hf]
        exact S.nodup.sublist (filter_sublist.map _)
      have hx'' : x'' ∈ res.filter (·.1.dedupKey == y.dedupKey) := by rw [hf]; simp
      have h₁ := beq_iff_eq.1 hkey
      have h₂ := beq_iff_eq.1 (mem_filter.1 hx'').2
      rw [map_cons, map_cons, h₁, h₂] at hsub
      simp at hsub

variable (hjid : (input.map (·.jid)).Nodup)
  (hfresh : ∀ ij ∈ input, st.db.job ij.jid = none)

include hjid hfresh

theorem InsertSpec.joins_iff (hx : x ∈ res) {i : JobId} (hi : x.2 = some i) {y : InputRow}
    (hy : y ∈ input) : joins y (i, x.1.idem) = true ↔ x.1.dedupKey = y.dedupKey := by
  have hxin := S.mem_input hx
  -- a generated id is the id of one item only
  have hid : i = y.jid → x.1 = y := by
    intro he
    by_cases hne : i = x.1.jid
    · exact inj_on_of_nodup_map hjid hxin hy (hne.symm.trans he)
    · obtain ⟨j, hj⟩ := S.old_id hx hi hne
      rw [he, hfresh y hy] at hj
      cases hj
  unfold joins InputRow.dedupKey
  cases hxk : x.1.idem with
  | some k =>
    cases hyk : y.idem with
    | some k' => simp
    | none =>
      have hne : i ≠ y.jid := by
        intro he
        rw [hid he, hyk] at hxk
        cases hxk
      simp [hne]
  | none =>
    cases hyk : y.idem with
    | some k' => simp
    | none =>
      have hi' : i = x.1.jid := by
        have hout := S.outcome x hx
        rw [hi, hxk] at hout
        cases hout with
        | replay k i j hk => cases hk
        | created => rfl
      simp [hi']

/-- **The final `SELECT` has one row for each item.** -/
theorem InsertSpec.joined_eq : joined input ins = input.map fun y => (y, found res y) := by
  unfold joined
  rw [map_eq_flatMap]
  refine flatMap_congr fun y hy => ?_
  have hfilter : ins.filter (joins y) =
      returned (res.filter (·.1.dedupKey == y.dedupKey)) := by
    rw [S.ret, returned, returned, filter_filterMap, filterMap_filter]
    refine filterMap_congr fun x hx => ?_
    cases hx2 : x.2 with
    | none => simp
    | some i =>
      have := S.joins_iff hjid hfresh hx hx2 hy
      by_cases hk : x.1.dedupKey = y.dedupKey
      · simp [hk, this.2 hk]
      · simp [hk, Bool.eq_false_iff.2 fun h => hk (this.1 h)]
  obtain ⟨x, hone, -, -, hfound⟩ := S.kept hy
  rw [hfilter, hone, hfound]
  cases hx2 : x.2 with
  | none | some => simp [returned, hx2]

theorem InsertSpec.created_perm :
    ((input.filter fun y => found res y == some y.jid).map (·.jid)).Perm (new.map (·.1.id)) := by
  have hids : new.map (·.1.id) = (createdRows res).map (·.1.jid) := by
    have := congrArg (List.map Prod.fst) S.created
    simpa only [map_map, Function.comp_def] using this
  refine (perm_ext_iff_of_nodup (hjid.sublist (filter_sublist.map _)) S.adds.nodup).2
    fun i => ?_
  rw [hids]
  constructor
  · intro hi
    obtain ⟨y, hy, rfl⟩ := mem_map.1 hi
    obtain ⟨hyin, hyf⟩ := mem_filter.1 hy
    obtain ⟨x, -, hx, -, hfound⟩ := S.kept hyin
    have hx2 : x.2 = some y.jid := hfound.symm.trans (beq_iff_eq.1 hyf)
    have hjx : y.jid = x.1.jid := by
      by_contra hne
      obtain ⟨j, hj⟩ := S.old_id hx hx2 hne
      rw [hfresh y hyin] at hj
      cases hj
    refine mem_map.2 ⟨x, mem_filter.2 ⟨hx, ?_⟩, hjx.symm⟩
    rw [hx2, hjx]
    exact beq_self_eq_true _
  · intro hi
    obtain ⟨x, hx, rfl⟩ := mem_map.1 hi
    obtain ⟨hx, hx2⟩ := mem_filter.1 hx
    have hxin := S.mem_input hx
    obtain ⟨x', hone, -, -, hfound⟩ := S.kept hxin
    have hxx : x = x' := by
      have : x ∈ res.filter (·.1.dedupKey == x.1.dedupKey) := mem_filter.2 ⟨hx, by simp⟩
      rw [hone] at this
      exact mem_singleton.1 this
    refine mem_map.2 ⟨x.1, mem_filter.2 ⟨hxin, ?_⟩, rfl⟩
    rw [hfound, ← hxx]
    exact hx2

end Joined

/-! ## The transaction -/

section Transaction

variable {r : BulkRequest} {now started : Time} {server : Int} {st st' : JobStore} {base : JobId}
  {reply : Reply}

theorem inputJobs_jid (r : BulkRequest) (base : JobId) :
    (r.inputJobs base).map (·.jid) = List.range' base r.valid.length := by
  have h : (r.inputJobs base).map (·.jid) = (r.valid.zipIdx.map Prod.snd).map (base + ·) := by
    simp only [inputJobs, map_map]
    rfl
  rw [h, zipIdx_map_snd, map_add_range', Nat.add_zero]

theorem nodup_inputJobs (r : BulkRequest) (base : JobId) :
    ((r.inputJobs base).map (·.jid)).Nodup := by
  rw [inputJobs_jid]
  exact nodup_range'

theorem inputJobs_mem {ij : InputRow} (h : ij ∈ r.inputJobs base) :
    base ≤ ij.jid ∧ ij.jid < base + r.valid.length := by
  have hm : ij.jid ∈ (r.inputJobs base).map (·.jid) := mem_map_of_mem h
  rw [inputJobs_jid, mem_range'_1] at hm
  exact hm

/-- **A bulk insert that commits.** -/
theorem insertBulk_spec (hok : st.Ok base)
    (h : r.insertBulk now started server st base = .ok (st', reply)) :
    ∃ ins res new, InsertSpec r started st st' (dedupInput [] (r.inputJobs base)) ins res new ∧
      (∀ y ∈ r.inputJobs base, (found res y).isSome = true) ∧
      reply = .bulk (r.response ((r.inputJobs base).map fun y => (y, found res y))) := by
  have hfresh : ∀ ij ∈ r.inputJobs base, st.db.job ij.jid = none ∧ st.keyOf ij.jid = none :=
    fun ij hij => hok.fresh (inputJobs_mem hij).1
  have hsub := dedupInput_sublist [] (r.inputJobs base)
  unfold insertBulk at h
  dsimp only at h
  split at h
  · cases h
  · next st₁ ins hins =>
    obtain ⟨res, new, S⟩ := inserted_spec ((nodup_inputJobs r base).sublist (hsub.map _))
      (fun ij hij => hfresh ij (hsub.subset hij)) (nodup_dedupInput _ _) hins
    rw [S.joined_eq (nodup_inputJobs r base) fun ij hij => (hfresh ij hij).1] at h
    split at h
    · split at h <;> cases h
    · next hall =>
      obtain ⟨rfl, rfl⟩ := Prod.mk.inj (Except.ok.inj h)
      refine ⟨ins, res, new, S, fun y hy => ?_, rfl⟩
      by_contra hno
      refine hall (any_eq_true.2 ⟨(y, found res y), mem_map_of_mem hy, ?_⟩)
      simpa using hno

theorem InsertSpec.countP_created {ins : List (JobId × Option String)}
    {res : List (InputRow × Option JobId)} {new : List (Job × Option String)} (hok : st.Ok base)
    (S : InsertSpec r started st st' (dedupInput [] (r.inputJobs base)) ins res new) :
    (r.response ((r.inputJobs base).map fun y => (y, found res y))).succeeded.countP (·.created) =
      new.length := by
  have hperm := S.created_perm (nodup_inputJobs r base)
    fun ij hij => (hok.fresh (inputJobs_mem hij).1).1
  have hlen := hperm.length_eq
  rw [length_map, length_map, ← countP_eq_length_filter] at hlen
  rw [← hlen]
  simp only [response, filterMap_map, countP_filterMap]
  refine countP_congr fun y _ => ?_
  cases hf : found res y <;> simp [hf]

theorem InsertSpec.length_le {ins : List (JobId × Option String)}
    {res : List (InputRow × Option JobId)} {new : List (Job × Option String)} {ex : List String}
    (hok : st.Ok base)
    (S : InsertSpec r started st st' (dedupInput [] (r.inputJobs base)) ins res new)
    (hex : ∀ k ∈ ex, ∃ j, st.existingIdempotentJob r.organizationId k = some j) :
    new.length ≤ r.jobCount ex := by
  have hlen : new.length = (createdRows res).length := by
    have := congrArg List.length S.created
    rwa [length_map, length_map] at this
  -- a new row has a key without a job
  have hkey : ∀ x ∈ createdRows res, x.1.idem.all (· ∉ ex) = true := by
    intro x hx
    obtain ⟨hx, hx2⟩ := mem_filter.1 hx
    rw [Option.all_eq_true]
    intro k hk
    refine decide_eq_true fun hkex => ?_
    obtain ⟨j, hj⟩ := hex k hkex
    obtain ⟨hrow, ho, hjk⟩ := JobStore.of_existingIdempotentJob hj
    have hout := S.outcome x hx
    rw [beq_iff_eq.1 hx2] at hout
    exact hout.key_new (hok.fresh (inputJobs_mem (S.mem_input hx)).1).1 k j.id j hk hrow ho hjk
  calc new.length = (createdRows res).length := hlen
    _ = ((createdRows res).map (·.1)).countP (fun d => d.idem.all (· ∉ ex)) := by
      rw [countP_map]
      exact (countP_eq_length.2 hkey).symm
    _ ≤ (res.map (·.1)).countP (fun d => d.idem.all (· ∉ ex)) :=
      (filter_sublist.map _).countP_le
    _ ≤ (creates ex [] ((r.inputJobs base).map (·.idem))).count true := by
      rw [S.each]
      exact countP_dedupInput_le ex (fun _ h => absurd h not_mem_nil)
    _ = r.jobCount ex := by
      have hidem : (r.inputJobs base).map (·.idem) = (r.valid.zipIdx.map Prod.fst).map (·.2.2) := by
        simp only [inputJobs, map_map]
        rfl
      rw [hidem, zipIdx_map_fst, jobCount]

end Transaction

end BulkRequest

/-! ## The other transactions -/

section Single

variable {now started : Time} {server : Int} {st st' : JobStore} {base : JobId} {met : Bool}
  {reply : Reply}

/-- **An insert of one job that commits.** -/
theorem SingleRequest.insertOne_spec {r : SingleRequest} (hok : st.Ok base)
    (h : r.insertOne now started server st base met = .ok (st', reply)) :
    ∃ i row, reply = r.response base i ∧
      JobStore.Outcome st r.job.organizationId r.allows (normalizeIdempotencyKey r.key) base (some i) ∧
      JobStore.Adds st st' (if i = base then [(row, normalizeIdempotencyKey r.key)] else []) ∧
      row.id = base ∧ row.organizationId = r.job.organizationId ∧ row.queueName = r.job.queueName ∧
      row.createdAt = started := by
  unfold insertOne at h
  dsimp only at h
  generalize (if r.job.path = CreatePath.grpc then started else now) = updated at h
  obtain ⟨hnone, hkey⟩ := hok.fresh (le_refl base)
  split at h
  · cases h
  · cases h
  · next st₁ i hup =>
    obtain ⟨rfl, rfl⟩ := Prod.mk.inj (Except.ok.inj h)
    have hrow : st.db.job (st.db.newJob started server r.job base met).id = none := hnone
    obtain ⟨hout, hadds⟩ := JobStore.upsert_spec hrow hkey hup
    refine ⟨i, st.db.newJob started server r.job base met, rfl, hout, ?_, rfl, rfl, rfl, rfl⟩
    have hadds' : JobStore.Adds st st₁ (if some i = some base
      then [(st.db.newJob started server r.job base met, normalizeIdempotencyKey r.key)] else []) :=
      hadds
    simpa only [Option.some.injEq] using hadds'

theorem JobStore.adds_foldl_insertRow {js : List Job} {st : JobStore}
    (hfresh : ∀ j ∈ js, st.db.job j.id = none ∧ st.keyOf j.id = none) (hnodup : (js.map (·.id)).Nodup) :
    Adds st (js.foldl (fun st j => st.insertRow j none) st) (js.map fun j => (j, none)) := by
  induction js generalizing st with
  | nil => exact .refl st
  | cons j js ih =>
    rw [map_cons, nodup_cons] at hnodup
    obtain ⟨hnone, hkey⟩ := hfresh j mem_cons_self
    have hadds : Adds st (st.insertRow j none) [(j, none)] := adds_insertRow hnone hkey
    refine hadds.trans (ih (fun j' hj' => ?_) hnodup.2)
    obtain ⟨hnone', hkey'⟩ := hfresh j' (mem_cons_of_mem _ hj')
    have hne : ∀ x ∈ [(j, (none : Option String))], x.1.id ≠ j'.id := fun x hx he => by
      rw [mem_singleton.1 hx] at he
      exact hnodup.1 (mem_map.2 ⟨j', hj', he.symm⟩)
    exact ⟨hadds.job_none hnone' hne, (hadds.key _ hne).trans hkey'⟩

theorem JobStore.foldl_insertRow_db (js : List Job) (st : JobStore) :
    (js.foldl (fun st j => st.insertRow j none) st).db.jobs =
        js.foldl (fun t j => t.insert j) st.db.jobs ∧
      (js.foldl (fun st j => st.insertRow j none) st).keys = st.keys := by
  induction js generalizing st with
  | nil => exact ⟨rfl, rfl⟩
  | cons j js ih => exact ih (st.insertRow j none)

/-- **A workflow build that commits.** -/
theorem adds_createWorkflow (hok : st.Ok base) (org : OrgId) (w : WorkflowId)
    (defs : List StepDef) :
    ∃ new, JobStore.Adds st
        { st with db := st.db.createWorkflow started server org w (base + 1) defs } new ∧
      new.length = defs.length ∧
      ∀ x ∈ new, x.1.organizationId = org ∧ x.1.createdAt = started ∧ x.2 = none ∧
        base ≤ x.1.id ∧ x.1.id < base + (defs.length + 1) := by
  set js := defs.zipIdx.map fun x => st.db.stepJob started server org w (base + 1 + x.2) x.1 with hjs
  have hid : js.map (·.id) = List.range' (base + 1) defs.length := by
    have h : js.map (·.id) = (defs.zipIdx.map Prod.snd).map (base + 1 + ·) := by
      simp only [hjs, map_map]
      rfl
    rw [h, zipIdx_map_snd, map_add_range', Nat.add_zero]
  have hmem : ∀ j ∈ js, base + 1 ≤ j.id ∧ j.id < base + 1 + defs.length := by
    intro j hj
    have : j.id ∈ js.map (·.id) := mem_map_of_mem hj
    rwa [hid, mem_range'_1] at this
  have hadds := JobStore.adds_foldl_insertRow
    (fun j hj => hok.fresh (Nat.le_of_succ_le (hmem j hj).1)) (hid ▸ nodup_range')
  obtain ⟨hjobs, hkeys⟩ := JobStore.foldl_insertRow_db js st
  refine ⟨_, hadds.congr (fun i => ?_) hkeys.symm, by simp [hjs], ?_⟩
  · rw [Db.job, Db.job, hjobs]
    rfl
  · intro x hx
    obtain ⟨j, hj, rfl⟩ := mem_map.1 hx
    have harith : ∀ a b n : Nat, a + 1 ≤ b → b < a + 1 + n → a ≤ b ∧ b < a + (n + 1) := by
      intros
      omega
    have hlt := harith _ _ _ (hmem j hj).1 (hmem j hj).2
    obtain ⟨⟨d, k⟩, -, rfl⟩ := mem_map.1 hj
    exact ⟨rfl, rfl, rfl, hlt⟩

end Single

/-! ## Every transaction -/

/-- How many rows a reply stands for, where `base` is the first generated id. -/
def Request.Reports (q : Request) (base : JobId) (reply : Reply) (n : Nat) : Prop :=
  match q with
  | .single r => ∃ i, reply = r.response base i ∧ n = if i = base then 1 else 0
  | .bulk _ => ∃ resp, reply = .bulk resp ∧ n = resp.succeeded.countP (·.created)
  | .workflow _ defs => ∃ w, reply = .workflow w ∧ n = defs.length

/-- The effect of an insert transaction that commits: rows of its organization with
generated ids, as many as its reply says, under keys that had no job. -/
structure Request.Commit (q : Request) (started : Time) (base : JobId) (st st' : JobStore)
    (reply : Reply) (new : List (Job × Option String)) : Prop where
  adds : JobStore.Adds st st' new
  reports : q.Reports base reply new.length
  columns : ∀ x ∈ new, x.1.organizationId = q.organizationId ∧ x.1.createdAt = started ∧
    base ≤ x.1.id ∧ x.1.id < base + q.idCount
  newKey : ∀ x ∈ new, ∀ k i j, x.2 = some k → st.db.job i = some j →
    j.organizationId = q.organizationId → st.keyOf i ≠ some k
  distinct : ∀ x ∈ new, ∀ y ∈ new, ∀ k, x.2 = some k → y.2 = some k → x.1.id = y.1.id

theorem BulkRequest.InsertSpec.of_new {r : BulkRequest}
    {input : List InputRow} {ins : List (JobId × Option String)}
    {res : List (InputRow × Option JobId)} {new : List (Job × Option String)}
    (S : InsertSpec r started st st' (dedupInput [] input) ins res new) {x : Job × Option String}
    (hx : x ∈ new) : ∃ y ∈ res, y.2 = some y.1.jid ∧ y.1.jid = x.1.id ∧ y.1.idem = x.2 := by
  have hmem : (x.1.id, x.2) ∈ new.map fun x => (x.1.id, x.2) := mem_map_of_mem hx
  rw [S.created] at hmem
  obtain ⟨y, hy, he⟩ := mem_map.1 hmem
  obtain ⟨hy, hy2⟩ := mem_filter.1 hy
  exact ⟨y, hy, beq_iff_eq.1 hy2, Prod.mk.inj he⟩

theorem BulkRequest.InsertSpec.commit {r : BulkRequest}
    {base : JobId} {ins : List (JobId × Option String)} {res : List (InputRow × Option JobId)}
    {new : List (Job × Option String)} (hok : st.Ok base)
    (S : InsertSpec r started st st' (dedupInput [] (r.inputJobs base)) ins res new) :
    (Request.bulk r).Commit started base st st'
      (.bulk (r.response ((r.inputJobs base).map fun y => (y, found res y)))) new := by
  refine ⟨S.adds, ⟨_, rfl, (S.countP_created hok).symm⟩, ?_, ?_, ?_⟩
  · intro x hx
    obtain ⟨ho, -, hat⟩ := S.columns x hx
    obtain ⟨y, hy, -, hid, -⟩ := S.of_new hx
    rw [← hid]
    exact ⟨ho, hat, inputJobs_mem (S.mem_input hy)⟩
  · intro x hx k i j hk hj ho hkey
    obtain ⟨y, hy, hy2, hid, hidem⟩ := S.of_new hx
    have hout := S.outcome y hy
    rw [hy2] at hout
    have hnone := (hok.fresh (inputJobs_mem (S.mem_input hy)).1).1
    exact hout.key_new hnone k i j (hidem.trans hk) hj ho hkey
  · intro x hx y hy k hkx hky
    obtain ⟨x', hx', -, hidx, hidemx⟩ := S.of_new hx
    obtain ⟨y', hy', -, hidy, hidemy⟩ := S.of_new hy
    -- only one row was kept for the key
    have hkey : x'.1.dedupKey = y'.1.dedupKey := by
      rw [InputRow.dedupKey, InputRow.dedupKey, hidemx, hidemy, hkx, hky]
    rw [← hidx, ← hidy, inj_on_of_nodup_map S.nodup hx' hy' hkey]

/-- **An insert transaction that commits.** -/
theorem Request.insertRows_spec {q : Request} {server : Int} {base : JobId} {met : Bool}
    {reply : Reply} (hok : st.Ok base)
    (h : q.insertRows now started server st base met = .ok (st', reply)) :
    ∃ new, q.Commit started base st st' reply new := by
  cases q with
  | single r =>
    obtain ⟨i, row, rfl, hout, hadds, hid, ho, -, hat⟩ := SingleRequest.insertOne_spec hok h
    by_cases hi : i = base
    · rw [if_pos hi] at hadds
      refine ⟨_, hadds, ⟨i, rfl, (if_pos hi).symm⟩, ?_, ?_, ?_⟩
      · intro x hx
        rw [mem_singleton.1 hx]
        exact ⟨ho, hat, le_of_eq hid.symm, by rw [hid]; exact Nat.lt_succ_self _⟩
      · intro x hx k i' j hk hj hjo
        rw [mem_singleton.1 hx] at hk
        rw [hi] at hout
        exact hout.key_new (hok.fresh (le_refl base)).1 k i' j hk hj hjo
      · intro x hx y hy _ _ _
        rw [mem_singleton.1 hx, mem_singleton.1 hy]
    · rw [if_neg hi] at hadds
      exact ⟨_, hadds, ⟨i, rfl, (if_neg hi).symm⟩,
        fun _ h => absurd h not_mem_nil, fun _ h => absurd h not_mem_nil,
        fun _ h => absurd h not_mem_nil⟩
  | bulk r =>
    obtain ⟨ins, res, new, S, -, rfl⟩ := BulkRequest.insertBulk_spec hok h
    exact ⟨new, S.commit hok⟩
  | workflow org defs =>
    obtain ⟨rfl, rfl⟩ := Prod.mk.inj (Except.ok.inj h)
    obtain ⟨new, hadds, hlen, hcols⟩ := adds_createWorkflow hok org base defs
    have hnone : ∀ x ∈ new, ∀ k, x.2 ≠ some k := by
      intro x hx k hk
      rw [(hcols x hx).2.2.1] at hk
      cases hk
    refine ⟨new, hadds, ⟨base, rfl, hlen⟩, fun x hx => ?_, fun x hx k _ _ hk => absurd hk (hnone x hx k),
      fun x hx _ _ k hk => absurd hk (hnone x hx k)⟩
    obtain ⟨ho, hat, -, hle, hlt⟩ := hcols x hx
    exact ⟨ho, hat, hle, hlt⟩

end Spooled
