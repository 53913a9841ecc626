import Spooled.Create.Step

/-!
# What a reply says

`Request.Names` reads off a reply which job it gives for a key, and `Request.Says`
whether it calls that job new. A reply is good (`Request.ReplyOk`) when the job it
names is the one stored under the key and in a queue of the caller, when it says
"created" for what its own insert made, and, for a bulk request, when it accounts
for every item.
-/

namespace Spooled

open List

/-- The key item `index` carries. -/
def BulkRequest.keyAt (b : BulkRequest) (index : Nat) : Option String :=
  b.items[index]?.bind fun item => normalizeIdempotencyKey item.key

namespace Request

/-- The reply gives job `i` for the key `k`. -/
def Names (q : Request) (reply : Reply) (k : String) (i : JobId) : Prop :=
  match q, reply with
  | .single r, .job id _ | .single r, .accepted id => normalizeIdempotencyKey r.key = some k ∧ id = i
  | .bulk b, .bulk resp => ∃ e ∈ resp.succeeded, b.keyAt e.index = some k ∧ e.jobId = i
  | _, _ => False

def Says (q : Request) (reply : Reply) (k : String) (i : JobId) (created : Bool) : Prop :=
  match q, reply with
  | .single r, .job id c => normalizeIdempotencyKey r.key = some k ∧ id = i ∧ c = created
  | .bulk b, .bulk resp => ∃ e ∈ resp.succeeded, b.keyAt e.index = some k ∧ e.jobId = i ∧
      e.created = created
  | _, _ => False

theorem Says.names {q : Request} {reply : Reply} {k : String} {i : JobId} {c : Bool}
    (h : q.Says reply k i c) : q.Names reply k i := by
  cases q with
  | single r =>
    cases reply with
    | job => exact ⟨h.1, h.2.1⟩
    | refused | accepted | bulk | workflow => exact h.elim
  | bulk b =>
    cases reply with
    | bulk =>
      obtain ⟨e, he, hk, hi, -⟩ := h
      exact ⟨e, he, hk, hi⟩
    | refused | job | accepted | workflow => exact h.elim
  | workflow => exact h.elim

def inScope : Request → String → Bool
  | .single r => r.allows
  | .bulk b => b.scope
  | .workflow .. => fun _ => true

/-- The job `i` is stored under the key `k`, in a queue of the caller. -/
def Stored (q : Request) (st : JobStore) (k : String) (i : JobId) : Prop :=
  ∃ j, st.db.job i = some j ∧ j.organizationId = q.organizationId ∧ st.keyOf i = some k ∧
    q.inScope j.queueName = true

end Request

/-- The response accounts for every item; `made` are the rows of the request. -/
structure BulkRequest.Accounts (b : BulkRequest) (resp : BulkEnqueueResponse) (made : List JobId) :
    Prop where
  partition : (resp.succeeded.map (·.index) ++ resp.failed.map (·.index)).Perm
    (List.range b.items.length)
  sameKey : ∀ e ∈ resp.succeeded, ∀ e' ∈ resp.succeeded, ∀ k, b.keyAt e.index = some k →
    b.keyAt e'.index = some k → e.jobId = e'.jobId
  created : ((resp.succeeded.filter (·.created)).map (·.jobId)).Perm made
  total : resp.total = b.items.length
  successCount : resp.successCount = resp.succeeded.length
  failureCount : resp.failureCount = resp.failed.length

/-- A good reply to `q`, whose insert made the rows `made`, as far as the rows that `P`
picks are concerned. -/
structure Request.ReplyOk (P : OrgId → Option String → Bool) (q : Request) (st : JobStore)
    (reply : Reply) (made : List JobId) : Prop where
  stored : ∀ k i, P q.organizationId (some k) = true → q.Names reply k i → q.Stored st k i
  created : ∀ k i c, q.Says reply k i c → (i ∈ made ↔ q.Says reply k i true)
  single : ∀ i c, reply = .job i c → made = if c then [i] else []
  accepted : ∀ i, reply = .accepted i → made = [] ∨ made = [i]
  rows : (∀ key, P q.organizationId key = true) → ∀ i ∈ made,
    ∃ j, st.db.job i = some j ∧ j.organizationId = q.organizationId
  bulk : ∀ b, q = .bulk b → (∃ why, reply = .refused why) ∨
    ∃ resp, reply = .bulk resp ∧ b.Accounts resp made

namespace JobStore

variable {now : Time} {st st' : JobStore} {org : OrgId} {inScope : String → Bool}
  {key : Option String} {jid i : JobId} {k : String} {new : List (Job × Option String)}

theorem Adds.mem_iff {new' : List (Job × Option String)} (h : Adds st st' new)
    (h' : Adds st st' new') : i ∈ new.map (·.1.id) ↔ i ∈ new'.map (·.1.id) := by
  have hsub : ∀ {l l' : List (Job × Option String)}, Adds st st' l → Adds st st' l' →
      i ∈ l.map (·.1.id) → i ∈ l'.map (·.1.id) := by
    intro l l' hl hl' hi
    obtain ⟨x, hx, rfl⟩ := mem_map.1 hi
    obtain ⟨hnone, j, hj, -⟩ := hl.added x hx
    rcases hl'.only _ j hj with ⟨j₀, hj₀⟩ | ⟨y, hy, he⟩
    · rw [hnone] at hj₀
      cases hj₀
    · exact mem_map.2 ⟨y, hy, he⟩
  exact ⟨hsub h h', hsub h' h⟩

theorem Outcome.stored (h : Outcome st org inScope key jid (some i)) (hadds : Adds st st' new)
    (hk : key = some k) (hfresh : st.db.job jid = none)
    (hnew : i = jid → ∃ x ∈ new, x.1.id = jid ∧ x.2 = key ∧ x.1.organizationId = org ∧
      inScope x.1.queueName = true) :
    (∃ j, st'.db.job i = some j ∧ j.organizationId = org ∧ st'.keyOf i = some k ∧
      inScope j.queueName = true) ∧ (i ∈ new.map (·.1.id) ↔ i = jid) := by
  cases h with
  | replay k' _ j hk' hj ho hkey hs =>
    obtain rfl := Option.some.inj (hk.symm.trans hk')
    obtain ⟨j', hj', ht⟩ := hadds.old i j hj
    obtain ⟨ho', hq', -⟩ := ht.same
    have hne := hadds.ne_of_some hj
    refine ⟨⟨j', hj', ho'.trans ho, (hadds.key i hne).trans hkey, by rw [hq']; exact hs⟩, ?_⟩
    constructor
    · intro hi
      obtain ⟨x, hx, hxi⟩ := mem_map.1 hi
      exact absurd hxi (hne x hx)
    · rintro rfl
      rw [hfresh] at hj
      cases hj
  | created =>
    obtain ⟨x, hx, hid, hkx, hox, hsx⟩ := hnew rfl
    obtain ⟨-, j', hj', ht⟩ := hadds.added x hx
    obtain ⟨ho', hq', -⟩ := ht.same
    rw [hid] at hj'
    refine ⟨⟨j', hj', ho'.trans hox, ?_, by rw [hq']; exact hsx⟩, fun _ => rfl,
      fun _ => mem_map.2 ⟨x, hx, hid⟩⟩
    rw [← hid, hadds.newKey x hx, hkx, hk]

end JobStore

section ReplyOk

variable {P : OrgId → Option String → Bool} {q : Request} {st st' : JobStore} {reply : Reply}
  {made : List JobId}

theorem Request.Stored.keeps {k : String} {i : JobId} (h : q.Stored st k i)
    (hkeeps : st.Keeps P st') (hP : P q.organizationId (some k) = true) : q.Stored st' k i := by
  obtain ⟨j, hj, ho, hk, hs⟩ := h
  obtain ⟨j', -, hj', ho', hq', -, hk'⟩ := hkeeps i j hj (by rw [ho, hk]; exact hP)
  exact ⟨j', hj', ho'.trans ho, hk'.trans hk, by rw [hq']; exact hs⟩

theorem Request.ReplyOk.keeps (h : q.ReplyOk P st reply made) (hkeeps : st.Keeps P st') :
    q.ReplyOk P st' reply made :=
  { h with
    stored := fun k i hP hn => (h.stored k i hP hn).keeps hkeeps hP
    rows := fun hP i hi => by
      obtain ⟨j, hj, ho⟩ := h.rows hP i hi
      obtain ⟨j', -, hj', ho', -⟩ := hkeeps i j hj (by rw [ho]; exact hP _)
      exact ⟨j', hj', ho'.trans ho⟩ }

theorem Request.replyOk_refused (why : Refusal) (hrows : (∀ key, P q.organizationId key = true) →
      ∀ i ∈ made, ∃ j, st.db.job i = some j ∧ j.organizationId = q.organizationId) :
    q.ReplyOk P st (.refused why) made := by
  have hno : ∀ k i, ¬ q.Names (.refused why) k i := by
    intro k i h
    cases q <;> exact h
  exact ⟨fun k i _ h => absurd h (hno k i), fun k i c h => absurd h.names (hno k i),
    fun _ _ h => (by cases h), fun _ h => (by cases h), hrows, fun _ _ => .inl ⟨why, rfl⟩⟩

theorem Request.replyOk_nothing (why : Refusal) : q.ReplyOk P st (.refused why) [] :=
  replyOk_refused why fun _ _ h => absurd h not_mem_nil

end ReplyOk

/-! ## The bulk response -/

namespace BulkRequest

variable {b : BulkRequest} {now started : Time} {st st' : JobStore} {base : JobId}
  {ins : List (JobId × Option String)} {res : List (InputRow × Option JobId)}
  {new : List (Job × Option String)}

theorem inputJobs_keyAt {y : InputRow} (h : y ∈ b.inputJobs base) : b.keyAt y.idx = y.idem := by
  obtain ⟨⟨⟨index, item, key⟩, m⟩, hm, rfl⟩ := mem_map.1 h
  have hvalid : (index, item, key) ∈ b.valid := fst_mem_of_mem_zipIdx hm
  obtain ⟨⟨item', index'⟩, hi, he⟩ := mem_filterMap.1 hvalid
  dsimp only at he
  split at he
  · obtain ⟨rfl, hrest⟩ := Prod.mk.inj (Option.some.inj he)
    obtain ⟨rfl, rfl⟩ := Prod.mk.inj hrest
    show b.items[index']?.bind _ = _
    rw [mk_mem_zipIdx_iff_getElem?.1 hi]
    rfl
  · cases he

theorem partition_items (b : BulkRequest) :
    (b.valid.map (·.1) ++ b.failed.map (·.index)).Perm (List.range b.items.length) := by
  have hvalid : b.valid.map (·.1) = (b.items.zipIdx.filter fun x => x.1.invalid.isNone).map (·.2) := by
    rw [valid, map_filterMap, ← filterMap_eq_map, filterMap_filter]
    refine filterMap_congr fun x _ => ?_
    by_cases h : x.1.invalid.isNone = true
    · simp [h]
    · simp [h]
  have hfailed : b.failed.map (·.index) =
      (b.items.zipIdx.filter fun x => !x.1.invalid.isNone).map (·.2) := by
    rw [failed, map_filterMap, ← filterMap_eq_map, filterMap_filter]
    refine filterMap_congr fun x _ => ?_
    cases h : x.1.invalid <;> simp [h]
  rw [hvalid, hfailed, ← map_append]
  have hsnd : b.items.zipIdx.map (·.2) = List.range b.items.length := by
    rw [zipIdx_map_snd, range_eq_range']
  rw [← hsnd]
  exact (filter_append_perm _ _).map _

theorem inputJobs_idx (b : BulkRequest) (base : JobId) :
    (b.inputJobs base).map (·.idx) = b.valid.map (·.1) := by
  have h : (b.inputJobs base).map (·.idx) = (b.valid.zipIdx.map Prod.fst).map (·.1) := by
    simp only [inputJobs, map_map]
    rfl
  rw [h, zipIdx_map_fst]

theorem mem_succeeded {e : BulkJobResult} :
    e ∈ (b.response ((b.inputJobs base).map fun y => (y, found res y))).succeeded ↔
      ∃ y ∈ b.inputJobs base, found res y = some e.jobId ∧ e.index = y.idx ∧
        e.created = (e.jobId == y.jid) := by
  show e ∈ ((b.inputJobs base).map fun y => (y, found res y)).filterMap _ ↔ _
  rw [filterMap_map, mem_filterMap]
  refine exists_congr fun y => and_congr_right fun _ => ?_
  show (found res y).map _ = some e ↔ _
  rw [Option.map_eq_some_iff]
  constructor
  · rintro ⟨i, hi, rfl⟩
    exact ⟨hi, rfl, rfl⟩
  · rintro ⟨hi, hidx, hc⟩
    exact ⟨e.jobId, hi, by rw [← hidx, ← hc]⟩

theorem InsertSpec.entry
    (S : InsertSpec b started st st' (dedupInput [] (b.inputJobs base)) ins res new)
    {y : InputRow} (hy : y ∈ b.inputJobs base) {k : String} (hk : b.keyAt y.idx = some k)
    {i : JobId} (hi : found res y = some i) :
    ∃ x ∈ res, x.1.idem = some k ∧ x.2 = some i ∧ found res x.1 = some i := by
  obtain ⟨x, -, hx, hkey, hfound⟩ := S.kept hy
  rw [inputJobs_keyAt hy] at hk
  have hidem : x.1.idem = some k := by
    simp only [InputRow.dedupKey, hk] at hkey
    cases hx : x.1.idem with
    | none =>
      rw [hx] at hkey
      cases hkey
    | some k' =>
      rw [hx] at hkey
      rw [DedupKey.idem.inj hkey]
  refine ⟨x, hx, hidem, hfound.symm.trans hi, ?_⟩
  rw [← hi]
  unfold found
  rw [hkey]

theorem InsertSpec.inserted
    (S : InsertSpec b started st st' (dedupInput [] (b.inputJobs base)) ins res new)
    {x : InputRow × Option JobId} (hx : x ∈ res) (hx2 : x.2 = some x.1.jid) :
    ∃ z ∈ new, z.1.id = x.1.jid ∧ z.2 = x.1.idem := by
  have hmem : (x.1.jid, x.1.idem) ∈ (createdRows res).map fun x => (x.1.jid, x.1.idem) :=
    mem_map.2 ⟨x, mem_filter.2 ⟨hx, beq_iff_eq.2 hx2⟩, rfl⟩
  rw [← S.created] at hmem
  obtain ⟨z, hz, he⟩ := mem_map.1 hmem
  exact ⟨z, hz, Prod.mk.inj he⟩

/-- **A bulk insert that commits accounts for every item.** -/
theorem InsertSpec.accounts
    (S : InsertSpec b started st st' (dedupInput [] (b.inputJobs base)) ins res new)
    (hok : st.Ok base) (hall : ∀ y ∈ b.inputJobs base, (found res y).isSome = true)
    {made : List JobId} (hmade : made.Perm (new.map (·.1.id))) :
    b.Accounts (b.response ((b.inputJobs base).map fun y => (y, found res y))) made := by
  refine ⟨?_, ?_, ?_, rfl, rfl, rfl⟩
  · have hidx : (b.response ((b.inputJobs base).map fun y => (y, found res y))).succeeded.map
        (·.index) = b.valid.map (·.1) := by
      rw [← inputJobs_idx b base]
      show (((b.inputJobs base).map fun y => (y, found res y)).filterMap _).map _ = _
      rw [filterMap_map, map_filterMap, ← filterMap_eq_map]
      refine filterMap_congr fun y hy => ?_
      obtain ⟨i, hi⟩ := Option.isSome_iff_exists.1 (hall y hy)
      simp [hi]
    rw [hidx]
    exact partition_items b
  · intro e he e' he' k hk hk'
    obtain ⟨y, hy, hf, hidx, -⟩ := mem_succeeded.1 he
    obtain ⟨y', hy', hf', hidx', -⟩ := mem_succeeded.1 he'
    rw [hidx, inputJobs_keyAt hy] at hk
    rw [hidx', inputJobs_keyAt hy'] at hk'
    have hkey : y.dedupKey = y'.dedupKey := by rw [InputRow.dedupKey, InputRow.dedupKey, hk, hk']
    have hsame : found res y = found res y' := by
      unfold found
      rw [hkey]
    exact Option.some.inj (hf.symm.trans (hsame.trans hf'))
  · refine List.Perm.trans ?_ hmade.symm
    refine List.Perm.trans ?_ (S.created_perm (nodup_inputJobs b base)
      fun ij hij => (hok.fresh (inputJobs_mem hij).1).1)
    show ((((b.inputJobs base).map fun y => (y, found res y)).filterMap _).filter _ |>.map _).Perm _
    rw [filterMap_map, filter_filterMap, map_filterMap, ← filterMap_eq_map,
      filterMap_filter]
    refine List.Perm.of_eq (filterMap_congr fun y hy => ?_)
    obtain ⟨i, hi⟩ := Option.isSome_iff_exists.1 (hall y hy)
    by_cases hc : i = y.jid
    · simp [hi, hc]
    · simp [hi, hc]

end BulkRequest

/-! ## Committed inserts -/

/-- **The reply of a committed insert is good.** -/
theorem Request.replyOk_commit {P : OrgId → Option String → Bool} {q : Request} {now started : Time}
    {server : Int} {st st' : JobStore} {base : JobId} {met : Bool} {reply : Reply} {made : List JobId}
    {new : List (Job × Option String)} (hok : st.Ok base) (hq : q.Admitted)
    (h : q.insertRows now started server st base met = .ok (st', reply))
    (C : q.Commit started base st st' reply new)
    (hmade : made.Perm (new.map (·.1.id))) : q.ReplyOk P st' reply made := by
  have hrows : (∀ key, P q.organizationId key = true) → ∀ i ∈ made,
      ∃ j, st'.db.job i = some j ∧ j.organizationId = q.organizationId := by
    intro _ i hi
    obtain ⟨x, hx, rfl⟩ := mem_map.1 (hmade.mem_iff.1 hi)
    obtain ⟨-, j, hj, ht⟩ := C.adds.added x hx
    exact ⟨j, hj, ht.same.1.trans (C.columns x hx).1⟩
  cases q with
  | single r =>
    obtain ⟨i, row, rfl, hout, hadds, hid, ho, hqueue, -⟩ := SingleRequest.insertOne_spec hok h
    -- the rows added are those of the commit
    have hperm : made.Perm ((if i = base then [(row, normalizeIdempotencyKey r.key)]
        else []).map (·.1.id)) := hmade.trans
      ((perm_ext_iff_of_nodup C.adds.nodup hadds.nodup).2 fun _ => C.adds.mem_iff hadds)
    have hone : made = if i = base then [i] else [] := by
      by_cases hi : i = base
      · rw [if_pos hi] at hperm ⊢
        rw [perm_singleton.1 hperm, hi]
        exact congrArg (fun i => [i]) hid
      · rw [if_neg hi] at hperm ⊢
        exact perm_nil.1 hperm
    have hmem : i ∈ made ↔ i = base := by
      rw [hone]
      split <;> simp [*]
    have hstored : ∀ k, normalizeIdempotencyKey r.key = some k → (Request.single r).Stored st' k i :=
      fun k hk => (hout.stored hadds hk (hok.fresh (le_refl base)).1 fun hi =>
        ⟨(row, normalizeIdempotencyKey r.key), by rw [if_pos hi]; exact mem_singleton.2 rfl, hid,
          rfl, ho, by rw [hqueue]; exact hq⟩).1
    have hreply : r.response base i = .job i (i == base) ∨ r.response base i = .accepted i := by
      unfold SingleRequest.response
      split
      · exact .inl rfl
      · exact .inl rfl
      · exact .inr rfl
    rcases hreply with he | he <;> rw [he]
    · refine ⟨?_, ?_, ?_, fun _ h => (by cases h), hrows, fun _ h => (by cases h)⟩
      · rintro k _ - ⟨hk, rfl⟩
        exact hstored k hk
      · rintro k _ c ⟨hk, rfl, rfl⟩
        rw [hmem]
        exact ⟨fun hi => ⟨hk, rfl, beq_iff_eq.2 hi⟩, fun hn => beq_iff_eq.1 hn.2.2⟩
      · rintro _ _ ⟨⟩
        simpa only [beq_iff_eq] using hone
    · refine ⟨?_, fun _ _ _ h => h.elim, fun _ _ h => (by cases h), ?_, hrows,
        fun _ h => (by cases h)⟩
      · rintro k _ - ⟨hk, rfl⟩
        exact hstored k hk
      · rintro _ ⟨⟩
        rw [hone]
        split
        · exact .inr rfl
        · exact .inl rfl
  | bulk b =>
    obtain ⟨ins, res, new', S, hall, rfl⟩ := BulkRequest.insertBulk_spec hok h
    have hmade' : made.Perm (new'.map (·.1.id)) :=
      hmade.trans ((perm_ext_iff_of_nodup C.adds.nodup S.adds.nodup).2 fun i =>
        C.adds.mem_iff S.adds)
    have hstored : ∀ x ∈ res, ∀ k i, x.1.idem = some k → x.2 = some i →
        (Request.bulk b).Stored st' k i ∧ (i ∈ made ↔ i = x.1.jid) := by
      intro x hx k i hk hi
      have hout := S.outcome x hx
      rw [hi] at hout
      rw [hmade'.mem_iff]
      refine hout.stored S.adds hk (hok.fresh (BulkRequest.inputJobs_mem (S.mem_input hx)).1).1 ?_
      rintro rfl
      obtain ⟨z, hz, hid, hkz⟩ := S.inserted hx hi
      obtain ⟨hoz, hqz, -⟩ := S.columns z hz
      exact ⟨z, hz, hid, hkz, hoz, by rw [hqz]; exact hq⟩
    refine ⟨?_, ?_, fun _ _ h => (by cases h), fun _ h => (by cases h), hrows, ?_⟩
    · rintro k _ - ⟨e, he, hk, rfl⟩
      obtain ⟨y, hy, hf, hidx, -⟩ := BulkRequest.mem_succeeded.1 he
      rw [hidx] at hk
      obtain ⟨x, hx, hxk, hx2, -⟩ := S.entry hy hk hf
      exact (hstored x hx k _ hxk hx2).1
    · rintro k _ c ⟨e, he, hk, rfl, -⟩
      obtain ⟨y, hy, hf, hidx, -⟩ := BulkRequest.mem_succeeded.1 he
      rw [hidx] at hk
      obtain ⟨x, hx, hxk, hx2, hxf⟩ := S.entry hy hk hf
      have hxin := S.mem_input hx
      rw [(hstored x hx k _ hxk hx2).2]
      constructor
      · intro hi
        refine ⟨⟨x.1.idx, e.jobId, true⟩, BulkRequest.mem_succeeded.2 ⟨x.1, hxin, hxf, rfl, ?_⟩, ?_,
          rfl, rfl⟩
        · exact (beq_iff_eq.2 hi).symm
        · exact (BulkRequest.inputJobs_keyAt hxin).trans hxk
      · -- an entry that says "created" has the generated id of its own row
        rintro ⟨e', he', hk', hid, hc⟩
        obtain ⟨y', hy', hf', hidx', hc'⟩ := BulkRequest.mem_succeeded.1 he'
        rw [hidx'] at hk'
        obtain ⟨x', hx', hxk', hx2', -⟩ := S.entry hy' hk' hf'
        have hjid : e'.jobId = y'.jid := beq_iff_eq.1 (hc'.symm.trans hc)
        by_contra hne
        obtain ⟨j, hj⟩ := S.old_id hx hx2 hne
        rw [← hid, hjid, (hok.fresh (BulkRequest.inputJobs_mem hy').1).1] at hj
        cases hj
    · rintro _ ⟨⟩
      exact .inr ⟨_, rfl, S.accounts hok hall hmade'⟩
  | workflow org defs =>
    obtain ⟨w, rfl, -⟩ := C.reports
    exact ⟨fun _ _ _ h => h.elim, fun _ _ _ h => h.elim, fun _ _ h => (by cases h),
      fun _ h => (by cases h), hrows, fun _ h => (by cases h)⟩

end Spooled
