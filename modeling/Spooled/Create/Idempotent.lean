import Spooled.Create.Quota
import Spooled.Create.Response
import Mathlib

/-!
# Idempotent creation

As long as the job it names is not deleted, a reply that was sent stays true, and the
rows that different requests made are different rows. With the accounting of the daily
quota this gives what the requests for one key, and the items of one bulk request,
can rely on.
-/

namespace Spooled

open List

structure Handler.Good (P : OrgId → Option String → Bool) (st : JobStore) (x : Handler) : Prop where
  admitted : x.request.Admitted
  pending : match x.stage with
    | .settling _ reply | .recording reply => x.request.ReplyOk P st reply x.made
    | _ => x.made = []

namespace CreateSys

def made (s : CreateSys) : List JobId :=
  s.answers.flatMap (·.made) ++ s.live.flatMap (·.made)

/-- **The invariant of the replies.** -/
structure RepliesOk (P : OrgId → Option String → Bool) (s : CreateSys) : Prop where
  live : ∀ x ∈ s.live, x.Good P s.store
  answers : ∀ a ∈ s.answers, a.request.ReplyOk P s.store a.reply a.made
  fresh : ∀ i ∈ s.made, i < s.uuid
  nodup : s.made.Nodup

variable {P : OrgId → Option String → Bool} {cfg : CreateConfig} {s t : CreateSys}
  {a : CreateLabel} {n : Nat} {x : Handler}

theorem good_keeps {st st' : JobStore} (h : x.Good P st) (hkeeps : st.Keeps P st') :
    x.Good P st' := by
  refine ⟨h.admitted, ?_⟩
  have hp := h.pending
  cases hs : x.stage with
  | settling | recording =>
    rw [hs] at hp
    exact hp.keeps hkeeps
  | opened | checked | reserved =>
    rw [hs] at hp
    exact hp

/-- **One handler moves on**, to `xs` or to the answers `as`. Its rows go with it, or
they are new. -/
theorem RepliesOk.replace (I : RepliesOk P s) (hx : s.live[n]? = some x) (xs : List Handler)
    (as : List CreateAnswer) {rows : List JobId} (hlive : t.live = xs ++ s.live.eraseIdx n)
    (hans : t.answers = as ++ s.answers)
    (hrows : as.flatMap (·.made) ++ xs.flatMap (·.made) = rows)
    (hnew : rows = x.made ∨ (rows.Nodup ∧ ∀ i ∈ rows, s.uuid ≤ i ∧ i < t.uuid))
    (huuid : s.uuid ≤ t.uuid) (hkeeps : s.store.Keeps P t.store)
    (hxs : ∀ y ∈ xs, y.Good P t.store)
    (has : ∀ a ∈ as, a.request.ReplyOk P t.store a.reply a.made) : RepliesOk P t := by
  obtain ⟨hn, rfl⟩ := List.getElem?_eq_some_iff.1 hx
  -- the rows of everybody else
  let rest := s.answers.flatMap (·.made) ++ (s.live.eraseIdx n).flatMap (·.made)
  have hs : s.made.Perm (s.live[n].made ++ rest) := by
    have hperm := (getElem_cons_eraseIdx_perm hn).symm.flatMap_right (·.made)
    rw [flatMap_cons] at hperm
    exact (hperm.append_left _).trans (perm_append_comm_assoc ..)
  have ht : t.made.Perm (rows ++ rest) := by
    unfold made
    rw [hlive, hans, flatMap_append, flatMap_append, ← hrows, append_assoc,
      append_assoc]
    exact (perm_append_comm_assoc ..).append_left _
  have hrest : rest.Nodup ∧ ∀ i ∈ rest, i < s.uuid :=
    ⟨(nodup_append.1 (hs.nodup_iff.1 I.nodup)).2.1,
      fun i hi => I.fresh i (hs.mem_iff.2 (mem_append_right _ hi))⟩
  have hboth : (rows ++ rest).Nodup ∧ ∀ i ∈ rows ++ rest, i < t.uuid := by
    rcases hnew with rfl | ⟨hnodup, hnew⟩
    · exact ⟨hs.nodup_iff.1 I.nodup,
        fun i hi => lt_of_lt_of_le (I.fresh i (hs.mem_iff.2 hi)) huuid⟩
    · refine ⟨nodup_append.2 ⟨hnodup, hrest.1, ?_⟩, fun i hi => ?_⟩
      · rintro i hi _ hi' rfl
        exact absurd (hrest.2 i hi') (Nat.not_lt.2 (hnew i hi).1)
      · rcases mem_append.1 hi with hi | hi
        · exact (hnew i hi).2
        · exact lt_of_lt_of_le (hrest.2 i hi) huuid
  refine ⟨fun y hy => ?_, fun a ha => ?_, fun i hi => hboth.2 i (ht.mem_iff.1 hi),
    ht.nodup_iff.2 hboth.1⟩
  · rw [hlive] at hy
    rcases mem_append.1 hy with hy | hy
    · exact hxs y hy
    · exact good_keeps (I.live y (mem_of_mem_eraseIdx hy)) hkeeps
  · rw [hans] at ha
    rcases mem_append.1 ha with ha | ha
    · exact has a ha
    · exact (I.answers a ha).keeps hkeeps

theorem RepliesOk.frame (I : RepliesOk P s) (xs : List Handler) (as : List CreateAnswer)
    (hlive : t.live = xs ++ s.live) (hans : t.answers = as ++ s.answers)
    (huuid : t.uuid = s.uuid) (hkeeps : s.store.Keeps P t.store)
    (hxs : ∀ y ∈ xs, y.made = [] ∧ y.Good P t.store)
    (has : ∀ a ∈ as, a.made = [] ∧ a.request.ReplyOk P t.store a.reply a.made) :
    RepliesOk P t := by
  have hmade : t.made = s.made := by
    have h₁ : as.flatMap (·.made) = [] := flatMap_eq_nil_iff.2 fun a ha => (has a ha).1
    have h₂ : xs.flatMap (·.made) = [] := flatMap_eq_nil_iff.2 fun y hy => (hxs y hy).1
    unfold made
    rw [hlive, hans, flatMap_append, flatMap_append, h₁, h₂]
    rfl
  refine ⟨fun y hy => ?_, fun a ha => ?_, ?_, ?_⟩
  · rw [hlive] at hy
    rcases mem_append.1 hy with hy | hy
    · exact (hxs y hy).2
    · exact good_keeps (I.live y hy) hkeeps
  · rw [hans] at ha
    rcases mem_append.1 ha with ha | ha
    · exact (has a ha).2
    · exact (I.answers a ha).keeps hkeeps
  · rw [hmade, huuid]
    exact I.fresh
  · rw [hmade]
    exact I.nodup

theorem RepliesOk.answered (I : RepliesOk P s) (hx : s.live[n]? = some x) {reply : Reply} {c : Int}
    (hr : x.request.ReplyOk P s.store reply x.made) {u : OrgId → Option Usage} :
    RepliesOk P { s with
      usage := u
      live := s.live.eraseIdx n
      answers := ⟨x.request, reply, c, x.made⟩ :: s.answers } := by
  refine I.replace hx [] [_] rfl rfl ?_ (.inl rfl) (le_refl _) (.refl P _)
    (fun _ h => absurd h not_mem_nil) fun a ha => ?_
  · simp
  · rw [mem_singleton.1 ha]
    exact hr

theorem RepliesOk.moved (I : RepliesOk P s) (hx : s.live[n]? = some x) {y : Handler}
    (hmade : y.made = x.made) (hy : y.Good P s.store) {u : OrgId → Option Usage} :
    RepliesOk P { s with usage := u, live := y :: s.live.eraseIdx n } := by
  refine I.replace hx [y] [] rfl rfl ?_ (.inl rfl) (le_refl _) (.refl P _)
    (fun z hz => ?_) fun _ h => absurd h not_mem_nil
  · simp [hmade]
  · rw [mem_singleton.1 hz]
    exact hy

theorem RepliesOk.concluded (I : RepliesOk P s) (hx : s.live[n]? = some x) {st : JobStore} {ids : Nat}
    {rows : List JobId} {unused : Int} {reply : Reply} (hkeeps : s.store.Keeps P st)
    (hnodup : rows.Nodup) (hfresh : ∀ i ∈ rows, s.uuid ≤ i ∧ i < s.uuid + ids)
    (hr : x.request.ReplyOk P st reply rows) :
    RepliesOk P ({ s with uuid := s.uuid + ids, store := st }.conclude n { x with made := rows }
      unused reply) := by
  have hadm := (I.live x (mem_of_getElem? hx)).admitted
  have hput : ∀ stage, (stage = .settling unused reply ∨ stage = .recording reply) →
      RepliesOk P ({ s with uuid := s.uuid + ids, store := st }.put n
        { x with made := rows, stage := stage }) := by
    intro stage hs
    refine I.replace hx [_] [] rfl rfl ?_ (.inr ⟨hnodup, hfresh⟩) (Nat.le_add_right _ _) hkeeps
      (fun y hy => ?_) fun _ h => absurd h not_mem_nil
    · simp
    · rw [mem_singleton.1 hy]
      refine ⟨hadm, ?_⟩
      rcases hs with rfl | rfl <;> exact hr
  unfold conclude
  split
  · rcases finish_cases { s with uuid := s.uuid + ids, store := st } n { x with made := rows } reply
      with he | ⟨-, -, he⟩
    · rw [he]
      refine I.replace hx [] [_] rfl rfl ?_ (.inr ⟨hnodup, hfresh⟩) (Nat.le_add_right _ _) hkeeps
        (fun _ h => absurd h not_mem_nil) fun a ha => ?_
      · simp
      · rw [mem_singleton.1 ha]
        exact hr
    · rw [he]
      exact hput _ (.inr rfl)
  · exact hput _ (.inl rfl)

theorem RepliesOk.of_begin (I : RepliesOk P s) (r : Request) : RepliesOk P (s.begin r) := by
  have hreply : ∀ reply, r.ReplyOk P s.store reply [] → RepliesOk P (s.reply r reply) := by
    intro reply hr
    refine I.frame [] [_] rfl rfl rfl (.refl P _)
      (fun _ h => absurd h not_mem_nil) fun a ha => ?_
    rw [mem_singleton.1 ha]
    exact ⟨rfl, hr⟩
  rcases begin_cases s r with ⟨why, he⟩ | ⟨q, k, j, rfl, hk, hex, hscope, he⟩ | ⟨x, he, E⟩
  · rw [he]
    exact hreply _ (Request.replyOk_nothing why)
  · -- the job was found at the look-up
    rw [he]
    obtain ⟨hj, ho, hkey⟩ := JobStore.of_existingIdempotentJob hex
    refine hreply _ ⟨?_, ?_, ?_, fun _ h => (by cases h), fun _ _ h => absurd h not_mem_nil,
      fun _ h => (by cases h)⟩
    · rintro k' _ - ⟨hk', rfl⟩
      obtain rfl := Option.some.inj (hk.symm.trans hk')
      exact ⟨j, hj, ho, hkey, hscope⟩
    · rintro k' _ c ⟨-, rfl, -⟩
      exact ⟨fun h => absurd h not_mem_nil, fun h => absurd h.2.2 Bool.false_ne_true⟩
    · rintro _ _ ⟨⟩
      rfl
  · rw [he]
    refine I.frame [x] [] rfl rfl rfl (.refl P _) (fun y hy => ?_)
      fun _ h => absurd h not_mem_nil
    rw [mem_singleton.1 hy]
    refine ⟨E.made, by rw [E.request]; exact E.admitted, ?_⟩
    rw [E.stage]
    exact E.made

theorem RepliesOk.of_insert (I : RepliesOk P s) (hok : s.store.Ok s.uuid)
    (hx : s.live[n]? = some x) {met quota : Bool} {tx : TxEnd}
    (hs : x.stage = .reserved met quota) : RepliesOk P (s.insert cfg n x met quota tx) := by
  have hgood := I.live x (mem_of_getElem? hx)
  have hmade : x.made = [] := by
    have hp := hgood.pending
    rw [hs] at hp
    exact hp
  rcases insert_cases cfg s n x met quota tx with ⟨why, he⟩ | ⟨st, reply, hins, hcommit⟩
  · rw [he]
    have hnodup : x.made.Nodup := by
      rw [hmade]
      exact .nil
    have hnone : ∀ i ∈ x.made, s.uuid ≤ i ∧ i < s.uuid + x.request.idCount := by
      rw [hmade]
      exact fun _ h => absurd h not_mem_nil
    refine I.concluded hx (.refl P _) hnodup hnone ?_
    rw [hmade]
    exact Request.replyOk_nothing why
  · obtain ⟨new, C⟩ := Request.insertRows_spec hok hins
    have hperm := madeRows_perm C
    have hnodup := hperm.nodup_iff.2 C.adds.nodup
    have hfresh : ∀ i ∈ s.madeRows x st, s.uuid ≤ i ∧ i < s.uuid + x.request.idCount := by
      intro i hi
      obtain ⟨y, hy, rfl⟩ := mem_map.1 (hperm.mem_iff.1 hi)
      exact (C.columns y hy).2.2
    have hr : x.request.ReplyOk P st reply (s.madeRows x st) :=
      Request.replyOk_commit hok hgood.admitted hins C hperm
    rcases hcommit with ⟨-, he⟩ | ⟨-, he⟩
    · -- the answer to the commit is lost
      rw [he]
      exact I.concluded hx C.adds.keeps hnodup hfresh (Request.replyOk_refused _ hr.rows)
    · rw [he]
      exact I.concluded hx C.adds.keeps hnodup hfresh hr

theorem RepliesOk.finished (I : RepliesOk P s) (hx : s.live[n]? = some x) {unused : Int}
    {reply : Reply} (hs : x.stage = .settling unused reply) {u : OrgId → Option Usage} {c : Int} :
    RepliesOk P ({ s with usage := u }.finish n { x with charged := c } reply) := by
  have hgood := I.live x (mem_of_getElem? hx)
  have hp : x.request.ReplyOk P s.store reply x.made := by
    have hp := hgood.pending
    rw [hs] at hp
    exact hp
  rcases finish_cases { s with usage := u } n { x with charged := c } reply with he | ⟨-, -, he⟩
  · rw [he]
    exact I.answered hx hp
  · rw [he]
    exact I.moved hx (y := { x with charged := c, stage := .recording reply }) rfl
      ⟨hgood.admitted, hp⟩

/-- **A step that spares the rows that `P` picks keeps the replies about them true.** -/
theorem RepliesOk.step (I : RepliesOk P s) (hok : s.store.Ok s.uuid) (hd : s.Spares P a = true)
    (h : s.next cfg a = some t) : RepliesOk P t := by
  -- a handler that has not inserted yet
  have hearly : ∀ {n : Nat} {x : Handler}, s.live[n]? = some x → (∀ u r, x.stage ≠ .settling u r) →
      (∀ r, x.stage ≠ .recording r) → x.made = [] := by
    intro n x hx hs hr
    have hp := (I.live x (mem_of_getElem? hx)).pending
    cases hst : x.stage with
    | settling u r => exact absurd hst (hs u r)
    | recording r => exact absurd hst (hr r)
    | opened | checked | reserved =>
      rw [hst] at hp
      exact hp
  cases step_of_next h with
  | tick d =>
    exact I.frame [] [] rfl rfl rfl (.refl P _)
      (fun _ h => absurd h not_mem_nil) (fun _ h => absurd h not_mem_nil)
  | other c hc =>
    exact I.frame [] [] rfl rfl rfl (JobStore.keeps_of_exec hd)
      (fun _ h => absurd h not_mem_nil) (fun _ h => absurd h not_mem_nil)
  | begin r => exact I.of_begin r
  | refuse n x why hx hs =>
    have hmade : x.made = [] := hearly hx (by simp [hs]) (by simp [hs])
    exact I.answered hx (by rw [hmade]; exact Request.replyOk_nothing why)
  | check n x met hx hs =>
    have hmade : x.made = [] := hearly hx (by simp [hs]) (by simp [hs])
    exact I.moved hx (y := { x with stage := .checked met }) rfl
      ⟨(I.live x (mem_of_getElem? hx)).admitted, hmade⟩
  | orphan n x hx hs =>
    have hmade : x.made = [] := hearly hx (by simp [hs]) (by simp [hs])
    exact I.answered hx (by rw [hmade]; exact Request.replyOk_nothing _)
  | reserve n x met planFails fails hx hs =>
    have hmade : x.made = [] := hearly hx (by simp [hs]) (by simp [hs])
    have hadm := (I.live x (mem_of_getElem? hx)).admitted
    rcases reserve_cases cfg s n x met planFails fails with ⟨-, he⟩ | ⟨-, -, ⟨-, he⟩ | ⟨-, he⟩⟩
    · rw [he]
      exact I.moved hx (y := { x with stage := .reserved met false }) rfl ⟨hadm, hmade⟩
    · rw [he]
      exact I.moved hx (y := { x with stage := .reserved met true, charged := _ }) rfl ⟨hadm, hmade⟩
    · rw [he]
      exact I.answered hx (by rw [hmade]; exact Request.replyOk_nothing _)
  | insert n x met quota tx hx hs => exact I.of_insert hok hx hs
  | settle n x unused reply fails hx hs =>
    unfold settle
    dsimp only
    split
    · exact I.finished hx hs (c := x.charged)
    · exact I.finished hx hs
  | record n x reply fails hx hs =>
    have hp := (I.live x (mem_of_getElem? hx)).pending
    rw [hs] at hp
    refine I.answered hx ?_
    split
    · exact Request.replyOk_refused _ hp.rows
    · exact hp
  | drop n x hx =>
    have hsub : List.Sublist (s.answers.flatMap (·.made) ++ (s.live.eraseIdx n).flatMap (·.made))
        s.made := ((eraseIdx_sublist _ _).flatMap _).append_left _
    exact ⟨fun y hy => I.live y (mem_of_mem_eraseIdx hy), I.answers,
      fun i hi => I.fresh i (hsub.subset hi), I.nodup.sublist hsub⟩

theorem repliesOk_of_run {h : List (CreateSys × CreateLabel)} (hr : (createSystem cfg).Run s h)
    (hd : (createSystem cfg).Steps (fun s a => Spares P s a) h) : RepliesOk P s := by
  refine hr.invariant (M := createSystem cfg) (C := fun s a => Spares P s a)
    (I := fun s _ => RepliesOk P s)
    (fun s hi => ?_) (fun _ _ _ _ hr _ I hd hn => I.step (store_ok_of_run hr) hd hn) hd
  obtain ⟨hlive, -, hans, -⟩ := hi
  have hmade : s.made = [] := by
    unfold made
    rw [hlive, hans]
    rfl
  refine ⟨?_, ?_, ?_, ?_⟩
  · rw [hlive]
    exact fun _ h => absurd h not_mem_nil
  · rw [hans]
    exact fun _ h => absurd h not_mem_nil
  · rw [hmade]
    exact fun _ h => absurd h not_mem_nil
  · rw [hmade]
    exact .nil

theorem touched_of_next (hok : s.store.Ok s.uuid) (h : s.next cfg a = some t)
    (hne : ∀ c, a ≠ .other c) {i : JobId} {j : Job} (hj : s.store.db.job i = some j) :
    ∃ j', t.store.db.job i = some j' ∧ j.Touched j' := by
  cases storeStep_of_next h with
  | same hst => exact ⟨j, by rw [hst]; exact hj, .refl j⟩
  | other c hc => exact absurd hc (hne c)
  | commit x st met reply hins hst =>
    obtain ⟨new, C⟩ := Request.insertRows_spec hok hins
    rw [hst]
    exact C.adds.old i j hj

end CreateSys

/-! ## The requests for one key -/

def CreateAnswer.SaysCreated (a : CreateAnswer) (k : String) : Prop :=
  ∃ i, a.request.Says a.reply k i true

def CreateSys.KeepsJob (org : OrgId) (k : String) (s : CreateSys) (a : CreateLabel) : Bool :=
  s.Spares (fun o key => o == org && key == some k) a

/-- What the requests of an organization that carry the key `k` can rely on, in state
`s` after the steps `h`. -/
structure CreateSys.IdempotentOn (cfg : CreateConfig) (s : CreateSys)
    (h : List (CreateSys × CreateLabel)) (org : OrgId) (k : String) : Prop where
  row : ∀ i i' j j', s.store.db.job i = some j → s.store.db.job i' = some j' →
    s.store.keyOf i = some k → s.store.keyOf i' = some k → j.organizationId = org →
    j'.organizationId = org → i = i'
  stored : ∀ a ∈ s.answers, a.request.organizationId = org → ∀ i,
    a.request.Names a.reply k i → a.request.Stored s.store k i
  sameId : ∀ a ∈ s.answers, ∀ a' ∈ s.answers, a.request.organizationId = org →
    a'.request.organizationId = org → ∀ i i', a.request.Names a.reply k i →
    a'.request.Names a'.reply k i' → i = i'
  /-- A reply that says whether the job is new says "created" exactly if its own insert
  made the row. -/
  created : ∀ a ∈ s.answers, a.request.organizationId = org → ∀ i c,
    a.request.Says a.reply k i c → (i ∈ a.made ↔ a.SaysCreated k)
  once : s.answers.Pairwise fun a a' => a.request.organizationId = org →
    a'.request.organizationId = org → a.SaysCreated k → ¬ a'.SaysCreated k
  disjoint : s.answers.Pairwise fun a a' => ∀ i ∈ a.made, i ∉ a'.made
  single : ∀ a ∈ s.answers, ∀ i c, a.reply = .job i c → a.made = if c then [i] else []
  accepted : ∀ a ∈ s.answers, ∀ i, a.reply = .accepted i → a.made = [] ∨ a.made = [i]
  /-- A replay changes nothing of a row but `updated_at`. -/
  touched : ∀ x ∈ h, (∀ c, x.2 ≠ .other c) → ∀ t, x.1.next cfg x.2 = some t → ∀ i j,
    x.1.store.db.job i = some j → ∃ j', t.store.db.job i = some j' ∧ j.Touched j'
  /-- Within a day, with working counter statements and commits whose answer arrives,
  exactly the rows made are counted. -/
  counted : (createSystem cfg).Steps CreateSys.Works h →
    ∀ a ∈ s.answers, a.charged = a.made.length

/-- **Idempotent creation.** For every organization, every key and every interleaving
of the handlers, as long as the job of the key is not deleted. -/
theorem idempotent_creation {cfg : CreateConfig} {s : CreateSys}
    {h : List (CreateSys × CreateLabel)} (hr : (createSystem cfg).Run s h) (org : OrgId) (k : String)
    (hd : (createSystem cfg).Steps (fun s a => CreateSys.KeepsJob org k s a) h) :
    s.IdempotentOn cfg h org k := by
  have I := CreateSys.repliesOk_of_run hr hd
  have hunique := (CreateSys.store_ok_of_run hr).unique
  have hrow : ∀ i i' j j', s.store.db.job i = some j → s.store.db.job i' = some j' →
      s.store.keyOf i = some k → s.store.keyOf i' = some k → j.organizationId = org →
      j'.organizationId = org → i = i' :=
    fun i i' j j' hj hj' hk hk' ho ho' => hunique i i' j j' k hj hj' hk hk' (ho.trans ho'.symm)
  have hstored : ∀ a ∈ s.answers, a.request.organizationId = org → ∀ i,
      a.request.Names a.reply k i → a.request.Stored s.store k i :=
    fun a ha ho i hn => (I.answers a ha).stored k i (by simp [ho]) hn
  have hsame : ∀ a ∈ s.answers, ∀ a' ∈ s.answers, a.request.organizationId = org →
      a'.request.organizationId = org → ∀ i i', a.request.Names a.reply k i →
      a'.request.Names a'.reply k i' → i = i' := by
    intro a ha a' ha' ho ho' i i' hn hn'
    obtain ⟨j, hj, hjo, hjk, -⟩ := hstored a ha ho i hn
    obtain ⟨j', hj', hjo', hjk', -⟩ := hstored a' ha' ho' i' hn'
    exact hrow i i' j j' hj hj' hjk hjk' (hjo.trans ho) (hjo'.trans ho')
  have hdisjoint : s.answers.Pairwise fun a a' => ∀ i ∈ a.made, i ∉ a'.made :=
    (nodup_flatMap.1 (nodup_append.1 I.nodup).1).2.imp fun hdisj i hi hi' => hdisj hi hi'
  refine ⟨hrow, hstored, hsame, ?_, ?_, hdisjoint, fun a ha => (I.answers a ha).single,
    fun a ha => (I.answers a ha).accepted, ?_, ?_⟩
  · intro a ha ho i c hn
    rw [(I.answers a ha).created k i c hn]
    refine ⟨fun h => ⟨i, h⟩, ?_⟩
    -- all entries for one key give one job
    rintro ⟨i', hn'⟩
    rw [hsame a ha a ha ho ho i i' hn.names hn'.names]
    exact hn'
  · refine hdisjoint.imp_of_mem fun ha ha' hdisj ho ho' hc hc' => ?_
    obtain ⟨i, hn⟩ := hc
    obtain ⟨i', hn'⟩ := hc'
    obtain rfl := hsame _ ha _ ha' ho ho' i i' hn.names hn'.names
    exact hdisj i (((I.answers _ ha).created k i true hn).2 hn)
      (((I.answers _ ha').created k i true hn').2 hn')
  · intro x hx hne t hn i j hj
    obtain ⟨h₁, h₂, rfl⟩ := append_of_mem hx
    have hrun : (createSystem cfg).Run x.1 h₂ := hr.of_append
    exact CreateSys.touched_of_next (CreateSys.store_ok_of_run hrun) hn hne hj
  · intro hw a ha
    have hq : (createSystem cfg).Steps (CreateSys.Quiet fun _ => false) h :=
      fun y hy => ⟨hw y hy, CreateSys.spares_nothing _ _⟩
    exact ((CreateSys.quotaOk_of_run hr hq).answers a ha).charged

/-- Two requests race for one key, while an old job of another queue is deleted: both are
answered with job 1, and one of them made it. -/
theorem idempotent_creation_race : ∃ s h,
    (createSystem { dailyLimit := fun _ => 3 }).Run s h ∧
      s.answers.map (·.reply) = [.accepted 1, .job 1 true, .job 0 true] ∧
      s.answers.map (·.charged) = [0, 1, 1] ∧ s.store.db.job 0 = none ∧
      s.IdempotentOn { dailyLimit := fun _ => 3 } h 0 "k" := by
  obtain ⟨s, h, hr, hp⟩ := Machine.Run.of_exec (createSystem { dailyLimit := fun _ => 3 })
    [.begin (.single { job := { path := .rest, organizationId := 0, queueName := "old" } }), .check 0,
      .reserve 0 false false, .insert 0 .committed,
      .begin (mailRequest (some "k") .rest), .begin (mailRequest (some "k") .webhook), .check 0,
      .check 1, .reserve 0 false false, .reserve 1 false false, .insert 1 .committed,
      .other (.deleteQueue 0 "old"), .insert 0 .committed, .settle 0 false, .record 0 false] {}
    (fun x => x.2.all (fun y : CreateSys × CreateLabel => y.1.KeepsJob 0 "k" y.2) &&
      x.1.answers.map (·.reply) == [.accepted 1, .job 1 true, .job 0 true] &&
      x.1.answers.map (·.charged) == [0, 1, 1] && (x.1.store.db.job 0).isNone)
    (init_createSystem 0) (by decide +kernel)
  simp only [Bool.and_eq_true, beq_iff_eq, Option.isNone_iff_eq_none] at hp
  obtain ⟨⟨⟨hd, hreply⟩, hcharged⟩, hgone⟩ := hp
  exact ⟨s, h, hr, hreply, hcharged, hgone, idempotent_creation hr 0 "k" fun y hy =>
    (all_eq_true.1 hd y hy :)⟩

/-- The steps `as`, in which no job is deleted, answer a request with `reply`. -/
theorem exists_answer (as : List CreateLabel) (now later : Time) (mishaps : List Mishap)
    (reply : Reply) (made : List JobId) (charged : Int)
    (he : (((createSystem { dailyLimit := fun _ => 9 }).exec as ({ now := now }, [])).any fun x =>
      x.2.all (fun y : CreateSys × CreateLabel => y.1.Spares (fun _ _ => true) y.2) &&
        x.2.flatMap (fun y => CreateLabel.mishaps y.2) == mishaps && x.1.now == later &&
        x.1.answers.any fun a => a.reply == reply && a.made == made && a.charged == charged) = true) :
    ∃ s h, (createSystem { dailyLimit := fun _ => 9 }).Run s h ∧
      (createSystem { dailyLimit := fun _ => 9 }).Steps
        (fun s a => CreateSys.Spares (fun _ _ => true) s a) h ∧
      h.flatMap (fun y => CreateLabel.mishaps y.2) = mishaps ∧ s.now = later ∧
      ∃ a ∈ s.answers, a.reply = reply ∧ a.made = made ∧ a.charged = charged := by
  obtain ⟨s, h, hr, hp⟩ := Machine.Run.of_exec (createSystem { dailyLimit := fun _ => 9 }) as
    { now := now } _ (init_createSystem now) he
  simp only [Bool.and_eq_true, beq_iff_eq, any_eq_true, and_assoc] at hp
  obtain ⟨hd, hm, hnow, hans⟩ := hp
  exact ⟨s, h, hr, fun y hy => (all_eq_true.1 hd y hy :), hm, hnow, hans⟩

/-- Three requests that are charged for another number of rows than they made: one loses
the race for its key and gives back after midnight, where the refund finds nothing to take
back; of one the counter statement fails; of one the commit takes effect and reports an
error. A delivery that cannot be recorded is counted, but not reported. -/
theorem creation_miscounted :
    (∃ s h, (createSystem { dailyLimit := fun _ => 9 }).Run s h ∧
      (createSystem { dailyLimit := fun _ => 9 }).Steps
        (fun s a => CreateSys.Spares (fun _ _ => true) s a) h ∧
      h.flatMap (fun y => CreateLabel.mishaps y.2) = [] ∧ s.now = 86401000 ∧
      ∃ a ∈ s.answers, a.reply = .job 0 false ∧ a.made = [] ∧ a.charged = 1) ∧
    (∃ s h, (createSystem { dailyLimit := fun _ => 9 }).Run s h ∧
      (createSystem { dailyLimit := fun _ => 9 }).Steps
        (fun s a => CreateSys.Spares (fun _ _ => true) s a) h ∧
      h.flatMap (fun y => CreateLabel.mishaps y.2) = [.counter] ∧ s.now = 0 ∧
      ∃ a ∈ s.answers, a.reply = .job 0 true ∧ a.made = [0] ∧ a.charged = 0) ∧
    (∃ s h, (createSystem { dailyLimit := fun _ => 9 }).Run s h ∧
      (createSystem { dailyLimit := fun _ => 9 }).Steps
        (fun s a => CreateSys.Spares (fun _ _ => true) s a) h ∧
      h.flatMap (fun y => CreateLabel.mishaps y.2) = [.commit] ∧ s.now = 0 ∧
      ∃ a ∈ s.answers, a.reply = .refused .database ∧ a.made = [0] ∧ a.charged = 0) ∧
    ∃ s h, (createSystem { dailyLimit := fun _ => 9 }).Run s h ∧
      (createSystem { dailyLimit := fun _ => 9 }).Steps
        (fun s a => CreateSys.Spares (fun _ _ => true) s a) h ∧
      h.flatMap (fun y => CreateLabel.mishaps y.2) = [.delivery] ∧ s.now = 0 ∧
      ∃ a ∈ s.answers, a.reply = .refused .database ∧ a.made = [0] ∧ a.charged = 1 :=
  ⟨exists_answer [.begin (mailRequest (some "k") .rest), .begin (mailRequest (some "k") .grpc),
      .check 0, .check 1, .reserve 0 false false, .reserve 1 false false, .insert 0 .committed,
      .insert 0 .committed, .tick 2000, .settle 0 false] 86399000 _ _ _ _ _ (by decide +kernel),
    exists_answer [.begin (mailRequest (some "k") .rest), .check 0, .reserve 0 false true,
      .insert 0 .committed] 0 _ _ _ _ _ (by decide +kernel),
    exists_answer [.begin (mailRequest (some "k") .rest), .check 0, .reserve 0 false false,
      .insert 0 .lost, .settle 0 false] 0 _ _ _ _ _ (by decide +kernel),
    exists_answer [.begin (mailRequest (some "k") .webhook), .check 0, .reserve 0 false false,
      .insert 0 .committed, .record 0 true] 0 _ _ _ _ _ (by decide +kernel)⟩

/-! ## The items of one bulk request -/

/-- **Bulk enqueue accounts for every item.** Within a day, with working counter statements,
commits whose answer arrives and no deletion in the organization: an answered bulk request
was refused and has done nothing, or its response accounts for every item, and the counter
went up by the rows it made. -/
theorem bulk_accounts_for_every_item {cfg : CreateConfig} {s : CreateSys}
    {h : List (CreateSys × CreateLabel)} (hr : (createSystem cfg).Run s h) {a : CreateAnswer}
    (ha : a ∈ s.answers) {b : BulkRequest} (hb : a.request = .bulk b)
    (hq : (createSystem cfg).Steps (CreateSys.Quiet (· == b.organizationId)) h) :
    (∃ why, a.reply = .refused why ∧ a.made = [] ∧ a.charged = 0) ∨
    ∃ resp, a.reply = .bulk resp ∧ b.Accounts resp a.made ∧ a.made.Nodup ∧
      (∀ i ∈ a.made, ∃ j, s.store.db.job i = some j ∧ j.organizationId = b.organizationId) ∧
      a.charged = a.made.length := by
  have I := CreateSys.repliesOk_of_run hr fun y hy => (hq y hy).2
  have hsettled := (CreateSys.quotaOk_of_run hr hq).answers a ha
  have hok := I.answers a ha
  rcases hok.bulk b hb with ⟨why, he⟩ | ⟨resp, he, hacc⟩
  · have hmade : a.made = [] := hsettled.refused (by rw [he]; rfl) (by rw [hb]; rfl)
    exact .inl ⟨why, he, hmade, by rw [hsettled.charged, hmade]; rfl⟩
  · have hnodup : a.made.Nodup :=
      (nodup_flatMap.1 (nodup_append.1 I.nodup).1).1 a ha
    refine .inr ⟨resp, he, hacc, hnodup, fun i hi => ?_, hsettled.charged⟩
    have hrow := hok.rows (fun _ => by rw [hb]; exact beq_self_eq_true _) i hi
    rw [hb] at hrow
    exact hrow

/-- Four items: one without a key, two with the key `k`, and an invalid one. -/
def mailBatch : BulkRequest where
  organizationId := 0
  queueName := "mail"
  scope := fun _ => true
  items := [{}, { key := some "k" }, { invalid := some "payload too large" }, { key := some "k" }]

def Request.itemCount : Request → Option Nat
  | .bulk b => some b.items.length
  | _ => none

theorem Request.of_itemCount {q : Request} {m : Nat} (h : q.itemCount = some m) :
    ∃ b, q = .bulk b ∧ b.items.length = m := by
  cases q with
  | bulk b => exact ⟨b, rfl, Option.some.inj h⟩
  | single | workflow => cases h

/-- The batch races with a request for the key `k` and loses. -/
theorem bulk_accounts_for_every_item_race : ∃ s h a b,
    (createSystem { dailyLimit := fun _ => 9 }).Run s h ∧ a ∈ s.answers ∧ a.request = .bulk b ∧
      b.items.length = 4 ∧
      a.reply = .bulk ⟨[⟨0, 1, true⟩, ⟨1, 0, false⟩, ⟨3, 0, false⟩], [⟨2, "payload too large"⟩], 4, 3, 1⟩ ∧
      ((∃ why, a.reply = .refused why ∧ a.made = [] ∧ a.charged = 0) ∨
        ∃ resp, a.reply = .bulk resp ∧ b.Accounts resp a.made ∧ a.made.Nodup ∧
          (∀ i ∈ a.made, ∃ j, s.store.db.job i = some j ∧ j.organizationId = b.organizationId) ∧
          a.charged = a.made.length) := by
  obtain ⟨s, h, hr, hp⟩ := Machine.Run.of_exec (createSystem { dailyLimit := fun _ => 9 })
    [.begin (mailRequest (some "k") .rest), .begin (.bulk mailBatch), .check 0, .check 1,
      .reserve 0 false false, .reserve 1 false false, .insert 1 .committed, .insert 0 .committed,
      .settle 0 false] {}
    (fun x => x.2.all (fun y : CreateSys × CreateLabel => decide (y.1.Quiet (· == 0) y.2)) &&
      x.1.answers.any fun a => a.request.itemCount == some 4 && a.request.organizationId == 0 && a.reply ==
        .bulk ⟨[⟨0, 1, true⟩, ⟨1, 0, false⟩, ⟨3, 0, false⟩], [⟨2, "payload too large"⟩], 4, 3, 1⟩)
    (init_createSystem 0) (by decide +kernel)
  simp only [Bool.and_eq_true, beq_iff_eq, any_eq_true] at hp
  obtain ⟨hq, a, ha, ⟨hcount, horg⟩, hreply⟩ := hp
  obtain ⟨b, hb, hlen⟩ := Request.of_itemCount hcount
  rw [hb] at horg
  have horg : b.organizationId = 0 := horg
  exact ⟨s, h, a, b, hr, ha, hb, hlen, hreply,
    bulk_accounts_for_every_item hr ha hb (by rw [horg]; exact CreateSys.steps_quiet hq)⟩

/-- A batch that loses a race over midnight: it stays charged for a row more than it made. -/
theorem bulk_charged_over_midnight : ∃ s h, (createSystem { dailyLimit := fun _ => 9 }).Run s h ∧
    (createSystem { dailyLimit := fun _ => 9 }).Steps
      (fun s a => CreateSys.Spares (fun _ _ => true) s a) h ∧
    h.flatMap (fun y => CreateLabel.mishaps y.2) = [] ∧ s.now = 86401000 ∧
    ∃ a ∈ s.answers, a.reply = .bulk ⟨[⟨0, 1, true⟩, ⟨1, 0, false⟩, ⟨3, 0, false⟩],
      [⟨2, "payload too large"⟩], 4, 3, 1⟩ ∧ a.made = [1] ∧ a.charged = 2 :=
  exists_answer [.begin (mailRequest (some "k") .rest), .begin (.bulk mailBatch), .check 0, .check 1,
    .reserve 0 false false, .reserve 1 false false, .insert 1 .committed, .insert 0 .committed,
    .tick 2000, .settle 0 false] 86399000 _ _ _ _ _ (by decide +kernel)

end Spooled
