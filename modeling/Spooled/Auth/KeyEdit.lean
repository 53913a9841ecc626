import Spooled.Auth.KeyStep

/-!
# Edits of an API key

A `PUT` writes back every column it read, the omitted ones too. So what it omits
stays as it is only if nobody sets it between the read and the commit; then the
row always holds, column by column, what the last committed request asked for.
-/

namespace Spooled.Auth

/-! ## What a request leaves as it is -/

/-- The omitted columns are still as the request read them. -/
structure Edit.Current (e : Edit) (existing k : ApiKey) : Prop where
  name : e.asks.name = none → existing.name = k.name
  queues : e.asks.queues = none → existing.queues = k.queues
  rateLimit : e.asks.rateLimit = none → existing.rateLimit = k.rateLimit
  isActive : e.asks.isActive = none → existing.isActive = k.isActive

theorem Edit.Current.refl (e : Edit) (k : ApiKey) : e.Current k k :=
  ⟨fun _ => rfl, fun _ => rfl, fun _ => rfl, fun _ => rfl⟩

variable {e : Edit} {existing k k' : ApiKey}

theorem Edit.assign_writes (h : e.Current existing k) :
    (e.writes existing).assign k = e.asks.assign k := by
  cases e with
  | revoke => rfl
  | put r =>
    obtain ⟨name, queues, rateLimit, isActive⟩ := r
    obtain ⟨hn, hq, hr, ha⟩ := h
    unfold Columns.assign Edit.writes Edit.asks at *
    congr 1
    · cases name with
      | none => exact hn rfl
      | some v => rfl
    · cases queues with
      | none => exact hq rfl
      | some v => rfl
    · cases rateLimit with
      | none => exact hr rfl
      | some v => rfl
    · cases isActive with
      | none => exact ha rfl
      | some v => rfl

/-- The first request sets a column that the second one, a `PUT`, omits. -/
def Edit.disturbs (e : Edit) : Edit → Bool
  | .revoke => false
  | .put r =>
    let omitted := (Edit.put r).asks
    (e.asks.name.isSome && omitted.name.isNone) || (e.asks.queues.isSome && omitted.queues.isNone) ||
      (e.asks.rateLimit.isSome && omitted.rateLimit.isNone) ||
      (e.asks.isActive.isSome && omitted.isActive.isNone)

theorem Edit.Current.assign {r : UpdateApiKeyRequest}
    (h : (Edit.put r).Current existing k) (hd : e.disturbs (.put r) = false) :
    (Edit.put r).Current existing (e.asks.assign k) := by
  have hkeep : ∀ {α : Type} {asked omitted : Option α} {v v' : α},
      (asked.isSome = true → omitted.isNone = false) → (omitted = none → v = v') →
      omitted = none → v = asked.getD v' := by
    intro α asked omitted v v' hd hv ho
    cases asked with
    | none => exact hv ho
    | some a => exact absurd (hd rfl) (by simp [ho])
  simp only [Edit.disturbs, Bool.or_eq_false_iff, Bool.and_eq_false_imp] at hd
  obtain ⟨⟨⟨hname, hqueues⟩, hrate⟩, hactive⟩ := hd
  exact ⟨hkeep hname h.name, hkeep hqueues h.queues, hkeep hrate h.rateLimit,
    hkeep hactive h.isActive⟩

/-- The columns that a request may set are the same. -/
structure ApiKey.SameColumns (k k' : ApiKey) : Prop where
  name : k.name = k'.name
  queues : k.queues = k'.queues
  rateLimit : k.rateLimit = k'.rateLimit
  isActive : k.isActive = k'.isActive

theorem ApiKey.SameColumns.refl (k : ApiKey) : k.SameColumns k := ⟨rfl, rfl, rfl, rfl⟩

theorem ApiKey.SameColumns.current (h : k.SameColumns k')
    (hc : e.Current existing k) : e.Current existing k' :=
  ⟨fun hn => (hc.name hn).trans h.name, fun hn => (hc.queues hn).trans h.queues,
    fun hn => (hc.rateLimit hn).trans h.rateLimit, fun hn => (hc.isActive hn).trans h.isActive⟩

/-- Only `assign` changes a column that a request may set. -/
theorem Command.key_of_ne_assign {s : Site} {c : Command} {i : KeyId}
    (hc : ∀ i cols, c ≠ .assign i cols) (hk' : (c.run s).key i = some k') :
    ∃ k, s.key i = some k ∧ k.SameColumns k' := by
  by_cases hb : ∃ i d, c = .backfill i d
  · obtain ⟨j, d, rfl⟩ := hb
    rw [Command.key_backfill] at hk'
    obtain ⟨k, hk, rfl⟩ := Option.map_eq_some_iff.1 hk'
    refine ⟨k, hk, ?_⟩
    split
    · exact ⟨rfl, rfl, rfl, rfl⟩
    · exact .refl k
  · push Not at hb
    rw [Site.key, Command.keys_of_ne hb hc] at hk'
    exact ⟨k', hk', .refl k'⟩

/-! ## Steps -/

namespace EditProc

def commits (s : Site) (os : List Proc) (p : EditProc) : Bool :=
  match p.act s os with
  | some (.run (.assign _ _) _) => true
  | _ => false

theorem commits_iff {s : Site} {os : List Proc} {p : EditProc} : p.commits s os = true ↔
    ∃ e, p.existing = some e ∧ p.act s os = some (.run (.assign p.id (p.edit.writes e))
      (some (p.goTo (.readReverse e.keyHash)))) := by
  unfold commits
  constructor
  · intro h
    split at h
    · next i c q hact =>
      have hm := p.moves .plain s os
      rw [hact] at hm
      cases hm with | assign he => exact ⟨_, he, hact⟩
    · cases h
  · rintro ⟨e, -, hact⟩
    rw [hact]

/-- No other `PUT` of the key that omits a column of this request is past its read. -/
def undisturbing (os : List Proc) (p : EditProc) : Bool :=
  os.all fun
    | .edit q => !(q.id == p.id && q.existing.isSome && p.edit.disturbs q.edit)
    | _ => true

def Fresh (s : Site) (p : EditProc) : Prop :=
  ∀ r e k, p.edit = .put r → p.existing = some e → s.key p.id = some k → (Edit.put r).Current e k

end EditProc

def committedEdit (i : KeyId) (x : Pool Site Proc) : PoolLabel Arrival → Option Edit
  | .run j => match x.procs[j]? with
    | some (.edit p) =>
      if p.id = i ∧ p.commits x.store (x.procs.eraseIdx j) = true then some p.edit else none
    | _ => none
  | _ => none

/-- A request commits only when it disturbs nobody. -/
def Proc.keepsApart (s : Site) (os : List Proc) : Proc → Bool
  | .edit p => !p.commits s os || p.undisturbing os
  | _ => true

@[reducible] def editsApart (crypto : Crypto) : PoolSpec.Allow (keyRequests crypto) :=
  .onRun (keyRequests crypto) fun s os p => Proc.keepsApart s os p

/-- What `PUT` requests will write back is still there. -/
def Proc.Fresh (s : Site) : Proc → Prop
  | .edit p => p.Fresh s
  | _ => True

section Fresh

variable {crypto : Crypto} {s : Site} {os : List Proc} {c : Command}

theorem EditProc.Fresh.assign_writes {p : EditProc} {e k : ApiKey} (h : p.Fresh s)
    (he : p.existing = some e) (hk : s.key p.id = some k) :
    (p.edit.writes e).assign k = p.edit.asks.assign k := by
  cases hedit : p.edit with
  | revoke => rfl
  | put r => exact Edit.assign_writes (h r e k hedit he hk)

theorem EditProc.Fresh.assign {p q : EditProc} {e : ApiKey} (h : p.Fresh s) (hq : q.Fresh s)
    (hp : p.existing = some e) (hd : q.id = p.id → q.existing.isSome = true →
      p.edit.disturbs q.edit = false) :
    q.Fresh ((Command.assign p.id (p.edit.writes e)).run s) := by
  intro r e' k' hr he' hk'
  rw [Command.key_assign] at hk'
  obtain ⟨k, hk, rfl⟩ := Option.map_eq_some_iff.1 hk'
  split
  · next hid =>
    rw [h.assign_writes hp (hid ▸ hk)]
    exact (hq r e' k hr he' hk).assign (hr ▸ hd hid (by rw [he']; rfl))
  · exact hq r e' k hr he' hk

theorem EditProc.Fresh.of_ne {q : EditProc} (hq : q.Fresh s) (hc : ∀ i cols, c ≠ .assign i cols) :
    q.Fresh (c.run s) := by
  intro r e k' hr he hk'
  obtain ⟨k, hk, hsame⟩ := Command.key_of_ne_assign hc hk'
  exact hsame.current (hq r e k hr he hk)

theorem Proc.Fresh.of_ne {q : Proc} (hq : q.Fresh s) (hc : ∀ i cols, c ≠ .assign i cols) :
    q.Fresh (c.run s) := by
  cases q with
  | edit q => exact EditProc.Fresh.of_ne hq hc
  | auth | clock | organization => trivial

theorem Proc.Fresh.tell {q : Proc} (hq : q.Fresh s) : (c.tell crypto q).Fresh s := by
  cases q with
  | auth q => cases c <;> trivial
  | edit | clock | organization => cases c <;> exact hq

/-- **Writing back what was read harms nobody** while requests stay apart. -/
theorem edits_fresh (crypto : Crypto) : PoolSpec.Kept (keyRequests crypto) (editsApart crypto)
    (fun _ => True) Proc.Fresh fun _ _ _ => True where
  symm _ := trivial
  ask {s a} _ _ := by
    refine ⟨trivial, ?_⟩
    cases a with
    | edit e id org scope capAllows => exact fun r e k _ he => by cases he
    | authenticate | clock | organization => trivial
  ask_other _ _ hq := ⟨hq, trivial⟩
  ask_pair _ := trivial
  stay {s os p p'} he _ hb := by
    refine ⟨?_, fun _ _ => trivial⟩
    cases Proc.moves (keyRequests_stay he) with
    | stay => trivial
    | edit hstays =>
      intro r e k hr hex hk
      cases hstays with
      | read hrow h =>
        cases h.symm.trans hex
        cases hrow.symm.trans hk
        exact Edit.Current.refl _ _
      | keep hold h => exact hb.own r e k hr (hold.trans (h.symm.trans hex)) hk
      | refused | mapped | unmapped => cases hex
  share {s os p s' p' tell} he hA hb := by
    obtain ⟨c, hm, rfl, rfl⟩ := keyRequests_share he
    suffices hall : (∀ r ∈ p', Proc.Fresh (c.run s) r) ∧ ∀ r ∈ os, Proc.Fresh (c.run s) r from
      ⟨trivial, fun r hr => ⟨hall.1 r hr, fun _ _ => trivial⟩, fun r hr => (hall.2 r hr).tell,
        fun _ _ _ _ _ => trivial⟩
    cases Proc.moves hm with
    | run hc =>
      refine ⟨fun r hr => ?_, fun r hr => (hb.others r hr).of_ne fun i cols h => ?_⟩
      · cases hr
        trivial
      · subst h
        cases hc
    | @assign p e hex =>
      have happart : p.undisturbing os = true := by
        have h : (!p.commits s os || p.undisturbing os) = true := hA
        rwa [EditProc.commits_iff.2 ⟨e, hex, hm⟩] at h
      refine ⟨fun r hr => ?_, fun r hr => ?_⟩
      · cases hr
        exact fun r e k _ hno => (by cases hno)
      · cases r with
        | edit q =>
          refine EditProc.Fresh.assign hb.own (hb.others _ hr) hex fun hid hsome => ?_
          have h := List.all_eq_true.1 happart _ hr
          simpa [hid, hsome] using h
        | auth | clock | organization => trivial
    | delRecord | delReverse =>
      refine ⟨fun r hr => ?_, fun r hr => (hb.others r hr).of_ne nofun⟩
      cases hr
      exact fun r e k _ hno => (by cases hno)
    | clock | organization =>
      exact ⟨fun r hr => (by cases hr), fun r hr => (hb.others r hr).of_ne nofun⟩

end Fresh

/-! ## The row along a run -/

structure Columns.Shown (c : Columns) (k : ApiKey) : Prop where
  name : ∀ v ∈ c.name, k.name = v
  queues : ∀ v ∈ c.queues, k.queues = v
  rateLimit : ∀ v ∈ c.rateLimit, k.rateLimit = v
  isActive : ∀ v ∈ c.isActive, k.isActive = v

/-- The columns of `c`, and those of `c'` where `c` has none. -/
def Columns.orElse (c c' : Columns) : Columns :=
  ⟨c.name <|> c'.name, c.queues <|> c'.queues, c.rateLimit <|> c'.rateLimit,
    c.isActive <|> c'.isActive⟩

theorem Columns.Shown.same {c : Columns} (h : c.Shown k) (hk : k.SameColumns k') :
    c.Shown k' :=
  ⟨fun v hv => hk.name ▸ h.name v hv, fun v hv => hk.queues ▸ h.queues v hv,
    fun v hv => hk.rateLimit ▸ h.rateLimit v hv, fun v hv => hk.isActive ▸ h.isActive v hv⟩

theorem Columns.Shown.assign {c : Columns} (h : c.Shown k) (c' : Columns) :
    (c'.orElse c).Shown (c'.assign k) := by
  have hcol : ∀ {α : Type} {asked old : Option α} {cur : α}, (∀ v ∈ old, cur = v) →
      ∀ v ∈ (asked <|> old), asked.getD cur = v := by
    intro α asked old cur hold v hv
    cases asked with
    | none => exact hold v hv
    | some a => exact Option.some.inj hv
  exact ⟨hcol h.name, hcol h.queues, hcol h.rateLimit, hcol h.isActive⟩

/-- The edits of the key that the history commits, newest first. -/
def commits (i : KeyId) (h : List (Pool Site Proc × PoolLabel Arrival)) : List Edit :=
  h.filterMap fun z => committedEdit i z.1 z.2

section

variable {i : KeyId} {x : Pool Site Proc} {a : PoolLabel Arrival} {e : Edit}

theorem commits_of_some (he : committedEdit i x a = some e)
    (h : List (Pool Site Proc × PoolLabel Arrival)) : commits i ((x, a) :: h) = e :: commits i h := by
  unfold commits
  rw [List.filterMap_cons, he]

theorem commits_of_none (he : committedEdit i x a = none)
    (h : List (Pool Site Proc × PoolLabel Arrival)) : commits i ((x, a) :: h) = commits i h := by
  unfold commits
  rw [List.filterMap_cons, he]

end

/-- What the edits ask the row to be, the first one's word being last. -/
def asked (es : List Edit) : Columns := es.foldr (fun e c => e.asks.orElse c) {}

theorem asked_append {α : Type} (col : Columns → Option α)
    (hcol : ∀ c c', col (c.orElse c') = (col c <|> col c')) {v : α} {later earlier : List Edit}
    (he : col e.asks = some v) (hlater : ∀ e ∈ later, ∀ w ∈ col e.asks, w = v) :
    col (asked (later ++ e :: earlier)) = some v := by
  induction later with
  | nil =>
    show col (e.asks.orElse (asked earlier)) = some v
    rw [hcol, he]
    rfl
  | cons e' later ih =>
    show col (e'.asks.orElse (asked (later ++ e :: earlier))) = some v
    rw [hcol, ih fun e he => hlater e (List.mem_cons_of_mem e' he)]
    cases hw : col e'.asks with
    | none => rfl
    | some w => rw [hlater e' List.mem_cons_self w hw]; rfl

section Run

variable {crypto : Crypto} {x x' : Pool Site Proc} {a : PoolLabel Arrival} {i : KeyId}

theorem act_assign {s : Site} {os : List Proc} {p : Proc} {cols : Columns} {q : Option Proc}
    (hm : p.act crypto s os = some (.run (.assign i cols) q)) : ∃ p' e, p = .edit p' ∧ p'.id = i ∧
      p'.existing = some e ∧ cols = p'.edit.writes e ∧ p'.commits s os = true := by
  cases Proc.moves hm with
  | run hc => cases hc
  | @assign p e hex => exact ⟨p, e, rfl, rfl, hex, rfl, EditProc.commits_iff.2 ⟨e, hex, hm⟩⟩

theorem committedEdit_of_ne {j : Nat} {p : Proc} {m : Move} (hp : x.procs[j]? = some p)
    (hm : p.act crypto x.store (x.procs.eraseIdx j) = some m)
    (hne : ∀ i cols q, m ≠ .run (.assign i cols) q) : committedEdit i x (.run j) = none := by
  unfold committedEdit
  simp only [hp]
  cases p with
  | edit p =>
    refine if_neg fun h => ?_
    obtain ⟨e, -, hact⟩ := EditProc.commits_iff.1 h.2
    exact hne _ _ _ (Option.some.inj (hm.symm.trans hact))
  | auth | clock | organization => rfl

theorem committedEdit_of_commits {j : Nat} {p : EditProc} (hp : x.procs[j]? = some (.edit p))
    (hc : p.commits x.store (x.procs.eraseIdx j) = true) :
    committedEdit i x (.run j) = if p.id = i then some p.edit else none := by
  unfold committedEdit
  simp only [hp, hc, and_true]

/-- **One step**: the commit of an edit assigns what the request asks for, and
nothing else changes the row. -/
theorem key_of_next (hx : PoolSpec.Holds (keyRequests crypto) (fun _ => True) Proc.Fresh
    (fun _ _ _ => True) x) (hn : (keyRequests crypto).next x a = some x') {k' : ApiKey}
    (hk' : x'.store.key i = some k') : ∃ k, x.store.key i = some k ∧
      ((∃ e, committedEdit i x a = some e ∧ k' = e.asks.assign k) ∨
        committedEdit i x a = none ∧ k.SameColumns k') := by
  cases a with
  | ask a =>
    obtain rfl := Option.some.inj hn
    exact ⟨k', hk', .inr ⟨rfl, .refl k'⟩⟩
  | drop j =>
    obtain ⟨p, hp, rfl⟩ := Option.map_eq_some_iff.1 hn
    exact ⟨k', hk', .inr ⟨rfl, .refl k'⟩⟩
  | run j =>
    obtain ⟨p, m, hp, hm, rfl⟩ := keyRequests_run hn
    cases m with
    | stay | quit =>
      exact ⟨k', hk', .inr ⟨committedEdit_of_ne hp hm (by simp), .refl k'⟩⟩
    | run c q =>
      by_cases hc : ∃ i cols, c = .assign i cols
      · obtain ⟨i', cols, rfl⟩ := hc
        obtain ⟨p, e, rfl, rfl, hex, rfl, hcommits⟩ := act_assign hm
        have hrow : ((Command.assign p.id (p.edit.writes e)).run x.store).key i = some k' := hk'
        rw [Command.key_assign] at hrow
        obtain ⟨k, hk, rfl⟩ := Option.map_eq_some_iff.1 hrow
        rw [committedEdit_of_commits hp hcommits]
        by_cases hid : i = p.id
        · subst hid
          have hfresh := hx.each _ (List.mem_of_getElem? hp)
          refine ⟨k, hk, .inl ⟨p.edit, if_pos rfl, ?_⟩⟩
          rw [if_pos rfl]
          exact EditProc.Fresh.assign_writes hfresh hex hk
        · rw [if_neg hid, if_neg (Ne.symm hid)]
          exact ⟨k, hk, .inr ⟨rfl, .refl k⟩⟩
      · push Not at hc
        obtain ⟨k, hk, hsame⟩ := Command.key_of_ne_assign hc hk'
        refine ⟨k, hk, .inr ⟨committedEdit_of_ne hp hm fun i cols q h => ?_, hsame⟩⟩
        cases h
        exact hc _ _ rfl

end Run

def keySystem (crypto : Crypto) : Machine := (keyRequests crypto).machine fun _ => True

section System

variable {crypto : Crypto} {x : Pool Site Proc} {h : List (Pool Site Proc × PoolLabel Arrival)}

theorem fresh_of_run (hr : (keySystem crypto).Run x h)
    (hC : (keySystem crypto).Steps (editsApart crypto).step h) :
    PoolSpec.Holds (keyRequests crypto) (fun _ => True) Proc.Fresh (fun _ _ _ => True) x :=
  (edits_fresh crypto).invariant (fun _ _ => trivial) hr hC

/-- **The row shows what was asked for.** -/
theorem asked_shown (i : KeyId) (hr : (keySystem crypto).Run x h)
    (hC : (keySystem crypto).Steps (editsApart crypto).step h) :
    ∀ k, x.store.key i = some k → (asked (commits i h)).Shown k := by
  refine hr.invariant (M := keySystem crypto) (C := (editsApart crypto).step)
    (I := fun x h => ∀ k, x.store.key i = some k → (asked (commits i h)).Shown k) ?_ ?_ hC
  · exact fun _ _ k _ => ⟨nofun, nofun, nofun, nofun⟩
  · intro x h a x' hr hC ih _ hn k' hk'
    obtain ⟨k, hk, ⟨e, he, rfl⟩ | ⟨he, hsame⟩⟩ := key_of_next (fresh_of_run hr hC) hn hk'
    · have hcommits := commits_of_some he h
      exact hcommits ▸ (ih k hk).assign e.asks
    · have hcommits := commits_of_none he h
      exact hcommits ▸ (ih k hk).same hsame

/-- **Revoked and narrowed keys stay so**, while no request sets a column that
another one has read and is about to write back: after a revoke the key is
active only if somebody asked for that, after a `PUT` with queues the queues are
its list until somebody sets others, and a request changes no column it omits. -/
theorem edits_stay (i : KeyId) (hr : (keySystem crypto).Run x h)
    (hC : (keySystem crypto).Steps (editsApart crypto).step h) :
    (∀ later earlier, commits i h = later ++ .revoke :: earlier →
      (∀ e ∈ later, e.asks.isActive ≠ some true) →
      ∀ k, x.store.key i = some k → k.isActive = false) ∧
    (∀ later e earlier queues, commits i h = later ++ e :: earlier → e.asks.queues = some queues →
      (∀ e ∈ later, e.asks.queues = none) → ∀ k, x.store.key i = some k → k.queues = queues) ∧
    ∀ y a y' e, (y, a) ∈ h → (keyRequests crypto).next y a = some y' →
      committedEdit i y a = some e → ∀ k', y'.store.key i = some k' →
      ∃ k, y.store.key i = some k ∧ k' = e.asks.assign k := by
  refine ⟨fun later earlier hcommits hlater k hk => ?_,
    fun later e earlier queues hcommits hq hlater k hk => ?_,
    fun y a y' e hmem hnext he k' hk' => ?_⟩
  · refine (asked_shown i hr hC k hk).isActive false ?_
    rw [hcommits]
    refine asked_append Columns.isActive (fun _ _ => rfl) rfl fun e he w hw => ?_
    cases w with
    | false => rfl
    | true => exact absurd hw (hlater e he)
  · refine (asked_shown i hr hC k hk).queues queues ?_
    rw [hcommits]
    refine asked_append Columns.queues (fun _ _ => rfl) hq fun e he w hw => ?_
    rw [hlater e he] at hw
    cases hw
  · obtain ⟨h₁, h₂, rfl⟩ := List.append_of_mem hmem
    have hfresh := fresh_of_run hr.of_append fun z hz =>
      hC z (List.mem_append_right h₁ (List.mem_cons_of_mem _ hz))
    obtain ⟨k, hk, ⟨e', he', rfl⟩ | ⟨he', -⟩⟩ := key_of_next hfresh hnext hk'
    · cases he.symm.trans he'
      exact ⟨k, hk, rfl⟩
    · cases he.symm.trans he'

end System

def mailKey : ApiKey :=
  { id := 1, organizationId := 7, keyHash := ['k'], queues := [['*']] }

/-- A `PUT` narrows the key, then it is revoked. -/
theorem edits_stay_revoked : ∃ x h, (keySystem .plain).Run x h ∧
    (keySystem .plain).Steps (editsApart .plain).step h ∧
    ∃ k, x.store.key 1 = some k ∧ k.isActive = false ∧ k.queues = [['m']] := by
  obtain ⟨x, h, hr, hC, hp⟩ := (editsApart .plain).run_of_exec (fun _ => True)
    [.ask (.edit (.put { queues := some [['m']] }) 1 7 [] true), .run 0, .run 0, .run 0,
      .ask (.edit .revoke 1 7 [] true), .run 0, .run 0]
    ⟨{ keys := ⟨[mailKey], by decide⟩ }, []⟩
    (fun x => (x.1.store.key 1).isSome && commits 1 x.2 == [.revoke, .put { queues := some [['m']] }])
    ⟨trivial, rfl⟩ (by decide +kernel)
  simp only [Bool.and_eq_true, beq_iff_eq, Option.isSome_iff_exists] at hp
  obtain ⟨⟨k, hk⟩, hedits⟩ := hp
  obtain ⟨hrevoked, hqueues, -⟩ := edits_stay 1 hr hC
  refine ⟨x, h, hr, hC, k, hk, hrevoked [] _ hedits (by simp) k hk, ?_⟩
  exact hqueues [.revoke] _ [] [['m']] hedits rfl (by decide) k hk

/-- A `PUT` that only renames the key read it before the revoke, and makes it active again. -/
theorem rename_reactivates : ∃ x h, (keySystem .plain).Run x h ∧
    commits 1 h = [.put { name := some ['n'] }, .revoke] ∧
    ∃ k, x.store.key 1 = some k ∧ k.isActive = true := by
  obtain ⟨x, h, hr, hp⟩ := Machine.Run.of_exec (keySystem .plain)
    [.ask (.edit (.put { name := some ['n'] }) 1 7 [] true), .run 0,
      .ask (.edit .revoke 1 7 [] true), .run 0, .run 0, .run 1, .run 0]
    ⟨{ keys := ⟨[mailKey], by decide⟩ }, []⟩
    (fun x => (x.1.store.key 1).any (·.isActive) &&
      commits 1 x.2 == [.put { name := some ['n'] }, .revoke])
    ⟨trivial, rfl⟩ (by decide +kernel)
  simp only [Bool.and_eq_true, beq_iff_eq, Option.any_eq_true] at hp
  exact ⟨x, h, hr, hp.2, hp.1⟩

end Spooled.Auth
