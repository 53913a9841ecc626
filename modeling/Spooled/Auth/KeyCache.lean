import Spooled.Auth.KeyStep

/-!
# The cache of key records

A record is written before the reverse mapping that leads to it. An invalidation
therefore finds every record that its key has in the cache if nobody is between
these two writes when it looks the mapping up, and if the mapping it deletes in
the end is not the one of a newer record.
-/

namespace Spooled.Auth

open List

variable {crypto : Crypto} {s : Site} {os : List Proc} {c : Command}

/-! ## What is in the cache, and what requests carry -/

/-- A record stands under the digest of the token its hash matches. -/
structure RecordSane (crypto : Crypto) (s : Site) (d : Text) (r : CachedRecord) (deadline : Time) :
    Prop where
  token : ∃ t, crypto.lookupHash t = d ∧ crypto.verify t r.record.keyHash = true
  hash : r.record.keyHash ∈ s.hashes
  deadline : deadline = r.writtenAt + cacheTtl
  written : r.writtenAt ≤ s.now
  number : r.number < s.recordWrites

structure CacheSane (crypto : Crypto) (s : Site) : Prop where
  /-- The reverse mappings of two keys are apart. -/
  prefixes : ∀ kh ∈ s.hashes, ∀ kh' ∈ s.hashes, hashPrefix kh = hashPrefix kh' → kh = kh'
  records : ∀ d r deadline, s.records d = some (r, deadline) → RecordSane crypto s d r deadline

/-- Requests go by hashes of rows, and an authentication by those its token matches. -/
def Proc.Known (crypto : Crypto) (s : Site) : Proc → Prop
  | .auth p => (∀ r, r ∈ p.phase.verified ∨ r ∈ p.told →
        crypto.verify p.token r.keyHash = true ∧ r.keyHash ∈ s.hashes) ∧
      ∀ r ∈ p.phase.unchecked, r.keyHash ∈ s.hashes
  | .edit p => ∀ kh ∈ p.phase.hash, kh ∈ s.hashes
  | _ => True

variable {d kh : Text} {deadline : Time} {p : AuthProc} {p' : Option Proc} {q : Proc}
  {r : CachedRecord}

theorem RecordSane.of_site {s' : Site}
    (h : RecordSane crypto s d r deadline) (hh : s'.hashes = s.hashes) (hnow : s.now ≤ s'.now)
    (hw : s.recordWrites ≤ s'.recordWrites) : RecordSane crypto s' d r deadline :=
  ⟨h.token, hh ▸ h.hash, h.deadline, h.written.trans hnow, h.number.trans_le hw⟩

theorem CacheSane.run (h : CacheSane crypto s) (hc : ∀ d r, c = .setRecord d r →
      (∃ t, crypto.lookupHash t = d ∧ crypto.verify t r.keyHash = true) ∧ r.keyHash ∈ s.hashes) :
    CacheSane crypto (c.run s) := by
  refine ⟨by rw [Command.hashes_run]; exact h.prefixes, fun d r deadline hr => ?_⟩
  have hnow := Command.now_le_run s c
  have hwrites := Command.recordWrites_le_run s c
  rcases Command.records_run hr with ⟨hr, -⟩ | ⟨r', rfl, rfl, rfl⟩
  · exact (h.records d r deadline hr).of_site (Command.hashes_run s c) hnow hwrites
  · obtain ⟨ht, hh⟩ := hc d r' rfl
    exact ⟨ht, hh, rfl, le_refl _, Nat.lt_succ_self _⟩

theorem Proc.Known.run (h : q.Known crypto s) (c : Command) :
    q.Known crypto (c.run s) := by
  unfold Proc.Known at *
  rw [Command.hashes_run]
  exact h

theorem AuthProc.Follows.known {q : AuthProc} (h : AuthProc.Follows crypto s os p q)
    (hK : CacheSane crypto s) (hp : (Proc.auth p).Known crypto s)
    (hos : ∀ o ∈ os, o.Known crypto s) : (Proc.auth q).Known crypto s := by
  refine ⟨fun r hr => ?_, fun r hr => ?_⟩
  · rw [h.token]
    rcases hr with hr | hr
    · cases h.verified r hr with
      | kept hv => exact hp.1 r (.inl hv)
      | told hv => exact hp.1 r (.inr hv)
      | checked hu hv => exact ⟨hv, hp.2 r hu⟩
      | cached hc =>
        obtain ⟨deadline, hc, -⟩ := Expiring.get_eq_some.1 hc
        obtain ⟨⟨t, ht, hv⟩, hh, -⟩ := hK.records _ _ _ hc
        rw [crypto.lookupHash_inj ht] at hv
        exact ⟨hv, hh⟩
      | @reread r₀ k hv hk => exact hp.1 r₀ (.inl hv)
    · rcases h.told r hr with ht | ⟨o, ho, hf, ht⟩
      · exact hp.1 r (.inr ht)
      · rw [← AuthProc.token_of_flight hf]
        exact (hos _ ho).1 r (.inr ht)
  · rcases h.unchecked r hr with hu | ⟨k, hk, rfl⟩
    · exact hp.2 r hu
    · exact mem_map_of_mem hk

theorem Proc.Known.tell {o : Proc} (ho : o.Known crypto s) (hc : ∀ f scan, c = .publish f scan →
      ∃ p, f = p.flight crypto ∧ p.phase = .publish scan ∧ (Proc.auth p).Known crypto s) :
    (c.tell crypto o).Known crypto s := by
  cases o with
  | edit | clock | organization => cases c <;> exact ho
  | auth o =>
    cases c with
    | publish f scan =>
      obtain ⟨p, rfl, hphase, hp⟩ := hc f scan rfl
      show Proc.Known crypto s (.auth (if _ then _ else _))
      split
      · next hflight =>
        refine ⟨fun r hr => ?_, ho.2⟩
        rcases hr with hr | hr
        · exact ho.1 r (.inl hr)
        · have hv : r ∈ p.phase.verified := by rw [hphase]; exact hr
          rw [show AuthProc.token _ = _ from AuthProc.token_of_flight hflight.1]
          exact hp.1 r (.inl hv)
      · exact ho
    | _ => exact ho

/-- **Requests and cache stay well-formed**, whatever happens. -/
theorem cache_sane (crypto : Crypto) (A : PoolSpec.Allow (keyRequests crypto)) :
    PoolSpec.Kept (keyRequests crypto) A (CacheSane crypto) (Proc.Known crypto)
      fun _ _ _ => True where
  symm _ := trivial
  ask {s a} _ hK := by
    refine ⟨hK, ?_⟩
    cases a with
    | authenticate =>
      refine ⟨fun kh hkh => ?_, fun kh hkh => absurd hkh not_mem_nil⟩
      rcases hkh with hkh | hkh <;> exact absurd hkh not_mem_nil
    | edit => exact fun kh hkh => (by cases hkh)
    | clock | organization => trivial
  ask_other _ _ hq := ⟨hq, trivial⟩
  ask_pair _ := trivial
  stay {s os p p'} he _ hb := by
    refine ⟨?_, fun _ _ => trivial⟩
    cases Proc.moves (keyRequests_stay he) with
    | stay hstays => exact (AuthProc.follows_of_stay hstays).known hb.store hb.own hb.others
    | edit hstays =>
      intro kh hkh
      cases hstays with
      | read hrow h =>
        cases (EditPhase.hash_of_existing h).symm.trans hkh
        exact Site.hash_of_key hrow
      | keep hold h =>
        cases (EditPhase.hash_of_existing h).symm.trans hkh
        exact hb.own _ (EditPhase.hash_of_existing hold)
      | refused => cases hkh
      | mapped h hd | unmapped h hd =>
        cases hkh
        exact hb.own _ (by rw [h]; rfl)
  share {s os p s' p' tell} he _ hb := by
    obtain ⟨c, hm, rfl, rfl⟩ := keyRequests_share he
    suffices hall : (∀ d r, c = .setRecord d r → (∃ t, crypto.lookupHash t = d ∧
          crypto.verify t r.keyHash = true) ∧ r.keyHash ∈ s.hashes) ∧
        (∀ r ∈ p', Proc.Known crypto s r) ∧ ∀ f scan, c = .publish f scan →
          ∃ p, f = p.flight crypto ∧ p.phase = .publish scan ∧ (Proc.auth p).Known crypto s from
      ⟨hb.store.run hall.1, fun r hr => ⟨(hall.2.1 r hr).run c, fun _ _ => trivial⟩,
        fun r hr => ((hb.others r hr).tell hall.2.2).run c, fun _ _ _ _ _ => trivial⟩
    have hedit : ∀ {p : EditProc} {phase : EditPhase}, (Proc.edit p).Known crypto s →
        phase.hash = p.phase.hash → ∀ r ∈ some (p.goTo phase), Proc.Known crypto s r := by
      rintro p phase hp hhash r ⟨⟩
      exact fun kh hkh => hp kh (hhash ▸ hkh)
    cases Proc.moves hm with
    | @run p q' c hruns =>
      refine ⟨fun d r hc => ?_, fun r hr => ?_, fun f scan hc => ?_⟩
      · subst hc
        cases hruns with
        | setRecord h =>
          obtain ⟨hv, hh⟩ := hb.own.1 r (.inl (by rw [h]; exact mem_cons_self))
          exact ⟨⟨p.token, rfl, hv⟩, hh⟩
      · cases hr
        exact (AuthProc.follows_of_run hruns).known hb.store hb.own hb.others
      · subst hc
        obtain ⟨hf, hphase⟩ := hruns.publish
        exact ⟨p, hf, hphase, hb.own⟩
    | assign hex => exact ⟨nofun, hedit hb.own (EditPhase.hash_of_existing hex).symm, nofun⟩
    | delRecord h | delReverse h => exact ⟨nofun, hedit hb.own (by rw [h]; rfl), nofun⟩
    | clock | organization => exact ⟨nofun, fun r hr => (by cases hr), nofun⟩

/-! ## Records and the mappings that lead to them -/

def AuthPhase.mapping : AuthPhase → Option Text
  | .setReverse r => some r.keyHash
  | _ => none

def Proc.mapping : Proc → Option Text
  | .auth p => p.phase.mapping
  | _ => none

/-- No live record stands under the digest the mapping leads to. -/
def Site.mappingUnused (s : Site) (kh : Text) : Bool :=
  (s.reverse.get s.now (hashPrefix kh)).all fun d => (s.records.get s.now d).isNone

/-- The invalidation looks a mapping up when nobody is between the writes of a record and its
mapping, and deletes none that leads to a live record, except where a new one is on its way. -/
def EditProc.undisturbed (s : Site) (os : List Proc) (p : EditProc) : Bool :=
  match p.phase with
  | .readReverse kh => os.all fun q => q.mapping != some kh
  | .delReverse kh _ => s.mappingUnused kh || os.any fun q => q.mapping == some kh
  | _ => true

/-- Invalidations come in no such gap, and no request is dropped in one. -/
def sweepsApart (crypto : Crypto) : PoolSpec.Allow (keyRequests crypto) where
  run s os p := match p with
    | .edit p => p.undisturbed s os = true
    | _ => True
  drop _ _ p := p.mapping = none

section

variable (crypto : Crypto) (s : (keyRequests crypto).Store) (os : List (keyRequests crypto).Proc)

instance (a : (keyRequests crypto).Ask) : Decidable ((sweepsApart crypto).ask s a) := .isTrue trivial

instance (p : (keyRequests crypto).Proc) : Decidable ((sweepsApart crypto).run s os p) :=
  match p with
  | .edit p => inferInstanceAs (Decidable (p.undisturbed s os = true))
  | .auth _ | .clock _ | .organization _ _ => .isTrue trivial

instance (p : (keyRequests crypto).Proc) : Decidable ((sweepsApart crypto).drop s os p) :=
  inferInstanceAs (Decidable (Proc.mapping p = none))

end

/-- The mapping leads to the record for as long as the record lives. -/
def Site.Mapped (s : Site) (d : Text) (r : CachedRecord) : Prop :=
  ∃ deadline, s.reverse (hashPrefix r.record.keyHash) = some (d, deadline) ∧
    r.writtenAt + cacheTtl ≤ deadline

/-- Every live record is mapped, or is about to be. -/
def Site.AllMapped (s : Site) (ps : List Proc) : Prop :=
  ∀ d r, s.records.get s.now d = some r →
    s.Mapped d r ∨ ∃ q ∈ ps, q.mapping = some r.record.keyHash

/-- How far an invalidation has come: the records of its key from before it started stand under
one digest, or are gone. -/
def EditPhase.Swept (s : Site) : EditPhase → Prop
  | .delRecord kh d since => since ≤ s.recordWrites ∧ ∀ d' r, s.records.get s.now d' = some r →
      r.record.keyHash = kh → r.number < since → d' = d
  | .delReverse kh since | .finished kh since => since ≤ s.recordWrites ∧
      ∀ d r, s.records.get s.now d = some r → r.record.keyHash = kh → since ≤ r.number
  | _ => True

def Proc.Swept (s : Site) : Proc → Prop
  | .edit p => p.phase.Swept s
  | _ => True

theorem EditPhase.Swept.run {phase : EditPhase} (h : phase.Swept s) (c : Command) :
    phase.Swept (c.run s) := by
  have hle := Command.recordWrites_le_run s c
  cases phase with
  | delRecord kh d since =>
    refine ⟨h.1.trans hle, fun d' r hr hkh hlt => ?_⟩
    rcases Command.record_of_run hr with ⟨hr, -⟩ | ⟨r', -, rfl⟩
    · exact h.2 d' r hr hkh hlt
    · exact absurd hlt (Nat.not_lt.2 h.1)
  | delReverse kh since | finished kh since =>
    refine ⟨h.1.trans hle, fun d' r hr hkh => ?_⟩
    rcases Command.record_of_run hr with ⟨hr, -⟩ | ⟨r', -, rfl⟩
    · exact h.2 d' r hr hkh
    · exact h.1
  | read | lockCap | forUpdate | write | commit | readReverse | refused => trivial

theorem EditPhase.Swept.delRecord {since : Nat} (h : (EditPhase.delRecord kh d since).Swept s) :
    (EditPhase.delReverse kh since).Swept ((Command.delRecord d).run s) := by
  refine ⟨h.1, fun d' r hr hkh => ?_⟩
  rcases Command.record_of_run hr with ⟨hr, hne⟩ | ⟨r', hc, -⟩
  · by_contra hlt
    exact hne (congrArg Command.delRecord (h.2 d' r hr hkh (Nat.not_le.1 hlt)).symm)
  · cases hc

theorem Proc.Swept.run (h : q.Swept s) (c : Command) : q.Swept (c.run s) := by
  cases q with
  | edit q => exact EditPhase.Swept.run h c
  | auth | clock | organization => trivial

theorem Proc.swept_tell (h : q.Swept s) : (c.tell crypto q).Swept s := by
  cases q with
  | auth q => cases c <;> trivial
  | edit | clock | organization => cases c <;> exact h

theorem Proc.mapping_tell (c : Command) (q : Proc) : (c.tell crypto q).mapping = q.mapping := by
  cases q with
  | auth q =>
    cases c with
    | publish f scan =>
      show Proc.mapping (.auth (if _ then _ else _)) = _
      split <;> rfl
    | _ => rfl
  | edit | clock | organization => cases c <;> rfl

/-! ## Steps -/

theorem Site.AllMapped.drop {p : Proc} (h : s.AllMapped (p :: os)) (hmap : p.mapping = none) :
    s.AllMapped os := by
  intro d r hr
  rcases h d r hr with hm | ⟨q, hq, hqm⟩
  · exact .inl hm
  · rcases mem_cons.1 hq with rfl | hq
    · rw [hmap] at hqm
      cases hqm
    · exact .inr ⟨q, hq, hqm⟩

theorem mapping_mem_tell (hq : q ∈ os)
    (h : q.mapping = some kh) : ∃ q ∈ p'.toList ++ os.map (c.tell crypto), q.mapping = some kh :=
  ⟨c.tell crypto q, mem_append_right _ (mem_map_of_mem hq), by
    rw [Proc.mapping_tell]; exact h⟩

theorem Site.AllMapped.of_reverse {p : Proc} (h : s.AllMapped (p :: os))
    (hmap : p.mapping = none) (hset : ∀ d r, c ≠ .setRecord d r)
    (hrev : (c.run s).reverse = s.reverse) :
    (c.run s).AllMapped (p'.toList ++ os.map (c.tell crypto)) := by
  intro d r hr
  rcases Command.record_of_run hr with ⟨hr, -⟩ | ⟨r', hc, -⟩
  · rcases h.drop hmap d r hr with hm | ⟨q, hq, hqm⟩
    · left
      unfold Site.Mapped
      rw [hrev]
      exact hm
    · exact .inr (mapping_mem_tell hq hqm)
  · exact absurd hc (hset d r')

theorem Site.AllMapped.setRecord {r : ApiKeyRecord} (h : s.AllMapped (.auth p :: os))
    (hphase : p.phase = .setRecord r) :
    ((Command.setRecord (p.digest crypto) r).run s).AllMapped
      ((some (Proc.auth { p with phase := .setReverse r })).toList ++
        os.map (Command.tell crypto (.setRecord (p.digest crypto) r))) := by
  intro d r' hr
  rcases Command.record_of_run hr with ⟨hr, -⟩ | ⟨r'', hc, rfl⟩
  · rcases h.drop (congrArg AuthPhase.mapping hphase) d r' hr with hm | ⟨q, hq, hqm⟩
    · exact .inl hm
    · exact .inr (mapping_mem_tell hq hqm)
  · cases hc
    exact .inr ⟨_, mem_cons_self, rfl⟩

theorem RecordSane.digest (h : RecordSane crypto s d r deadline)
    (hv : crypto.verify p.token r.record.keyHash = true) : d = p.digest crypto := by
  obtain ⟨t, rfl, ht⟩ := h.token
  exact congrArg crypto.lookupHash (crypto.verify_inj ht hv)

theorem Site.AllMapped.setReverse {r : ApiKeyRecord}
    (h : s.AllMapped (.auth p :: os)) (hphase : p.phase = .setReverse r)
    (hK : CacheSane crypto s) (hp : (Proc.auth p).Known crypto s) :
    ((Command.setReverse (hashPrefix r.keyHash) (p.digest crypto)).run s).AllMapped
      (p'.toList ++ os.map
        (Command.tell crypto (.setReverse (hashPrefix r.keyHash) (p.digest crypto)))) := by
  intro d r' hr
  obtain ⟨hv, hhash⟩ := hp.1 r (.inl (by rw [hphase]; exact mem_cons_self))
  have hr' : s.records.get s.now d = some r' := hr
  obtain ⟨deadline, hr'', -⟩ := Expiring.get_eq_some.1 hr'
  have hsane := hK.records d r' deadline hr''
  by_cases hkh : r'.record.keyHash = r.keyHash
  · left
    refine ⟨s.now + cacheTtl, ?_, Nat.add_le_add_right hsane.written _⟩
    rw [hkh, hsane.digest (hkh.symm ▸ hv)]
    exact Expiring.set_self
  · have hpre : hashPrefix r'.record.keyHash ≠ hashPrefix r.keyHash := fun he =>
      hkh (hK.prefixes _ hsane.hash _ hhash he)
    rcases h d r' hr' with ⟨dl, hm, hle⟩ | ⟨q, hq, hqm⟩
    · exact .inl ⟨dl, (Expiring.set_of_ne hpre).trans hm, hle⟩
    · rcases mem_cons.1 hq with rfl | hq
      · rw [show Proc.mapping (.auth p) = _ from congrArg AuthPhase.mapping hphase] at hqm
        exact absurd (Option.some.inj hqm).symm hkh
      · exact .inr (mapping_mem_tell hq hqm)

theorem Site.Mapped.get (h : s.Mapped d r)
    (hK : RecordSane crypto s d r deadline) (hlive : s.now < deadline) :
    s.reverse.get s.now (hashPrefix r.record.keyHash) = some d := by
  obtain ⟨dl, hm, hle⟩ := h
  exact Expiring.get_eq_some.2 ⟨dl, hm, lt_of_lt_of_le (hK.deadline ▸ hlive) hle⟩

theorem Site.AllMapped.delReverse {p : Proc}
    (h : s.AllMapped (p :: os)) (hK : CacheSane crypto s) (hkh : kh ∈ s.hashes)
    (hmap : p.mapping = none)
    (hA : (s.mappingUnused kh || os.any fun q => q.mapping == some kh) = true) :
    ((Command.delReverse (hashPrefix kh)).run s).AllMapped
      (p'.toList ++ os.map (Command.tell crypto (.delReverse (hashPrefix kh)))) := by
  intro d r hr
  have hr' : s.records.get s.now d = some r := hr
  obtain ⟨deadline, hr'', hlive⟩ := Expiring.get_eq_some.1 hr'
  have hsane := hK.records d r deadline hr''
  rcases h.drop hmap d r hr' with hm | ⟨q, hq, hqm⟩
  · by_cases he : r.record.keyHash = kh
    · -- the mapping that goes is the record's own
      rcases Bool.or_eq_true_iff.1 hA with hunused | hany
      · unfold Site.mappingUnused at hunused
        rw [← he, hm.get hsane hlive] at hunused
        simp [hr'] at hunused
      · obtain ⟨q, hq, hqm⟩ := any_eq_true.1 hany
        exact .inr (mapping_mem_tell hq (he ▸ eq_of_beq hqm))
    · left
      have hpre : hashPrefix r.record.keyHash ≠ hashPrefix kh := fun hp =>
        he (hK.prefixes _ hsane.hash _ hkh hp)
      obtain ⟨dl, hm, hle⟩ := hm
      exact ⟨dl, (Expiring.delete_of_ne hpre).trans hm, hle⟩
  · exact .inr (mapping_mem_tell hq hqm)

theorem AuthProc.mapping_of_stay {p' : Proc}
    (h : p.act crypto s os = some (.stay p')) : p.phase.mapping = none := by
  cases hphase : p.phase with
  | setReverse r => simp [AuthProc.act, hphase] at h
  | _ => rfl

theorem Proc.mapping_of_quit {p : Proc} (h : p.act crypto s os = some .quit) : p.mapping = none := by
  cases Proc.moves h with
  | quit ha => exact congrArg AuthPhase.mapping ha
  | edited => rfl

theorem Site.AllMapped.cons (h : s.AllMapped os) (p : Proc) : s.AllMapped (p :: os) := by
  intro d r hr
  rcases h d r hr with hm | ⟨q, hq, hqm⟩
  · exact .inl hm
  · exact .inr ⟨q, mem_cons_of_mem p hq, hqm⟩

/-- **The look-up finds what there is**: nobody being in between, every live record of the key
stands under the digest the mapping leads to. -/
theorem EditProc.Stays.swept {p : EditProc} {phase : EditPhase} (h : EditProc.Stays s p phase)
    (hK : CacheSane crypto s) (hall : s.AllMapped os) (hA : p.undisturbed s os = true) :
    phase.Swept s := by
  have hfound : ∀ {kh}, p.phase = .readReverse kh → ∀ d r, s.records.get s.now d = some r →
      r.record.keyHash = kh → s.reverse.get s.now (hashPrefix kh) = some d := by
    intro kh hphase d r hr hkh
    obtain ⟨deadline, hr', hlive⟩ := Expiring.get_eq_some.1 hr
    rcases hall d r hr with hm | ⟨q, hq, hqm⟩
    · exact hkh ▸ hm.get (hK.records d r deadline hr') hlive
    · unfold EditProc.undisturbed at hA
      rw [hphase] at hA
      have hne := all_eq_true.1 hA q hq
      rw [hqm, hkh] at hne
      simp at hne
  cases h with
  | read hk h | keep hk h => cases phase <;> trivial
  | refused => trivial
  | mapped hphase hd =>
    refine ⟨le_refl _, fun d' r hr hkh _ => ?_⟩
    exact Option.some.inj ((hfound hphase d' r hr hkh).symm.trans hd)
  | unmapped hphase hd =>
    refine ⟨le_refl _, fun d' r hr hkh => ?_⟩
    cases (hfound hphase d' r hr hkh).symm.trans hd

/-- **Records stay within reach**, and invalidations sweep them. -/
theorem cache_swept (crypto : Crypto) :
    PoolSpec.KeptAll (keyRequests crypto) (sweepsApart crypto) (CacheSane crypto)
      (Proc.Known crypto) (fun _ _ _ => True)
      fun s ps => Site.AllMapped s ps ∧ ∀ q ∈ ps, Proc.Swept s q where
  perm hperm h := by
    refine ⟨fun d r hr => ?_, fun q hq => h.2 q (hperm.mem_iff.2 hq)⟩
    rcases h.1 d r hr with hm | ⟨q, hq, hqm⟩
    · exact .inl hm
    · exact .inr ⟨q, hperm.mem_iff.1 hq, hqm⟩
  ask {s a ps} _ _ _ h := by
    refine ⟨h.1.cons _, forall_mem_cons.2 ⟨?_, h.2⟩⟩
    cases a <;> trivial
  stay {s os p p'} he hA hb h := by
    have hm := keyRequests_stay he
    have hos := (forall_mem_cons.1 h.2).2
    cases Proc.moves hm with
    | stay =>
      exact ⟨(h.1.drop (AuthProc.mapping_of_stay hm)).cons _, forall_mem_cons.2 ⟨trivial, hos⟩⟩
    | edit hstays =>
      have hall := h.1.drop rfl
      refine ⟨hall.cons _, forall_mem_cons.2 ⟨?_, hos⟩⟩
      exact hstays.swept hb.store hall hA
  quit {s os p} he _ _ h :=
    ⟨h.1.drop (Proc.mapping_of_quit (keyRequests_quit he)), (forall_mem_cons.1 h.2).2⟩
  drop hA _ h := ⟨h.1.drop hA, (forall_mem_cons.1 h.2).2⟩
  share {s os p s' p' tell} he hA hb h := by
    obtain ⟨c, hm, rfl, rfl⟩ := keyRequests_share he
    have hos : ∀ q ∈ os.map (c.tell crypto), q.Swept (c.run s) := by
      intro q hq
      obtain ⟨q', hq', rfl⟩ := mem_map.1 hq
      exact Proc.swept_tell ((h.2 q' (mem_cons_of_mem p hq')).run c)
    suffices hown : (c.run s).AllMapped (Option.toList (α := Proc) p' ++ os.map (c.tell crypto)) ∧
        ∀ q ∈ p', Proc.Swept (c.run s) q by
      refine ⟨hown.1, fun q hq => ?_⟩
      rcases mem_append.1 hq with hq | hq
      · exact hown.2 q (Option.mem_toList.1 hq)
      · exact hos q hq
    cases Proc.moves hm with
    | @run p q c hruns =>
      refine ⟨?_, fun q hq => (by cases hq; trivial)⟩
      have hplain : p.phase.mapping = none → (∀ d r, c ≠ .setRecord d r) →
          (∀ pre d, c ≠ .setReverse pre d) → (∀ pre, c ≠ .delReverse pre) →
          (c.run s).AllMapped ((some (Proc.auth q)).toList ++ os.map (c.tell crypto)) :=
        fun hmap hset hrev hdel => h.1.of_reverse hmap hset (Command.reverse_of_ne hrev hdel)
      cases hruns with
      | setRecord hp => exact h.1.setRecord hp
      | setReverse hp => exact h.1.setReverse hp hb.store hb.own
      | setMiss hp | charge hp | overBudget hp | backfill hp | missed hp | found hp | busy hp
      | decr hp | refunded hp | del hp => exact hplain (by rw [hp]; rfl) nofun nofun nofun
    | assign =>
      refine ⟨h.1.of_reverse rfl (by simp) rfl, fun q hq => ?_⟩
      cases hq
      trivial
    | @delRecord p kh d since hphase =>
      refine ⟨h.1.of_reverse rfl (by simp) rfl, fun q hq => ?_⟩
      cases hq
      have hp : p.phase.Swept s := h.2 _ mem_cons_self
      rw [hphase] at hp
      exact hp.delRecord
    | @delReverse p kh since hphase =>
      have hkh : kh ∈ s.hashes := hb.own kh (by rw [hphase]; rfl)
      have hA' : p.undisturbed s os = true := hA
      unfold EditProc.undisturbed at hA'
      rw [hphase] at hA'
      refine ⟨h.1.delReverse hb.store hkh rfl hA', fun q hq => ?_⟩
      cases hq
      have hp : p.phase.Swept s := h.2 _ mem_cons_self
      rw [hphase] at hp
      have hdone : (EditPhase.finished kh since).Swept s := hp
      exact hdone.run _
    | clock | organization =>
      exact ⟨h.1.of_reverse rfl (by simp) rfl, fun q hq => (by cases hq)⟩

/-! ## Where records come from -/

/-- Some request with the digest read the key as active, and these are the rights it read. -/
def ReadActive (crypto : Crypto) (h : List (Pool Site Proc × PoolLabel Arrival)) (d : Text)
    (r : ApiKeyRecord) : Prop :=
  ∃ z j q r₀ k, (z, PoolLabel.run j) ∈ h ∧ z.procs[j]? = some (.auth q) ∧ q.digest crypto = d ∧
    q.phase = .reread r₀ ∧ z.store.key r₀.id = some k ∧ k.isActive = true ∧ r = r₀.refreshed k

/-- A request that had done so wrote the record at the time that it bears. -/
def WrittenActive (crypto : Crypto) (h : List (Pool Site Proc × PoolLabel Arrival)) (d : Text)
    (r : CachedRecord) : Prop :=
  ∃ h₁ z j h₂ q, h = h₁ ++ (z, PoolLabel.run j) :: h₂ ∧ z.procs[j]? = some (.auth q) ∧
    q.digest crypto = d ∧ q.phase = .setRecord r.record ∧ z.store.now = r.writtenAt ∧
    ReadActive crypto h₂ d r.record

section Provenance

variable {h : List (Pool Site Proc × PoolLabel Arrival)} {x x' : Pool Site Proc}
  {a : PoolLabel Arrival} {d : Text}

variable {p q : AuthProc} {r : ApiKeyRecord}

theorem ReadActive.cons (hr : ReadActive crypto h d r)
    (z : Pool Site Proc × PoolLabel Arrival) : ReadActive crypto (z :: h) d r := by
  obtain ⟨y, j, q, r₀, k, hmem, hrest⟩ := hr
  exact ⟨y, j, q, r₀, k, mem_cons_of_mem z hmem, hrest⟩

theorem ReadActive.isActive (hr : ReadActive crypto h d r) :
    r.isActive = true := by
  obtain ⟨y, j, q, r₀, k, -, -, -, -, -, hactive, rfl⟩ := hr
  exact hactive

theorem WrittenActive.cons {r : CachedRecord} (hr : WrittenActive crypto h d r)
    (z : Pool Site Proc × PoolLabel Arrival) : WrittenActive crypto (z :: h) d r := by
  obtain ⟨h₁, y, j, h₂, q, rfl, hrest⟩ := hr
  exact ⟨z :: h₁, y, j, h₂, q, rfl, hrest⟩

theorem AuthProc.Stays.setRecord
    (h : AuthProc.Stays crypto s os p q) (hq : q.phase = .setRecord r) :
    ∃ r₀ k, p.phase = .reread r₀ ∧ s.key r₀.id = some k ∧ k.isActive = true ∧
      r = r₀.refreshed k := by
  cases h with
  | @reread r₀ k h hk ha =>
    cases hq
    exact ⟨r₀, k, h, hk, ha, rfl⟩
  | @unindexed u h hk | @unverified u r h hv => cases u <;> cases hq
  | @verified u r' h hv =>
    rcases found_cases p r' u with ⟨he, -⟩ | ⟨he, -⟩ | ⟨he, -⟩ <;> cases he.symm.trans hq
  | @told scan h hl ht => cases scan <;> cases hq
  | _ => cases hq

theorem AuthProc.Runs.not_setRecord (h : AuthProc.Runs crypto s p c q)
    (r : ApiKeyRecord) : q.phase ≠ .setRecord r := by
  intro hq
  cases h with
  | @refunded a h | @del a h => cases a <;> cases hq
  | _ => cases hq

/-- **Every record has its origin**, and every record about to be written too. -/
structure Traced (crypto : Crypto) (x : Pool Site Proc)
    (h : List (Pool Site Proc × PoolLabel Arrival)) : Prop where
  records : ∀ d r deadline, x.store.records d = some (r, deadline) → WrittenActive crypto h d r
  writers : ∀ p, Proc.auth p ∈ x.procs → ∀ r, p.phase = .setRecord r →
    ReadActive crypto h (p.digest crypto) r

theorem readActive_of_stay {j : Nat} (hp : x.procs[j]? = some (.auth p))
    (hstays : AuthProc.Stays crypto x.store (x.procs.eraseIdx j) p q) :
    ∀ r, q.phase = .setRecord r →
      ReadActive crypto ((x, .run j) :: h) (q.digest crypto) r := by
  intro r hq
  obtain ⟨r₀, k, hphase, hk, hactive, hr⟩ := hstays.setRecord hq
  have htoken : p.digest crypto = q.digest crypto :=
    congrArg crypto.lookupHash (AuthProc.follows_of_stay hstays).token.symm
  exact ⟨x, j, p, r₀, k, mem_cons_self, hp, htoken, hphase, hk, hactive, hr⟩

theorem Traced.step (hx : Traced crypto x h) (hn : (keyRequests crypto).next x a = some x') :
    Traced crypto x' ((x, a) :: h) := by
  have hold : ∀ p, Proc.auth p ∈ x.procs → ∀ r, p.phase = .setRecord r →
      ReadActive crypto ((x, a) :: h) (p.digest crypto) r :=
    fun p hp r hr => (hx.writers p hp r hr).cons _
  have hrecords : ∀ d r deadline, x.store.records d = some (r, deadline) →
      WrittenActive crypto ((x, a) :: h) d r := fun d r deadline hr => (hx.records d r deadline hr).cons _
  cases a with
  | ask a =>
    obtain rfl := Option.some.inj hn
    refine ⟨hrecords, fun p hp r hr => ?_⟩
    rcases mem_cons.1 hp with hp | hp
    · cases a <;> cases hp
      cases hr
    · exact hold p hp r hr
  | drop j =>
    obtain ⟨p, -, rfl⟩ := Option.map_eq_some_iff.1 hn
    exact ⟨hrecords, fun p hp => hold p (mem_of_mem_eraseIdx hp)⟩
  | run j =>
    obtain ⟨p, m, hp, hm, rfl⟩ := keyRequests_run hn
    have hothers : ∀ p, Proc.auth p ∈ x.procs.eraseIdx j → ∀ r, p.phase = .setRecord r →
        ReadActive crypto ((x, .run j) :: h) (p.digest crypto) r :=
      fun p hp => hold p (mem_of_mem_eraseIdx hp)
    have hmoves := Proc.moves hm
    cases m with
    | stay p' =>
      refine ⟨hrecords, fun q hq r hr => ?_⟩
      rcases mem_cons.1 hq with hq | hq
      · subst hq
        cases hmoves with | stay hstays => exact readActive_of_stay hp hstays r hr
      · exact hothers q hq r hr
    | quit => exact ⟨hrecords, hothers⟩
    | run c q =>
      refine ⟨fun d r deadline hr => ?_, fun q' hq' r hr => ?_⟩
      · rcases Command.records_run hr with ⟨hr, -⟩ | ⟨r', rfl, rfl, -⟩
        · exact hrecords d r deadline hr
        · -- the writer had the record from its own re-read
          cases hmoves with
          | @run p _ _ hruns =>
            cases hruns with
            | setRecord hphase =>
              exact ⟨[], x, j, h, p, rfl, hp, rfl, hphase, rfl,
                hx.writers p (mem_of_getElem? hp) r' hphase⟩
      · rcases mem_append.1 hq' with hown | hother
        · cases hmoves with
          | run hruns =>
            cases mem_singleton.1 hown
            exact absurd hr (hruns.not_setRecord r)
          | assign | delRecord | delReverse => cases mem_singleton.1 hown
          | clock | organization => exact absurd hown not_mem_nil
        · obtain ⟨o, ho, hto⟩ := mem_map.1 hother
          obtain ⟨q₀, ticket, rfl, rfl⟩ := Command.tell_eq_auth hto
          exact hothers q₀ ho r hr

end Provenance

/-! ## Runs -/

/-- The cache is empty at first, and no two keys share the prefix that mappings go by. -/
structure Site.CacheStart (s : Site) : Prop where
  records : s.records = .empty
  prefixes : ∀ k ∈ s.keys.rows, ∀ k' ∈ s.keys.rows,
    hashPrefix k.keyHash = hashPrefix k'.keyHash → k.id = k'.id

theorem Site.CacheStart.sane (h : s.CacheStart) : CacheSane crypto s := by
  refine ⟨fun kh hkh kh' hkh' he => ?_, fun d r deadline hr => ?_⟩
  · obtain ⟨k, hk, rfl⟩ := mem_map.1 hkh
    obtain ⟨k', hk', rfl⟩ := mem_map.1 hkh'
    have hfind := Table.find_key hk
    rw [h.prefixes k hk k' hk' he, Table.find_key hk'] at hfind
    exact congrArg ApiKey.keyHash (Option.some.inj hfind).symm
  · rw [h.records] at hr
    cases hr

def cacheSystem (crypto : Crypto) : Machine := (keyRequests crypto).machine Site.CacheStart

section System

variable {x x' : Pool Site Proc} {a : PoolLabel Arrival}
  {h : List (Pool Site Proc × PoolLabel Arrival)}

theorem traced_of_run (hr : (cacheSystem crypto).Run x h) : Traced crypto x h := by
  refine hr.invariant (M := cacheSystem crypto) (C := fun _ _ => True)
    (I := fun x h => Traced crypto x h) (fun x hx => ?_)
    (fun x h a x' _ _ hx _ hn => hx.step hn) fun _ _ => trivial
  refine ⟨fun d r deadline hr => ?_, fun p hp => ?_⟩
  · rw [hx.1.records] at hr
    cases hr
  · rw [hx.2] at hp
    exact absurd hp not_mem_nil

theorem EditPhase.Swept.next {phase : EditPhase} (hp : phase.Swept x.store)
    (hn : (keyRequests crypto).next x a = some x') : phase.Swept x'.store := by
  cases a with
  | ask a =>
    obtain rfl := Option.some.inj hn
    exact hp
  | drop j =>
    obtain ⟨p, -, rfl⟩ := Option.map_eq_some_iff.1 hn
    exact hp
  | run j =>
    obtain ⟨p, m, -, -, rfl⟩ := keyRequests_run hn
    cases m with
    | stay | quit => exact hp
    | run c q => exact hp.run c

/-- An invalidation for the hash has finished; it started after `since` record writes. -/
def finishedIn (y : Pool Site Proc) (kh : Text) (since : Nat) : Bool :=
  y.procs.any fun
    | .edit p => p.phase == .finished kh since
    | _ => false

theorem finishedIn_iff {y : Pool Site Proc} {kh : Text} {since : Nat} :
    finishedIn y kh since = true ↔ ∃ p, Proc.edit p ∈ y.procs ∧ p.phase = .finished kh since := by
  unfold finishedIn
  rw [any_eq_true]
  constructor
  · rintro ⟨q, hq, hf⟩
    cases q with
    | edit p => exact ⟨p, hq, eq_of_beq hf⟩
    | auth | clock | organization => cases hf
  · rintro ⟨p, hp, hf⟩
    exact ⟨.edit p, hp, beq_iff_eq.2 hf⟩

theorem swept_of_run (hr : (cacheSystem crypto).Run x h)
    (hC : (cacheSystem crypto).Steps (sweepsApart crypto).step h) {kh : Text} {since : Nat}
    (hf : finishedIn x kh since = true) : (EditPhase.finished kh since).Swept x.store := by
  have hstart : ∀ s : Site, s.CacheStart → s.AllMapped [] := by
    intro s hs d r hr
    obtain ⟨deadline, hr, -⟩ := Expiring.get_eq_some.1 hr
    rw [hs.records] at hr
    cases hr
  have hall := (cache_swept crypto).invariant (cache_sane crypto _) (fun s hs => hs.sane)
    (fun s hs => ⟨hstart s hs, fun q hq => absurd hq not_mem_nil⟩) hr hC
  obtain ⟨p, hp, hphase⟩ := finishedIn_iff.1 hf
  have hswept : p.phase.Swept x.store := hall.2 _ hp
  rwa [hphase] at hswept

end System

def cachedKey : ApiKey :=
  { id := 1, organizationId := 7, keyHash := ['k'], lookupHash := some ['k'] }

theorem cacheStart_cachedKey : Site.CacheStart { keys := ⟨[cachedKey], by decide⟩ } := by
  refine ⟨rfl, fun k hk k' hk' _ => ?_⟩
  cases mem_singleton.1 hk
  cases mem_singleton.1 hk'
  rfl

end Spooled.Auth
