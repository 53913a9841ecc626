import Spooled.Auth.KeyStep

/-!
# Working keys are found

A token goes through four places: the record cache, the negative cache, the
indexed look-up and the scan of the rows without `lookup_hash`. While a key is
usable none of them misses it for good: a scan that does not see the row comes
after the backfill of the row, and then the look-up that follows finds it. This
needs that the scan is long enough, and that nothing was concluded about the
token before the key became usable.
-/

namespace Spooled.Auth

open List

variable {crypto : Crypto} {token : KeyId → Text} {s : Site} {os : List Proc} {c : Command}

/-! ## Keys and records -/

structure Minted (crypto : Crypto) (token : KeyId → Text) (k : ApiKey) : Prop where
  hash : crypto.verify (token k.id) k.keyHash = true
  lookup : ∀ l ∈ k.lookupHash, l = crypto.lookupHash (token k.id)
  keyPrefix : ∀ pre ∈ k.keyPrefix, pre = (token k.id).take 8

def Site.Has (s : Site) (r : ApiKeyRecord) : Prop :=
  ∃ k, s.key r.id = some k ∧ k.keyHash = r.keyHash ∧ k.expiresAt = r.expiresAt

def AuthPhase.settled : AuthPhase → List ApiKeyRecord
  | .setRecord r | .setReverse r | .finish r => [r]
  | _ => []

/-- Phases in which the request may hold a ticket of its flight. -/
def AuthPhase.inFlight : AuthPhase → Bool
  | .await | .charge | .candidates | .turn _ | .recheckCache | .recheckMiss | .find .waited
  | .verifyFound .waited _ | .candidatesAgain | .verifyNext _ | .backfill _ | .publish _
  | .refundDecr _ | .refundDel _ => true
  | _ => false

def AuthPhase.isAnswered : AuthPhase → Bool
  | .answered _ => true
  | _ => false

structure CachedSane (crypto : Crypto) (token : KeyId → Text) (s : Site) (d : Text)
    (r : ApiKeyRecord) : Prop where
  digest : d = crypto.lookupHash (token r.id)
  has : s.Has r
  active : r.isActive = true

structure KeysSane (crypto : Crypto) (token : KeyId → Text) (s : Site) : Prop where
  minted : ∀ k ∈ s.keys.rows, Minted crypto token k
  records : ∀ d c deadline, s.records d = some (c, deadline) → CachedSane crypto token s d c.record

/-- What an authentication carries belongs to its token. -/
structure AuthProc.Sane (token : KeyId → Text) (s : Site) (p : AuthProc) : Prop where
  verified : ∀ r, r ∈ p.phase.verified ∨ r ∈ p.told → token r.id = p.token ∧ s.Has r
  unchecked : ∀ r ∈ p.phase.unchecked, s.Has r
  indexed : ∀ u r, p.phase = .verifyFound u r → token r.id = p.token
  settled : ∀ r ∈ p.phase.settled, r.isActive = true
  outside : p.phase.inFlight = false → p.ticket = none

def Proc.Sane (token : KeyId → Text) (s : Site) : Proc → Prop
  | .auth p => p.Sane token s
  | _ => True

variable {k : ApiKey} {r : ApiKeyRecord}

theorem Site.Has.run (h : s.Has r) (c : Command) : (c.run s).Has r := by
  obtain ⟨k, hk, hhash, hexp⟩ := h
  obtain ⟨k', hk', hsame⟩ := Command.key_run_of_key hk c
  exact ⟨k', hk', hsame.keyHash.trans hhash, hsame.expiresAt.trans hexp⟩

theorem Site.has_record (h : k ∈ s.keys.rows) : s.Has k.record :=
  ⟨k, Table.find_key h, rfl, rfl⟩

theorem Site.Has.refreshed (h : s.Has r) (hk : s.key r.id = some k) :
    s.Has (r.refreshed k) := by
  obtain ⟨k', hk', hhash, -⟩ := h
  cases hk.symm.trans hk'
  exact ⟨k, hk, hhash, rfl⟩

theorem KeysSane.token_of_verify (hK : KeysSane crypto token s) {t : Text}
    (hr : s.Has r) (hv : crypto.verify t r.keyHash = true) : token r.id = t := by
  obtain ⟨k, hk, hhash, -⟩ := hr
  have hm := (hK.minted k (Table.mem_of_find hk)).hash
  rw [hhash, show k.id = r.id from Table.key_of_find hk] at hm
  exact crypto.verify_inj hm hv

theorem KeysSane.verify (hK : KeysSane crypto token s) (hr : s.Has r) :
    crypto.verify (token r.id) r.keyHash = true := by
  obtain ⟨k, hk, hhash, -⟩ := hr
  have hm := (hK.minted k (Table.mem_of_find hk)).hash
  rwa [hhash, show k.id = r.id from Table.key_of_find hk] at hm

theorem KeysSane.token_of_byLookupHash (hK : KeysSane crypto token s) {t : Text}
    (h : s.byLookupHash (crypto.lookupHash t) = some k) : token k.id = t := by
  have hl := find?_some h
  rw [Bool.and_eq_true, beq_iff_eq] at hl
  exact (crypto.lookupHash_inj ((hK.minted k (AuthProc.row_of_byLookupHash h)).lookup _ hl.1)).symm

/-! ## Steps -/

namespace AuthProc

variable {p q : AuthProc}

variable {r : ApiKeyRecord}

theorem Origin.sane (h : Origin crypto s p r) (hK : KeysSane crypto token s)
    (hp : p.Sane token s) : token r.id = p.token ∧ s.Has r := by
  cases h with
  | kept h => exact hp.verified r (.inl h)
  | told h => exact hp.verified r (.inr h)
  | checked h hv => exact ⟨hK.token_of_verify (hp.unchecked r h) hv, hp.unchecked r h⟩
  | cached h =>
    obtain ⟨deadline, hc, -⟩ := Expiring.get_eq_some.1 h
    have hsane := hK.records _ _ _ hc
    exact ⟨(crypto.lookupHash_inj hsane.digest).symm, hsane.has⟩
  | @reread r₀ k h hk =>
    obtain ⟨htoken, hhas⟩ := hp.verified r₀ (.inl h)
    exact ⟨htoken, hhas.refreshed hk⟩

theorem Follows.sane (h : Follows crypto s os p q) (hK : KeysSane crypto token s)
    (hp : p.Sane token s) (hos : ∀ o ∈ os, o.Sane token s) :
    (∀ r, r ∈ q.phase.verified ∨ r ∈ q.told → token r.id = q.token ∧ s.Has r) ∧
      ∀ r ∈ q.phase.unchecked, s.Has r := by
  refine ⟨fun r hr => ?_, fun r hr => ?_⟩
  · rw [h.token]
    rcases hr with hr | hr
    · exact (h.verified r hr).sane hK hp
    · rcases h.told r hr with hr | ⟨o, ho, hf, hr⟩
      · exact hp.verified r (.inr hr)
      · rw [← token_of_flight hf]
        exact (hos _ ho).verified r (.inr hr)
  · rcases h.unchecked r hr with hr | ⟨k, hk, rfl⟩
    · exact hp.unchecked r hr
    · exact Site.has_record hk

theorem Stays.indexed_token {u : Use} (h : Stays crypto s os p q)
    (hq : q.phase = .verifyFound u r) (hK : KeysSane crypto token s) : token r.id = p.token := by
  cases h with
  | indexed h hk =>
    cases hq
    exact hK.token_of_byLookupHash hk
  | @unindexed u' h hk | @unverified u' r' h hv => cases u' <;> cases hq
  | @verified u' r' h hv =>
    rcases found_cases p r' u' with ⟨he, -⟩ | ⟨he, -⟩ | ⟨he, -⟩ <;> cases he.symm.trans hq
  | @told scan h hl ht => cases scan <;> cases hq
  | _ => cases hq

theorem Stays.settled_active (h : Stays crypto s os p q)
    (hr : r ∈ q.phase.settled) (hK : KeysSane crypto token s) : r.isActive = true := by
  cases h with
  | hit h hc =>
    cases mem_singleton.1 hr
    obtain ⟨deadline, hc, -⟩ := Expiring.get_eq_some.1 hc
    exact (hK.records _ _ _ hc).active
  | reread h hk ha =>
    cases mem_singleton.1 hr
    exact ha
  | @unindexed u' h hk | @unverified u' r' h hv => cases u' <;> cases hr
  | @verified u' r' h hv =>
    rcases found_cases p r' u' with ⟨he, -⟩ | ⟨he, -⟩ | ⟨he, -⟩ <;>
      rw [show AuthPhase.settled _ = _ from congrArg AuthPhase.settled he] at hr <;> cases hr
  | @told scan h hl ht => cases scan <;> cases hr
  | _ => cases hr

theorem Stays.outside (h : Stays crypto s os p q) (hq : q.phase.inFlight = false)
    (hp : p.phase.inFlight = false → p.ticket = none) : q.ticket = none := by
  cases h with
  | hit h | noRecord h | miss h | noMiss h | reread h | inactive h | finish h =>
    exact hp (by rw [h]; rfl)
  | @indexed u' k h | @unindexed u' h | @unverified u' r' h | @verified u' r' h =>
    cases u' with
    | fast | retry => exact hp (by rw [h]; rfl)
    | waited => cases hq
  | impatient | told => rfl
  | _ => cases hq

theorem Sane.stays (hp : p.Sane token s) (h : Stays crypto s os p q) (hK : KeysSane crypto token s)
    (hos : ∀ o ∈ os, o.Sane token s) : q.Sane token s := by
  have hf := follows_of_stay h
  obtain ⟨hverified, hunchecked⟩ := hf.sane hK hp hos
  refine ⟨hverified, hunchecked, fun u r hphase => ?_, fun r hr => h.settled_active hr hK,
    fun hin => h.outside hin hp.outside⟩
  rw [hf.token]
  exact h.indexed_token hphase hK

theorem Sane.runs (hp : p.Sane token s) (h : Runs crypto s p c q) (hK : KeysSane crypto token s)
    (hos : ∀ o ∈ os, o.Sane token s) : q.Sane token s := by
  obtain ⟨hverified, hunchecked⟩ := (follows_of_run h).sane hK hp hos
  refine ⟨hverified, hunchecked, fun u r hphase => ?_, fun r hr => ?_, fun hin => ?_⟩
  · cases h with
    | @refunded a h | @del a h => cases a <;> cases hphase
    | _ => cases hphase
  · cases h with
    | setRecord h | setReverse h => exact hp.settled r (by rw [h]; exact hr)
    | @refunded a h | @del a h => cases a <;> cases hr
    | _ => cases hr
  · cases h with
    | setRecord h | setReverse h | setMiss h => exact hp.outside (by rw [h]; rfl)
    | overBudget | missed | refunded | del => rfl
    | _ => cases hin

theorem Sane.run (hp : p.Sane token s) (c : Command) : p.Sane token (c.run s) :=
  ⟨fun r hr => ⟨(hp.verified r hr).1, (hp.verified r hr).2.run c⟩,
    fun r hr => (hp.unchecked r hr).run c, hp.indexed, hp.settled, hp.outside⟩

end AuthProc

theorem CachedSane.run {d : Text} (h : CachedSane crypto token s d r)
    (c : Command) : CachedSane crypto token (c.run s) d r :=
  ⟨h.digest, h.has.run c, h.active⟩

theorem KeysSane.run (h : KeysSane crypto token s)
    (hset : ∀ d r, c = .setRecord d r → CachedSane crypto token s d r)
    (hfill : ∀ i d, c = .backfill i d → d = crypto.lookupHash (token i)) :
    KeysSane crypto token (c.run s) := by
  refine ⟨fun k' hk' => ?_, fun d r deadline hr => ?_⟩
  · obtain ⟨k, hk, hsame, -, hlookup⟩ := Command.key_run (Table.find_key hk')
    have hm := h.minted k (Table.mem_of_find hk)
    refine ⟨?_, fun l hl => ?_, fun pre hpre => ?_⟩
    · rw [hsame.id, hsame.keyHash]
      exact hm.hash
    · rcases hlookup with hlookup | ⟨d, hc, hd⟩
      · rw [hsame.id]
        exact hm.lookup l (hlookup ▸ hl)
      · cases hd.symm.trans hl
        exact hfill _ _ hc
    · rw [hsame.id]
      exact hm.keyPrefix pre (hsame.keyPrefix ▸ hpre)
  · rcases Command.records_run hr with ⟨hr, -⟩ | ⟨r', hc, rfl, -⟩
    · exact (h.records d r deadline hr).run c
    · exact (hset d r' hc).run c

theorem KeysSane.runs {p q : AuthProc} (h : KeysSane crypto token s) (hp : p.Sane token s)
    (hruns : AuthProc.Runs crypto s p c q) : KeysSane crypto token (c.run s) := by
  refine h.run (fun d r hc => ?_) fun i d hc => ?_
  · subst hc
    cases hruns with
    | setRecord hphase =>
      obtain ⟨htoken, hhas⟩ := hp.verified r (.inl (by rw [hphase]; exact mem_cons_self))
      refine ⟨congrArg crypto.lookupHash htoken.symm, hhas, ?_⟩
      exact hp.settled r (by rw [hphase]; exact mem_cons_self)
  · subst hc
    cases hruns with
    | @backfill r hphase =>
      obtain ⟨htoken, -⟩ := hp.verified r (.inl (by rw [hphase]; exact mem_cons_self))
      exact congrArg crypto.lookupHash htoken.symm

/-! ## Usable keys -/

/-- Nothing has been concluded about the token that would miss the usable key: it is among the
candidates, or it is indexed by now. -/
def AuthPhase.Fine (d : Text) (i : KeyId) (k : ApiKey) : AuthPhase → Prop
  | .setMiss => False
  | .publish .missed | .find .retry => k.lookupHash = some d
  | .turn cs | .verifyNext cs => (∃ r ∈ cs, r.id = i) ∨ k.lookupHash = some d
  | _ => True

structure AuthProc.Fine (crypto : Crypto) (p : AuthProc) (i : KeyId) (k : ApiKey) : Prop where
  phase : p.phase.Fine (p.digest crypto) i k
  ticket : p.ticket.join = some .missed → k.lookupHash = some (p.digest crypto)

section

variable (crypto : Crypto) (token : KeyId → Text)

def Proc.Fine (s : Site) : Proc → Prop
  | .auth p => ∀ i k, token i = p.token → s.key i = some k → s.usable k = true → p.Fine crypto i k
  | _ => True

/-- No miss is cached for the token of a usable key. -/
def NoMiss (s : Site) : Prop :=
  ∀ i k, s.key i = some k → s.usable k = true →
    s.misses.get s.now (crypto.lookupHash (token i)) = none

/-- The key is not usable, and a command makes it so. -/
def Site.revives (s s' : Site) (k : ApiKey) : Bool :=
  !s.usable k && (s'.key k.id).any s'.usable

/-- Nothing is cached or under way about the token of the key. -/
def calm (s : Site) (os : List Proc) (k : ApiKey) : Bool :=
  (s.misses.get s.now (crypto.lookupHash (token k.id))).isNone && os.all fun
    | .auth q => q.token != token k.id || q.phase.isAnswered
    | _ => true

/-- The budget is not spent, and the scan takes every row that may match. -/
def AuthProc.unbounded (s : Site) (p : AuthProc) : Bool :=
  match p.phase with
  | .charge => (s.chargeCounter p.budget).value ≤ p.budget.limit
  | .candidates | .candidatesAgain =>
    (s.keys.rows.filter (s.isCandidate p.token)).length ≤ candidateLimit
  | _ => true

def revivesCalmly (s : Site) (os : List Proc) :
    Option Move → Bool
  | some (.run c _) => s.keys.rows.all fun k => !s.revives (c.run s) k || calm crypto token s os k
  | _ => true

def Proc.unbounded (s : Site) : Proc → Bool
  | .auth p => p.unbounded s
  | _ => true

@[reducible] def resolvable : PoolSpec.Allow (keyRequests crypto) :=
  .onRun (keyRequests crypto) fun s os p =>
    revivesCalmly crypto token s os (Proc.act crypto s os p) && Proc.unbounded s p

end

section Fine

variable {p q : AuthProc} {i : KeyId} {k : ApiKey}

theorem KeysSane.candidate (hK : KeysSane crypto token s) (hk : s.key i = some k)
    (hu : s.usable k = true)
    (hlen : (s.keys.rows.filter (s.isCandidate (token i))).length ≤ candidateLimit) :
    (∃ r ∈ s.legacyCandidates (token i), r.id = i) ∨
      k.lookupHash = some (crypto.lookupHash (token i)) := by
  have hid : k.id = i := Table.key_of_find hk
  have hm := hK.minted k (Table.mem_of_find hk)
  cases hl : k.lookupHash with
  | some l => exact .inr (by rw [hm.lookup l hl, hid])
  | none =>
    refine .inl ⟨k.record, mem_map_of_mem ?_, hid⟩
    rw [take_of_length_le hlen]
    refine mem_filter.2 ⟨Table.mem_of_find hk, ?_⟩
    unfold Site.isCandidate
    rw [hu, hl]
    cases hpre : k.keyPrefix with
    | none => rfl
    | some pre => simp [hm.keyPrefix pre hpre, hid]

theorem KeysSane.scanned (hK : KeysSane crypto token s) (hA : p.unbounded s = true)
    (hphase : p.phase = .candidates ∨ p.phase = .candidatesAgain) (htoken : token i = p.token)
    (hk : s.key i = some k) (hu : s.usable k = true) :
    (∃ r ∈ s.legacyCandidates p.token, r.id = i) ∨ k.lookupHash = some (p.digest crypto) := by
  unfold AuthProc.digest
  rw [← htoken]
  refine hK.candidate hk hu ?_
  unfold AuthProc.unbounded at hA
  rw [htoken]
  rcases hphase with h | h
  · rw [h] at hA
    exact of_decide_eq_true hA
  · rw [h] at hA
    exact of_decide_eq_true hA

theorem Site.byLookupHash_ne_none {d : Text} (hk : s.key i = some k) (hu : s.usable k = true)
    (hl : k.lookupHash = some d) : s.byLookupHash d ≠ none := by
  intro hnone
  have h := find?_eq_none.1 hnone k (Table.mem_of_find hk)
  simp [hl, hu] at h

theorem AuthProc.Fine.stays (hp : p.Fine crypto i k) (h : AuthProc.Stays crypto s os p q)
    (hK : KeysSane crypto token s) (hmiss : NoMiss crypto token s) (hsane : p.Sane token s)
    (hA : p.unbounded s = true) (hos : ∀ o ∈ os, o.Fine crypto token s) (htoken : token i = p.token)
    (hk : s.key i = some k) (hu : s.usable k = true) : q.Fine crypto i k := by
  have hphase : ∀ {phase : AuthPhase}, p.phase = phase → phase.Fine (p.digest crypto) i k :=
    fun he => he ▸ hp.phase
  cases h with
  | @unindexed u h hn =>
    refine ⟨?_, hp.ticket⟩
    cases u with
    | fast | waited => trivial
    | retry => exact Site.byLookupHash_ne_none hk hu (hphase h) hn
  | @unverified u r h hv =>
    refine ⟨?_, hp.ticket⟩
    cases u with
    | fast | waited => trivial
    | retry =>
      have hr := hK.verify (hsane.unchecked r (by rw [h]; exact mem_cons_self))
      rw [hsane.indexed _ r h] at hr
      exact hv hr
  | @verified u r h hv =>
    refine ⟨?_, hp.ticket⟩
    rcases AuthProc.found_cases p r u with ⟨he, -⟩ | ⟨he, -⟩ | ⟨he, -⟩ <;>
      exact (congrArg (AuthPhase.Fine _ i k) he).mpr trivial
  | join h =>
    refine ⟨trivial, fun ht => ?_⟩
    obtain ⟨o, ho, hflight, hticket⟩ := AuthProc.flightOutcome_eq_some ht
    have hdigest : o.digest crypto = p.digest crypto := congrArg FlightKey.digest hflight
    have ho' := hos _ ho i k (htoken.trans (crypto.lookupHash_inj hdigest).symm) hk hu
    have hl := ho'.ticket hticket
    rw [hdigest] at hl
    exact hl
  | @told scan h hl ht =>
    refine ⟨?_, fun hno => by cases hno⟩
    cases scan with
    | missed => exact hp.ticket ht
    | found | busy => trivial
  | impatient h hi => exact ⟨trivial, fun hno => by cases hno⟩
  | noCandidates h hc =>
    refine ⟨?_, hp.ticket⟩
    rcases hK.scanned hA (.inl h) htoken hk hu with ⟨r, hr, -⟩ | hl
    · rw [hc] at hr
      exact absurd hr not_mem_nil
    · exact hl
  | candidates h => exact ⟨hK.scanned hA (.inl h) htoken hk hu, hp.ticket⟩
  | candidatesAgain h => exact ⟨hK.scanned hA (.inr h) htoken hk hu, hp.ticket⟩
  | turn h =>
    have hcs := hphase h
    exact ⟨hcs, hp.ticket⟩
  | recheckMissed h hm =>
    refine ⟨?_, hp.ticket⟩
    have hno := hmiss i k hk hu
    rw [htoken] at hno
    rw [show s.misses.get s.now (p.digest crypto) = none from hno] at hm
    cases hm
  | exhausted h =>
    refine ⟨?_, hp.ticket⟩
    rcases hphase h with ⟨r, hr, -⟩ | hl
    · exact absurd hr not_mem_nil
    · exact hl
  | @unmatched r cs h hv =>
    refine ⟨?_, hp.ticket⟩
    rcases hphase h with ⟨r', hr', hid⟩ | hl
    · rcases mem_cons.1 hr' with rfl | hr'
      · -- the key's own record would have matched
        have hr := hK.verify (hsane.unchecked r' (by rw [h]; exact mem_cons_self))
        rw [hid, htoken] at hr
        exact absurd hr hv
      · exact .inl ⟨r', hr', hid⟩
    · exact .inr hl
  | hit | noRecord | miss | noMiss | indexed | reread | inactive | lead | busy | waited | recheckHit
  | recheckNoRecord | recheckNoMiss | matched | finish => exact ⟨trivial, hp.ticket⟩

theorem AuthProc.Fine.runs (hp : p.Fine crypto i k) (h : AuthProc.Runs crypto s p c q) :
    q.Fine crypto i k := by
  cases h with
  | missed h =>
    refine ⟨?_, fun hno => by cases hno⟩
    exact (congrArg (AuthPhase.Fine (p.digest crypto) i k) h).mp hp.phase
  | overBudget h => exact ⟨trivial, fun hno => by cases hno⟩
  | @refunded a h | @del a h => cases a <;> exact ⟨trivial, fun hno => by cases hno⟩
  | setRecord | setReverse | setMiss | charge | backfill | found | busy | decr =>
    exact ⟨trivial, hp.ticket⟩

/-- Rows only gain a `lookup_hash`. -/
theorem AuthProc.Fine.sameKey {k' : ApiKey} (hp : p.Fine crypto i k)
    (hsame : Command.SameKey k k') : p.Fine crypto i k' := by
  refine ⟨?_, fun ht => hsame.lookupHash _ (hp.ticket ht)⟩
  have h := hp.phase
  generalize p.phase = phase at h
  cases phase with
  | publish scan =>
    cases scan with
    | missed => exact hsame.lookupHash _ h
    | found | busy => trivial
  | find u =>
    cases u with
    | retry => exact hsame.lookupHash _ h
    | fast | waited => trivial
  | turn cs | verifyNext cs =>
    rcases h with h | h
    · exact .inl h
    · exact .inr (hsame.lookupHash _ h)
  | setMiss => exact h
  | _ => trivial

/-! ## Keys that become usable -/

variable {o : Proc} {q : Option Proc}

theorem usable_or_calm {k' : ApiKey} (hA : revivesCalmly crypto token s os (some (.run c q)) = true)
    (hk' : (c.run s).key i = some k') (hu' : (c.run s).usable k' = true) :
    ∃ k, s.key i = some k ∧ Command.SameKey k k' ∧
      (s.usable k = true ∨ calm crypto token s os k = true) := by
  obtain ⟨k, hk, hsame, -⟩ := Command.key_run hk'
  refine ⟨k, hk, hsame, ?_⟩
  by_cases hu : s.usable k = true
  · exact .inl hu
  · have h := all_eq_true.1 hA k (Table.mem_of_find hk)
    have hid : k.id = i := Table.key_of_find hk
    simp only [Site.revives, hid, hk', hu, hu', Option.any_some, Bool.not_false, Bool.and_true,
      Bool.not_true, Bool.false_or] at h
    exact .inr h

theorem NoMiss.run (h : NoMiss crypto token s)
    (hA : revivesCalmly crypto token s os (some (.run c q)) = true)
    (hset : ∀ d, c = .setMiss d → ∀ i k, s.key i = some k → s.usable k = true →
      d ≠ crypto.lookupHash (token i)) : NoMiss crypto token (c.run s) := by
  intro i k' hk' hu'
  obtain ⟨k, hk, -, hcase⟩ := usable_or_calm hA hk' hu'
  have hid : k.id = i := Table.key_of_find hk
  have hnone : s.misses.get s.now (crypto.lookupHash (token i)) = none := by
    rcases hcase with hu | hcalm
    · exact h i k hk hu
    · have hm := (Bool.and_eq_true_iff.1 hcalm).1
      rw [hid] at hm
      exact Option.isNone_iff_eq_none.1 hm
  by_contra hsome
  obtain ⟨v, hv⟩ := Option.ne_none_iff_exists'.1 hsome
  have hlater : (c.run s).misses = s.misses → False := by
    intro he
    rw [he] at hv
    rw [Expiring.get_of_get_later hv (Command.now_le_run s c)] at hnone
    cases hnone
  cases c with
  | setMiss d =>
    have hu : s.usable k = true := (Command.usable_run hk hk' nofun nofun) ▸ hu'
    have hne := hset d rfl i k hk hu
    obtain ⟨deadline, hm, hlt⟩ := Expiring.get_eq_some.1 hv
    rw [show (Command.run s (.setMiss d)).misses _ = _ from Expiring.set_of_ne hne.symm] at hm
    have hget : s.misses.get s.now _ = some v := Expiring.get_eq_some.2 ⟨deadline, hm, hlt⟩
    rw [hget] at hnone
    cases hnone
  | _ => exact hlater rfl

theorem Proc.Fine.run (h : o.Fine crypto token s)
    (hsane : o.Sane token s) (ho : o ∈ os)
    (hA : revivesCalmly crypto token s os (some (.run c q)) = true) :
    o.Fine crypto token (c.run s) := by
  cases o with
  | auth o =>
    intro i k' htoken hk' hu'
    obtain ⟨k, hk, hsame, hu | hcalm⟩ := usable_or_calm hA hk' hu'
    · exact (h i k htoken hk hu).sameKey hsame
    · have hid : k.id = i := Table.key_of_find hk
      have hdone := all_eq_true.1 (Bool.and_eq_true_iff.1 hcalm).2 _ ho
      simp only [hid, htoken, bne_self_eq_false, Bool.false_or] at hdone
      cases hphase : o.phase with
      | answered a =>
        have hticket := hsane.outside (by rw [hphase]; rfl)
        refine ⟨by rw [hphase]; trivial, fun ht => ?_⟩
        rw [hticket] at ht
        cases ht
      | _ =>
        rw [hphase] at hdone
        cases hdone
  | edit | clock | organization => trivial

theorem Proc.Sane.run (h : o.Sane token s) (c : Command) : o.Sane token (c.run s) := by
  cases o with
  | auth o => exact AuthProc.Sane.run h c
  | edit | clock | organization => trivial

theorem Proc.sane_tell (h : o.Sane token s ∧ o.Fine crypto token s)
    (hc : ∀ f scan, c = .publish f scan → ∃ p, f = p.flight crypto ∧ p.phase = .publish scan ∧
      p.Sane token s ∧ (Proc.auth p).Fine crypto token s) :
    (c.tell crypto o).Sane token s ∧ (c.tell crypto o).Fine crypto token s := by
  cases o with
  | edit | clock | organization => cases c <;> exact ⟨trivial, trivial⟩
  | auth o =>
    cases c with
    | publish f scan =>
      obtain ⟨p, rfl, hphase, hsane, hfine⟩ := hc f scan rfl
      show Proc.Sane token s (.auth (if _ then _ else _)) ∧
        Proc.Fine crypto token s (.auth (if _ then _ else _))
      split
      · next hflight =>
        have htoken : o.token = p.token := AuthProc.token_of_flight hflight.1
        constructor
        · refine ⟨fun r hr => ?_, h.1.unchecked, h.1.indexed, h.1.settled, fun hin => ?_⟩
          · rcases hr with hr | hr
            · exact h.1.verified r (.inl hr)
            · show token r.id = o.token ∧ s.Has r
              rw [htoken]
              exact hsane.verified r (.inl (by rw [hphase]; exact hr))
          · have hnone := h.1.outside hin
            rw [hnone] at hflight
            cases hflight.2
        · intro i k hi hk hu
          refine ⟨(h.2 i k hi hk hu).phase, fun ht => ?_⟩
          cases ht
          have hp := (hfine i k (hi.trans htoken) hk hu).phase
          rw [hphase] at hp
          show k.lookupHash = some (crypto.lookupHash o.token)
          rw [htoken]
          exact hp
      · exact h
    | _ => exact h

end Fine

/-! ## Runs -/

/-- **Nothing misses a usable key** as long as the conditions hold. -/
theorem keys_resolvable (crypto : Crypto) (token : KeyId → Text) :
    PoolSpec.Kept (keyRequests crypto) (resolvable crypto token)
      (fun s => KeysSane crypto token s ∧ NoMiss crypto token s)
      (fun s q => Proc.Sane token s q ∧ Proc.Fine crypto token s q) fun _ _ _ => True where
  symm _ := trivial
  ask {s a} _ hK := by
    refine ⟨hK, ?_⟩
    cases a with
    | authenticate t b replica waits busy impatient =>
      refine ⟨⟨fun r hr => ?_, fun r hr => absurd hr not_mem_nil, nofun,
        fun r hr => absurd hr not_mem_nil, fun _ => rfl⟩, fun i k _ _ _ => ⟨trivial, nofun⟩⟩
      rcases hr with hr | hr <;> exact absurd hr not_mem_nil
    | edit | clock | organization => exact ⟨trivial, trivial⟩
  ask_other _ _ hq := ⟨hq, trivial⟩
  ask_pair _ := trivial
  stay {s os p p'} he hA hb := by
    refine ⟨?_, fun _ _ => trivial⟩
    cases Proc.moves (keyRequests_stay he) with
    | @stay p q hstays =>
      refine ⟨hb.own.1.stays hstays hb.store.1 fun o ho => (hb.others o ho).1, ?_⟩
      intro i k htoken hk hu
      have htoken' : token i = p.token := htoken.trans (AuthProc.follows_of_stay hstays).token
      exact (hb.own.2 i k htoken' hk hu).stays hstays hb.store.1 hb.store.2 hb.own.1
        (Bool.and_eq_true_iff.1 hA).2
        (fun o ho => (hb.others o ho).2) htoken' hk hu
    | edit => exact ⟨trivial, trivial⟩
  share {s os p s' p' tell} he hA hb := by
    obtain ⟨c, hm, rfl, rfl⟩ := keyRequests_share he
    have hcalm : revivesCalmly crypto token s os (some (.run c p')) = true :=
      hm ▸ (Bool.and_eq_true_iff.1 hA).1
    suffices hall : (KeysSane crypto token (c.run s) ∧ NoMiss crypto token (c.run s)) ∧
        (∀ r ∈ p', Proc.Sane token (c.run s) r ∧ Proc.Fine crypto token (c.run s) r) ∧
        ∀ f scan, c = .publish f scan → ∃ p, f = p.flight crypto ∧ p.phase = .publish scan ∧
          p.Sane token s ∧ (Proc.auth p).Fine crypto token s by
      refine ⟨hall.1, fun r hr => ⟨hall.2.1 r hr, fun _ _ => trivial⟩, fun r hr => ?_,
        fun _ _ _ _ _ => trivial⟩
      have hr' := hb.others r hr
      refine Proc.sane_tell ⟨hr'.1.run c, hr'.2.run hr'.1 hr hcalm⟩ fun f scan hc => ?_
      subst hc
      exact hall.2.2 f scan rfl
    -- what no other request writes
    have hrest : (∀ d r, c ≠ .setRecord d r) → (∀ i d, c ≠ .backfill i d) → (∀ d, c ≠ .setMiss d) →
        KeysSane crypto token (c.run s) ∧ NoMiss crypto token (c.run s) := fun hset hfill hmiss =>
      ⟨hb.store.1.run (fun d r hc => absurd hc (hset d r)) fun i d hc => absurd hc (hfill i d),
        hb.store.2.run hcalm fun d hc => absurd hc (hmiss d)⟩
    cases Proc.moves hm with
    | @run p q c hruns =>
      have hsame : (∀ i cols, c ≠ .assign i cols) ∧ ∀ org deleted, c ≠ .setOrg org deleted := by
        cases hruns <;> exact ⟨nofun, nofun⟩
      refine ⟨⟨hb.store.1.runs hb.own.1 hruns, hb.store.2.run hcalm fun d hc i k hk hu hd => ?_⟩,
        fun r hr => ?_, fun f scan hc => ?_⟩
      · subst hc
        cases hruns with
        | setMiss hphase =>
          have hfine := (hb.own.2 i k (crypto.lookupHash_inj hd).symm hk hu).phase
          rw [hphase] at hfine
          exact hfine
      · cases hr
        refine ⟨(hb.own.1.runs hruns hb.store.1 fun o ho => (hb.others o ho).1).run c, ?_⟩
        intro i k' htoken hk' hu'
        obtain ⟨k, hk, hkk, -⟩ := Command.key_run hk'
        rw [Command.usable_run hk hk' (hsame.1 i) hsame.2] at hu'
        have htoken' : token i = p.token := htoken.trans hruns.token
        exact ((hb.own.2 i k htoken' hk hu').runs hruns).sameKey hkk
      · subst hc
        obtain ⟨hf, hphase⟩ := hruns.publish
        exact ⟨p, hf, hphase, hb.own⟩
    | assign | delRecord | delReverse =>
      refine ⟨hrest nofun nofun nofun, fun r hr => ?_, nofun⟩
      cases hr
      exact ⟨trivial, trivial⟩
    | clock | organization =>
      exact ⟨hrest nofun nofun nofun, fun r hr => (by cases hr), nofun⟩

def Move.answer : Move → Option AuthAnswer
  | .stay (.auth q) | .run _ (some (.auth q)) => match q.phase with
    | .answered a => some a
    | _ => none
  | _ => none

def answered (crypto : Crypto) (x : Pool Site Proc) : PoolLabel Arrival → Option (AuthProc × AuthAnswer)
  | .run j => match x.procs[j]? with
    | some (.auth p) =>
      (p.act crypto x.store (x.procs.eraseIdx j)).bind fun m => m.answer.map fun a => (p, a)
    | _ => none
  | _ => none

/-- Empty caches, and rows made from their tokens. -/
structure Site.ResolveStart (crypto : Crypto) (token : KeyId → Text) (s : Site) : Prop where
  minted : ∀ k ∈ s.keys.rows, Minted crypto token k
  records : s.records = .empty
  misses : s.misses = .empty

theorem Site.ResolveStart.sane (h : s.ResolveStart crypto token) :
    KeysSane crypto token s ∧ NoMiss crypto token s := by
  refine ⟨⟨h.minted, fun d c deadline hr => ?_⟩, fun i k _ _ => ?_⟩
  · rw [h.records] at hr
    cases hr
  · rw [h.misses]
    rfl

def resolveSystem (crypto : Crypto) (token : KeyId → Text) : Machine :=
  (keyRequests crypto).machine (Site.ResolveStart crypto token)

section Answer

variable {p q : AuthProc} {a : AuthAnswer} {i : KeyId} {k : ApiKey}

/-- A good answer for a working key: accepted as this key, or 503. -/
def AuthAnswer.Good (i : KeyId) (a : AuthAnswer) : Prop :=
  a = .unavailable ∨ ∃ r, a = .accepted r ∧ r.id = i

theorem AuthProc.Stays.good (h : AuthProc.Stays crypto s os p q) (hq : q.phase = .answered a)
    (htoken : Function.Injective token) (hmiss : NoMiss crypto token s) (hp : p.Sane token s)
    (hi : token i = p.token) (hk : s.key i = some k) (hu : s.usable k = true)
    (hexp : k.expiresAt.any (· < s.now) = false) : a.Good i := by
  cases h with
  | miss h hm =>
    have hno := hmiss i k hk hu
    rw [hi] at hno
    rw [show s.misses.get s.now (p.digest crypto) = none from hno] at hm
    cases hm
  | @inactive r h hr =>
    obtain ⟨ht, -⟩ := hp.verified r (.inl (by rw [h]; exact mem_cons_self))
    rw [htoken (ht.trans hi.symm)] at hr
    exact absurd (Bool.and_eq_true_iff.1 hu).1 (hr k hk)
  | @finish r h =>
    obtain ⟨ht, k', hk', -, hexp'⟩ := hp.verified r (.inl (by rw [h]; exact mem_cons_self))
    have hid := htoken (ht.trans hi.symm)
    rw [hid] at hk'
    cases hk.symm.trans hk'
    have hactive := hp.settled r (by rw [h]; exact mem_cons_self)
    rw [hexp'] at hexp
    simp only [hactive, hexp, Bool.not_true, Bool.false_eq_true, if_false,
      AuthPhase.answered.injEq] at hq
    exact .inr ⟨r, hq.symm, hid⟩
  | impatient h hi =>
    cases hq
    exact .inl rfl
  | @told scan h hl ht =>
    cases scan with
    | busy =>
      cases hq
      exact .inl rfl
    | found | missed => cases hq
  | @unindexed u h hk | @unverified u r h hv => cases u <;> cases hq
  | @verified u r h hv =>
    rcases AuthProc.found_cases p r u with ⟨he, -⟩ | ⟨he, -⟩ | ⟨he, -⟩ <;> cases he.symm.trans hq
  | _ => cases hq

theorem AuthProc.Runs.good (h : AuthProc.Runs crypto s p c q) (hq : q.phase = .answered a)
    (hA : p.unbounded s = true) (hp : p.Fine crypto i k) : a.Good i := by
  cases h with
  | setMiss h =>
    have hno := hp.phase
    rw [h] at hno
    exact hno.elim
  | overBudget h hlt =>
    unfold AuthProc.unbounded at hA
    rw [h] at hA
    exact absurd (of_decide_eq_true hA) hlt
  | @refunded a' h | @del a' h =>
    cases a' with
    | busy =>
      cases hq
      exact .inl rfl
    | cache => cases hq
  | _ => cases hq

end Answer

theorem answered_eq_some {x : Pool Site Proc} {a : PoolLabel Arrival} {p : AuthProc}
    {ans : AuthAnswer} (h : answered crypto x a = some (p, ans)) :
    ∃ j q, a = .run j ∧ x.procs[j]? = some (.auth p) ∧ q.phase = .answered ans ∧
      (AuthProc.Stays crypto x.store (x.procs.eraseIdx j) p q ∨
        ∃ c, AuthProc.Runs crypto x.store p c q) := by
  have hphase : ∀ {q : AuthProc} {m : Move}, (m = .stay (.auth q) ∨ ∃ c, m = .run c (some (.auth q))) →
      m.answer = some ans → q.phase = .answered ans := by
    intro q m hm ha
    have ha' : (match q.phase with | .answered a => some a | _ => none) = some ans := by
      rcases hm with rfl | ⟨c, rfl⟩ <;> exact ha
    split at ha'
    · next hq =>
      cases ha'
      exact hq
    · cases ha'
  cases a with
  | ask | drop => cases h
  | run j =>
    unfold answered at h
    dsimp only at h
    split at h
    · next p' hp' =>
      obtain ⟨m, hm, ha⟩ := Option.bind_eq_some_iff.1 h
      obtain ⟨ans', ha, he⟩ := Option.map_eq_some_iff.1 ha
      cases he
      cases Proc.moves (p := .auth p) hm with
      | @stay _ q hstays => exact ⟨j, q, rfl, hp', hphase (.inl rfl) ha, .inl hstays⟩
      | quit => cases ha
      | @run _ q c hruns => exact ⟨j, q, rfl, hp', hphase (.inr ⟨c, rfl⟩) ha, .inr ⟨c, hruns⟩⟩
    · cases h

/-- **A working key is not refused.** Take any run in which the budget is not spent, every scan
takes all rows that may match, and keys become usable only while nothing is cached or under way
about their tokens. A request whose token is the one of a key that is usable and unexpired when it
is answered is accepted as this key, or asked to come back. -/
theorem working_key_not_refused {x : Pool Site Proc}
    {h : List (Pool Site Proc × PoolLabel Arrival)} (htoken : Function.Injective token)
    (hr : (resolveSystem crypto token).Run x h)
    (hC : (resolveSystem crypto token).Steps (resolvable crypto token).step h)
    {y : Pool Site Proc} {a : PoolLabel Arrival} {p : AuthProc} {ans : AuthAnswer} {i : KeyId}
    {k : ApiKey} (hy : (y, a) ∈ h) (hans : answered crypto y a = some (p, ans))
    (hi : token i = p.token) (hk : y.store.key i = some k) (hu : y.store.usable k = true)
    (hexp : k.expiresAt.any (· < y.store.now) = false) : ans.Good i := by
  obtain ⟨h₁, h₂, rfl⟩ := append_of_mem hy
  have hA := hC _ hy
  have hC₂ : (resolveSystem crypto token).Steps (resolvable crypto token).step h₂ :=
    fun z hz => hC z (mem_append_right h₁ (mem_cons_of_mem _ hz))
  have hinv := (keys_resolvable crypto token).invariant (fun s hs => hs.sane) hr.of_append hC₂
  obtain ⟨j, q, rfl, hp, hq, hstep⟩ := answered_eq_some hans
  have hown := hinv.each _ (mem_of_getElem? hp)
  have hrun := Bool.and_eq_true_iff.1 (hA _ hp)
  rcases hstep with hstays | ⟨c, hruns⟩
  · exact hstays.good hq htoken hinv.store.2 hown.1 hi hk hu hexp
  · exact hruns.good hq hrun.2 (hown.2 i k hi hk hu)

/-- The token of key `i`, for examples: `i` times the letter. -/
def letters (i : KeyId) : Text := List.replicate i 'k'

theorem letters_injective : Function.Injective letters := fun i j h => by
  simpa [letters] using congrArg List.length h

/-- A key from before there was a `lookup_hash`. -/
def legacyKey : ApiKey := { id := 1, organizationId := 7, keyHash := ['k'] }

theorem minted_legacyKey (isActive : Bool) : Minted .plain letters { legacyKey with isActive } :=
  ⟨rfl, nofun, nofun⟩

theorem resolveStart_legacyKey (isActive : Bool) : Site.ResolveStart .plain letters
    { keys := ⟨[{ legacyKey with isActive }], by simp⟩ } := by
  refine ⟨fun k hk => ?_, rfl, rfl⟩
  cases mem_singleton.1 hk
  exact minted_legacyKey isActive

/-- The first request with a legacy key: the scan finds the row and indexes it. -/
theorem working_key_not_refused_legacy : ∃ x h, (resolveSystem .plain letters).Run x h ∧
    (resolveSystem .plain letters).Steps (resolvable .plain letters).step h ∧
    ∃ y a p ans, (y, a) ∈ h ∧ answered .plain y a = some (p, ans) ∧ p.token = ['k'] ∧
      ans.Good 1 := by
  obtain ⟨x, h, hr, hC, hp⟩ := (resolvable .plain letters).run_of_exec
    (Site.ResolveStart .plain letters)
    (.ask (.authenticate ['k'] .grpc 0 false false false) :: List.replicate 17 (.run 0))
    ⟨{ keys := ⟨[legacyKey], by decide⟩ }, []⟩
    (fun x => x.2.any fun z =>
      (answered .plain z.1 z.2).any (·.1.token == ['k']) && (z.1.store.key 1).any fun k =>
        z.1.store.usable k && !k.expiresAt.any (· < z.1.store.now))
    ⟨resolveStart_legacyKey true, rfl⟩ (by decide +kernel)
  obtain ⟨⟨y, a⟩, hy, hp⟩ := any_eq_true.1 hp
  simp only [Bool.and_eq_true, Option.any_eq_true, beq_iff_eq, Bool.not_eq_true'] at hp
  obtain ⟨⟨⟨p, ans⟩, hans, ht⟩, k, hk, hu, hexp⟩ := hp
  exact ⟨x, h, hr, hC, y, a, p, ans, hy, hans, ht,
    working_key_not_refused letters_injective hr hC hy hans (i := 1) ht.symm hk hu hexp⟩

/-- The request that takes the step is within its budget, and its scan takes every row. -/
def unboundedStep (x : Pool Site Proc) : PoolLabel Arrival → Bool
  | .run j => x.procs[j]?.all (Proc.unbounded x.store)
  | _ => true

/-- A request while the key is switched off leaves a miss in the cache. The key is switched on
again, and the next request, in whose whole time the key works, is refused. -/
theorem reactivated_key_refused : ∃ x h, (resolveSystem .plain letters).Run x h ∧
    (h.all fun z => unboundedStep z.1 z.2) = true ∧
    (∃ y a p, h[0]? = some (y, a) ∧ answered .plain y a = some (p, .invalidKey) ∧ p.token = ['k']) ∧
    (∃ y, h[2]? = some (y, .ask (.authenticate ['k'] .grpc 0 false false false))) ∧
    ∀ z ∈ h.take 3, ∃ k, z.1.store.key 1 = some k ∧ z.1.store.usable k = true ∧
      k.expiresAt = none := by
  obtain ⟨x, h, hr, hp⟩ := Machine.Run.of_exec (resolveSystem .plain letters)
    (.ask (.authenticate ['k'] .grpc 0 false false false) :: List.replicate 11 (.run 0) ++
      .ask (.edit (.put { isActive := some true }) 1 7 [] true) :: List.replicate 7 (.run 0) ++
      [.ask (.authenticate ['k'] .grpc 0 false false false), .run 0, .run 0])
    ⟨{ keys := ⟨[{ legacyKey with isActive := false }], by decide⟩ }, []⟩
    (fun x => (x.2.all fun z => unboundedStep z.1 z.2) &&
      (x.2[0]?.any fun z => (answered .plain z.1 z.2).any fun b =>
        b.2 == .invalidKey && b.1.token == ['k']) &&
      (x.2[2]?.any fun z => match z.2 with
        | .ask (.authenticate t .grpc r w b i) => decide ((t, r, w, b, i) = (['k'], 0, false, false, false))
        | _ => false) &&
      (x.2.take 3).all fun z => (z.1.store.key 1).any fun k =>
        z.1.store.usable k && k.expiresAt == none)
    ⟨resolveStart_legacyKey false, rfl⟩ (by decide +kernel)
  simp only [Bool.and_eq_true, all_eq_true, Option.any_eq_true, beq_iff_eq] at hp
  obtain ⟨⟨⟨hall, ⟨y, a⟩, hy, ⟨p, ans⟩, hans, rfl, ht⟩, ⟨y', b⟩, hy', hask⟩, hworks⟩ := hp
  refine ⟨x, h, hr, all_eq_true.2 hall, ⟨y, a, p, hy, hans, ht⟩, ?_, hworks⟩
  split at hask
  · next t r w b i hb =>
    obtain ⟨rfl, rfl, rfl, rfl, rfl⟩ := of_decide_eq_true hask
    exact ⟨y', hy'.trans (congrArg (fun b => some (y', b)) hb)⟩
  · cases hask

end Spooled.Auth
