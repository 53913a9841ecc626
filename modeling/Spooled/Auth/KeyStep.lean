import Spooled.Auth.KeyProgram

/-!
# Steps of the requests about API keys

What each kind of request may do in a step: the phases it can go to and the
commands it can issue; and what a command does to each part of the site.
-/

namespace Spooled.Auth

variable {crypto : Crypto} {s : Site} {os : List Proc} {c : Command} {i : KeyId}

/-! ## `PUT` and `DELETE` -/

def EditPhase.existing : EditPhase → Option ApiKey
  | .lockCap e | .forUpdate e | .write e _ | .commit e _ => some e
  | _ => none

namespace EditProc

def existing (p : EditProc) : Option ApiKey := p.phase.existing

/-- Steps on the request alone: it reads the row, keeps what it read, gives up, or
looks the cached record up. -/
inductive Stays (s : Site) (p : EditProc) : EditPhase → Prop
  | read {k : ApiKey} {phase : EditPhase} (hk : s.key p.id = some k) (h : phase.existing = some k) :
      Stays s p phase
  | keep {e : ApiKey} {phase : EditPhase} (he : p.existing = some e) (h : phase.existing = some e) :
      Stays s p phase
  | refused : Stays s p .refused
  | mapped {keyHash digest : Text} (h : p.phase = .readReverse keyHash)
      (hd : s.reverse.get s.now (hashPrefix keyHash) = some digest) :
      Stays s p (.delRecord keyHash digest s.recordWrites)
  | unmapped {keyHash : Text} (h : p.phase = .readReverse keyHash)
      (hd : s.reverse.get s.now (hashPrefix keyHash) = none) :
      Stays s p (.finished keyHash s.recordWrites)

end EditProc

/-! ## Authentication -/

def LegacyScan.resume : LegacyScan → AuthPhase
  | .found r => .reread r
  | .missed => .find .retry
  | .busy => .answered .unavailable

inductive AuthProc.Stays (crypto : Crypto) (s : Site) (os : List Proc) (p : AuthProc) :
    AuthProc → Prop
  | hit {c : CachedRecord} (h : p.phase = .readCache)
      (hc : s.records.get s.now (p.digest crypto) = some c) :
      Stays crypto s os p { p with phase := .finish c.record }
  | noRecord (h : p.phase = .readCache) (hc : s.records.get s.now (p.digest crypto) = none) :
      Stays crypto s os p { p with phase := .readMiss }
  | miss (h : p.phase = .readMiss) (hm : (s.misses.get s.now (p.digest crypto)).isSome = true) :
      Stays crypto s os p { p with phase := .answered .invalidKey }
  | noMiss (h : p.phase = .readMiss) (hm : ¬ (s.misses.get s.now (p.digest crypto)).isSome = true) :
      Stays crypto s os p { p with phase := .find .fast }
  | indexed {u : Use} {k : ApiKey} (h : p.phase = .find u)
      (hk : s.byLookupHash (p.digest crypto) = some k) :
      Stays crypto s os p { p with phase := .verifyFound u k.record }
  | unindexed {u : Use} (h : p.phase = .find u) (hk : s.byLookupHash (p.digest crypto) = none) :
      Stays crypto s os p { p with phase := u.notFound }
  | verified {u : Use} {r : ApiKeyRecord} (h : p.phase = .verifyFound u r)
      (hv : crypto.verify p.token r.keyHash = true) :
      Stays crypto s os p { p with phase := p.found r u }
  | unverified {u : Use} {r : ApiKeyRecord} (h : p.phase = .verifyFound u r)
      (hv : ¬ crypto.verify p.token r.keyHash = true) :
      Stays crypto s os p { p with phase := u.notFound }
  | reread {r : ApiKeyRecord} {k : ApiKey} (h : p.phase = .reread r) (hk : s.key r.id = some k)
      (ha : k.isActive = true) :
      Stays crypto s os p { p with phase := .setRecord (r.refreshed k) }
  | inactive {r : ApiKeyRecord} (h : p.phase = .reread r)
      (hk : ∀ k, s.key r.id = some k → ¬ k.isActive = true) :
      Stays crypto s os p { p with phase := .answered .inactive }
  | join (h : p.phase = .join) : Stays crypto s os p { p with
      phase := .await, ticket := some (flightOutcome crypto os (p.flight crypto)) }
  | impatient (h : p.phase = .await) (hi : p.impatient = true) :
      Stays crypto s os p { p with phase := .answered .unavailable, ticket := none }
  | told {scan : LegacyScan} (h : p.phase = .await)
      (hl : ¬ flightLed crypto os (p.flight crypto) = true) (ht : p.ticket.join = some scan) :
      Stays crypto s os p { p with phase := scan.resume, ticket := none }
  | lead (h : p.phase = .await) (hl : ¬ flightLed crypto os (p.flight crypto) = true)
      (ht : p.ticket.join = none) : Stays crypto s os p { p with phase := .charge }
  | noCandidates (h : p.phase = .candidates) (hc : s.legacyCandidates p.token = []) :
      Stays crypto s os p { p with phase := .publish .missed }
  | candidates (h : p.phase = .candidates) :
      Stays crypto s os p { p with phase := .turn (s.legacyCandidates p.token) }
  | busy {cs : List ApiKeyRecord} (h : p.phase = .turn cs) (hb : p.busy = true) :
      Stays crypto s os p { p with phase := .publish .busy }
  | waited {cs : List ApiKeyRecord} (h : p.phase = .turn cs) (hw : p.waits = true) :
      Stays crypto s os p { p with phase := .recheckCache }
  | turn {cs : List ApiKeyRecord} (h : p.phase = .turn cs) :
      Stays crypto s os p { p with phase := .verifyNext cs }
  | recheckHit {c : CachedRecord} (h : p.phase = .recheckCache)
      (hc : s.records.get s.now (p.digest crypto) = some c) :
      Stays crypto s os p { p with phase := .publish (.found c.record) }
  | recheckNoRecord (h : p.phase = .recheckCache)
      (hc : s.records.get s.now (p.digest crypto) = none) :
      Stays crypto s os p { p with phase := .recheckMiss }
  | recheckMissed (h : p.phase = .recheckMiss)
      (hm : (s.misses.get s.now (p.digest crypto)).isSome = true) :
      Stays crypto s os p { p with phase := .publish .missed }
  | recheckNoMiss (h : p.phase = .recheckMiss) : Stays crypto s os p { p with phase := .find .waited }
  | candidatesAgain (h : p.phase = .candidatesAgain) :
      Stays crypto s os p { p with phase := .verifyNext (s.legacyCandidates p.token) }
  | exhausted (h : p.phase = .verifyNext []) :
      Stays crypto s os p { p with phase := .publish .missed }
  | matched {r : ApiKeyRecord} {cs : List ApiKeyRecord} (h : p.phase = .verifyNext (r :: cs))
      (hv : crypto.verify p.token r.keyHash = true) :
      Stays crypto s os p { p with phase := .backfill r }
  | unmatched {r : ApiKeyRecord} {cs : List ApiKeyRecord} (h : p.phase = .verifyNext (r :: cs))
      (hv : ¬ crypto.verify p.token r.keyHash = true) :
      Stays crypto s os p { p with phase := .verifyNext cs }
  | finish {r : ApiKeyRecord} (h : p.phase = .finish r) :
      Stays crypto s os p { p with phase := .answered (if !r.isActive then .inactive
        else if r.expiresAt.any (· < s.now) then .expired else .accepted r) }

/-- The commands of an authentication, the phases they belong to and those they lead to. -/
inductive AuthProc.Runs (crypto : Crypto) (s : Site) (p : AuthProc) : Command → AuthProc → Prop
  | setRecord {r : ApiKeyRecord} (h : p.phase = .setRecord r) :
      Runs crypto s p (.setRecord (p.digest crypto) r) { p with phase := .setReverse r }
  | setReverse {r : ApiKeyRecord} (h : p.phase = .setReverse r) :
      Runs crypto s p (.setReverse (hashPrefix r.keyHash) (p.digest crypto))
        { p with phase := .finish r }
  | setMiss (h : p.phase = .setMiss) :
      Runs crypto s p (.setMiss (p.digest crypto)) { p with phase := .answered .invalidKey }
  | charge (h : p.phase = .charge) (hle : (s.chargeCounter p.budget).value ≤ p.budget.limit) :
      Runs crypto s p (.charge p.budget) { p with
        phase := .candidates
        charged := some (((Command.charge p.budget).run s).windows p.budget) }
  | overBudget (h : p.phase = .charge) (hlt : ¬ (s.chargeCounter p.budget).value ≤ p.budget.limit) :
      Runs crypto s p (.charge p.budget) { p with phase := .answered .invalidKey, ticket := none }
  | backfill {r : ApiKeyRecord} (h : p.phase = .backfill r) :
      Runs crypto s p (.backfill r.id (p.digest crypto)) { p with phase := .publish (.found r) }
  | missed (h : p.phase = .publish .missed) : Runs crypto s p (.publish (p.flight crypto) .missed)
      { p with phase := .find .retry, ticket := none }
  | found {r : ApiKeyRecord} (h : p.phase = .publish (.found r)) :
      Runs crypto s p (.publish (p.flight crypto) (.found r))
        { p with phase := .refundDecr (.cache r) }
  | busy (h : p.phase = .publish .busy) :
      Runs crypto s p (.publish (p.flight crypto) .busy) { p with phase := .refundDecr .busy }
  | decr {a : After} (h : p.phase = .refundDecr a) (hle : (s.decrCounter p.budget).value ≤ 0) :
      Runs crypto s p (.decr p.budget) { p with phase := .refundDel a }
  | refunded {a : After} (h : p.phase = .refundDecr a)
      (hlt : ¬ (s.decrCounter p.budget).value ≤ 0) :
      Runs crypto s p (.decr p.budget) { p with phase := a.phase, ticket := none }
  | del {a : After} (h : p.phase = .refundDel a) :
      Runs crypto s p (.del p.budget) { p with phase := a.phase, ticket := none }

namespace AuthProc

theorem found_cases (p : AuthProc) (r : ApiKeyRecord) (u : Use) :
    p.found r u = .reread r ∧ u ≠ .waited ∨ p.found r u = .publish (.found r) ∧ u = .waited ∨
      p.found r u = .refundDecr (.cache r) ∧ u = .retry := by
  cases u with
  | fast => exact .inl ⟨rfl, nofun⟩
  | waited => exact .inr (.inl ⟨rfl, rfl⟩)
  | retry =>
    by_cases hc : p.charged.isSome = true
    · exact .inr (.inr ⟨if_pos hc, rfl⟩)
    · exact .inl ⟨if_neg hc, nofun⟩

end AuthProc

/-! ## Every request -/

/-- **What a request may do in a step**: wait, a step on itself, its end, or a command. -/
inductive Proc.Moves (crypto : Crypto) (s : Site) (os : List Proc) : Proc → Option Move → Prop
  | wait {p : Proc} : Moves crypto s os p none
  | stay {p q : AuthProc} (h : AuthProc.Stays crypto s os p q) :
      Moves crypto s os (.auth p) (some (.stay (.auth q)))
  /-- A request leaves once it is answered. -/
  | quit {p : AuthProc} {a : AuthAnswer} (h : p.phase = .answered a) :
      Moves crypto s os (.auth p) (some .quit)
  | run {p q : AuthProc} {c : Command} (h : AuthProc.Runs crypto s p c q) :
      Moves crypto s os (.auth p) (some (.run c (some (.auth q))))
  | edit {p : EditProc} {phase : EditPhase} (h : EditProc.Stays s p phase) :
      Moves crypto s os (.edit p) (some (.stay (p.goTo phase)))
  | edited {p : EditProc} : Moves crypto s os (.edit p) (some .quit)
  /-- The columns of the edit are set. -/
  | assign {p : EditProc} {e : ApiKey} (he : p.existing = some e) :
      Moves crypto s os (.edit p) (some (.run (.assign p.id (p.edit.writes e))
        (some (p.goTo (.readReverse e.keyHash)))))
  | delRecord {p : EditProc} {keyHash digest : Text} {since : Nat}
      (h : p.phase = .delRecord keyHash digest since) :
      Moves crypto s os (.edit p) (some (.run (.delRecord digest)
        (some (p.goTo (.delReverse keyHash since)))))
  | delReverse {p : EditProc} {keyHash : Text} {since : Nat} (h : p.phase = .delReverse keyHash since) :
      Moves crypto s os (.edit p) (some (.run (.delReverse (hashPrefix keyHash))
        (some (p.goTo (.finished keyHash since)))))
  | clock {d : Nat} : Moves crypto s os (.clock d) (some (.run (.advance d) none))
  | organization {org : OrgId} {deleted : Bool} :
      Moves crypto s os (.organization org deleted) (some (.run (.setOrg org deleted) none))

theorem EditProc.moves (crypto : Crypto) (s : Site) (os : List Proc) (p : EditProc) :
    Proc.Moves crypto s os (.edit p) (p.act s os) := by
  have hrow : ∀ {k}, ((s.key p.id).filter (·.organizationId == p.org)) = some k →
      s.key p.id = some k := fun hk => (Option.filter_eq_some_iff.1 hk).1
  have hex : ∀ {phase}, p.phase = phase → p.existing = phase.existing :=
    congrArg EditPhase.existing
  cases hphase : p.phase <;> simp only [act, hphase]
  case read =>
    split
    · exact .edit .refused
    split
    · exact .edit .refused
    · next k hk _ => exact .edit (.read (hrow hk) rfl)
    · next k r hk _ =>
      split
      · exact .edit .refused
      split <;> exact .edit (.read (hrow hk) rfl)
  case lockCap e =>
    split
    · exact .wait
    · exact .edit (.keep (hex hphase) rfl)
  case forUpdate e =>
    split
    · exact .wait
    split
    · split
      · exact .edit (.keep (hex hphase) rfl)
      · exact .edit .refused
    · exact .edit .refused
  case write e capped =>
    split
    · exact .wait
    split
    · exact .edit .refused
    split
    · exact .edit (.keep (hex hphase) rfl)
    · exact .assign (hex hphase)
  case commit e capped => exact .assign (hex hphase)
  case readReverse keyHash =>
    split
    · next hd => exact .edit (.mapped hphase hd)
    · next hd => exact .edit (.unmapped hphase hd)
  case delRecord keyHash digest since => exact .delRecord hphase
  case delReverse keyHash since => exact .delReverse hphase
  case finished | refused => exact .edited

theorem AuthProc.moves (crypto : Crypto) (s : Site) (os : List Proc) (p : AuthProc) :
    Proc.Moves crypto s os (.auth p) (p.act crypto s os) := by
  cases hphase : p.phase <;> simp only [act, hphase]
  case readCache =>
    split
    · next hc => exact .stay (.hit hphase hc)
    · next hc => exact .stay (.noRecord hphase hc)
  case readMiss =>
    split
    · next hm => exact .stay (.miss hphase hm)
    · next hm => exact .stay (.noMiss hphase hm)
  case find u =>
    split
    · next hk => exact .stay (.indexed hphase hk)
    · next hk => exact .stay (.unindexed hphase hk)
  case verifyFound u r =>
    split
    · next hv => exact .stay (.verified hphase hv)
    · next hv => exact .stay (.unverified hphase hv)
  case reread r =>
    split
    · next k hk =>
      split
      · next ha => exact .stay (.reread hphase hk ha)
      · next ha =>
        refine .stay (.inactive hphase fun k' hk' => ?_)
        cases hk.symm.trans hk'
        exact ha
    · next hk => exact .stay (.inactive hphase fun k' hk' => by cases hk.symm.trans hk')
  case setRecord r => exact .run (.setRecord hphase)
  case setReverse r => exact .run (.setReverse hphase)
  case join => exact .stay (.join hphase)
  case await =>
    split
    · split
      · next hi => exact .stay (.impatient hphase hi)
      · exact .wait
    · next hl =>
      split
      · next ht => exact .stay (.told hphase hl ht)
      · next ht => exact .stay (.told hphase hl ht)
      · next ht => exact .stay (.told hphase hl ht)
      · next ht => exact .stay (.lead hphase hl ht)
  case charge =>
    split
    · next hle => exact .run (.charge hphase hle)
    · next hlt => exact .run (.overBudget hphase hlt)
  case candidates =>
    split
    · next hc => exact .stay (.noCandidates hphase hc)
    · exact .stay (.candidates hphase)
  case turn cs =>
    split
    · next hb => exact .stay (.busy hphase hb)
    · split
      · next hw => exact .stay (.waited hphase hw)
      · exact .stay (.turn hphase)
  case recheckCache =>
    split
    · next hc => exact .stay (.recheckHit hphase hc)
    · next hc => exact .stay (.recheckNoRecord hphase hc)
  case recheckMiss =>
    split
    · next hm => exact .stay (.recheckMissed hphase hm)
    · exact .stay (.recheckNoMiss hphase)
  case candidatesAgain => exact .stay (.candidatesAgain hphase)
  case verifyNext cs =>
    cases cs with
    | nil =>
      dsimp only
      exact .stay (.exhausted hphase)
    | cons r cs =>
      dsimp only
      split
      · next hv => exact .stay (.matched hphase hv)
      · next hv => exact .stay (.unmatched hphase hv)
  case backfill r =>
    split
    · exact .wait
    · exact .run (.backfill hphase)
  case publish scan =>
    cases scan with
    | missed => exact .run (.missed hphase)
    | found r => exact .run (.found hphase)
    | busy => exact .run (.busy hphase)
  case refundDecr a =>
    split
    · next hle => exact .run (.decr hphase hle)
    · next hlt => exact .run (.refunded hphase hlt)
  case refundDel a => exact .run (.del hphase)
  case setMiss => exact .run (.setMiss hphase)
  case finish r => exact .stay (.finish hphase)
  case answered a => exact .quit hphase

theorem Proc.moves {p : Proc} {m : Option Move} (h : p.act crypto s os = m) :
    Moves crypto s os p m := by
  subst h
  cases p with
  | auth p | edit p => exact p.moves crypto s os
  | clock => exact .clock
  | organization => exact .organization

namespace AuthProc

variable {p q : AuthProc}

theorem token_of_flight (h : q.flight crypto = p.flight crypto) : q.token = p.token :=
  crypto.lookupHash_inj (congrArg FlightKey.digest h)

theorem Runs.publish {f : FlightKey} {scan : LegacyScan}
    (h : Runs crypto s p (.publish f scan) q) : f = p.flight crypto ∧ p.phase = .publish scan := by
  cases h with
  | missed h | found h | busy h => exact ⟨rfl, h⟩

theorem Runs.token (h : Runs crypto s p c q) : q.token = p.token := by
  cases h <;> rfl

end AuthProc

/-! ## The records and hashes a request goes by -/

def Site.hashes (s : Site) : List Text := s.keys.rows.map ApiKey.keyHash

/-- The hash of the key that a `PUT` or `DELETE` is about. -/
def EditPhase.hash : EditPhase → Option Text
  | .lockCap e | .forUpdate e | .write e _ | .commit e _ => some e.keyHash
  | .readReverse kh | .delRecord kh _ _ | .delReverse kh _ | .finished kh _ => some kh
  | .read | .refused => none

theorem EditPhase.hash_of_existing {phase : EditPhase} {e : ApiKey} (h : phase.existing = some e) :
    phase.hash = some e.keyHash := by
  cases phase <;> cases h <;> rfl

def LegacyScan.records : LegacyScan → List ApiKeyRecord
  | .found r => [r]
  | .missed | .busy => []

def AuthPhase.verified : AuthPhase → List ApiKeyRecord
  | .reread r | .setRecord r | .setReverse r | .backfill r | .refundDecr (.cache r)
  | .refundDel (.cache r) | .finish r => [r]
  | .publish scan => scan.records
  | _ => []

def AuthPhase.unchecked : AuthPhase → List ApiKeyRecord
  | .verifyFound _ r => [r]
  | .turn cs | .verifyNext cs => cs
  | _ => []

namespace AuthProc

def told (p : AuthProc) : List ApiKeyRecord := (p.ticket.join.map LegacyScan.records).getD []

/-- How a request comes to a record that its token matches. -/
inductive Origin (crypto : Crypto) (s : Site) (p : AuthProc) : ApiKeyRecord → Prop
  | kept {r : ApiKeyRecord} (h : r ∈ p.phase.verified) : Origin crypto s p r
  | told {r : ApiKeyRecord} (h : r ∈ p.told) : Origin crypto s p r
  | checked {r : ApiKeyRecord} (h : r ∈ p.phase.unchecked)
      (hv : crypto.verify p.token r.keyHash = true) : Origin crypto s p r
  | cached {c : CachedRecord} (h : s.records.get s.now (p.digest crypto) = some c) :
      Origin crypto s p c.record
  | reread {r : ApiKeyRecord} {k : ApiKey} (h : r ∈ p.phase.verified) (hk : s.key r.id = some k) :
      Origin crypto s p (r.refreshed k)

structure Follows (crypto : Crypto) (s : Site) (os : List Proc) (p q : AuthProc) : Prop where
  token : q.token = p.token
  budget : q.budget = p.budget
  verified : ∀ r ∈ q.phase.verified, Origin crypto s p r
  unchecked : ∀ r ∈ q.phase.unchecked, r ∈ p.phase.unchecked ∨ ∃ k ∈ s.keys.rows, r = k.record
  told : ∀ r ∈ q.told, r ∈ p.told ∨
    ∃ o, Proc.auth o ∈ os ∧ o.flight crypto = p.flight crypto ∧ r ∈ o.told

variable {p q : AuthProc} {phase : AuthPhase}

theorem Follows.goTo (hverified : ∀ r ∈ phase.verified, Origin crypto s p r)
    (hunchecked : ∀ r ∈ phase.unchecked, r ∈ p.phase.unchecked ∨ ∃ k ∈ s.keys.rows, r = k.record) :
    Follows crypto s os p { p with phase } :=
  ⟨rfl, rfl, hverified, hunchecked, fun _ h => .inl h⟩

theorem Follows.leave (hverified : ∀ r ∈ phase.verified, Origin crypto s p r)
    (hunchecked : phase.unchecked = []) :
    Follows crypto s os p { p with phase, ticket := none } :=
  ⟨rfl, rfl, hverified, by simp [hunchecked], fun _ h => absurd h List.not_mem_nil⟩

theorem Follows.plain (hv : phase.verified = []) (hu : phase.unchecked = []) :
    Follows crypto s os p { p with phase } :=
  .goTo (by simp [hv]) (by simp [hu])

theorem Follows.one {r : ApiKeyRecord} (hr : Origin crypto s p r) (hv : phase.verified = [r])
    (hu : phase.unchecked = []) : Follows crypto s os p { p with phase } := by
  refine .goTo (fun r' hr' => ?_) (by simp [hu])
  rw [hv] at hr'
  exact List.mem_singleton.1 hr' ▸ hr

theorem row_of_byLookupHash {d : Text} {k : ApiKey} (h : s.byLookupHash d = some k) :
    k ∈ s.keys.rows :=
  List.mem_of_find?_eq_some h

theorem row_of_legacyCandidates {t : Text} {r : ApiKeyRecord} (h : r ∈ s.legacyCandidates t) :
    ∃ k ∈ s.keys.rows, r = k.record := by
  obtain ⟨k, hk, rfl⟩ := List.mem_map.1 h
  exact ⟨k, List.mem_of_mem_filter (List.mem_of_mem_take hk), rfl⟩

theorem flightOutcome_eq_some {f : FlightKey} {scan : LegacyScan}
    (h : flightOutcome crypto os f = some scan) :
    ∃ o, Proc.auth o ∈ os ∧ o.flight crypto = f ∧ o.ticket.join = some scan := by
  obtain ⟨o, ho, hscan⟩ := List.exists_of_findSome?_eq_some h
  cases o with
  | auth o =>
    dsimp only at hscan
    split at hscan
    · next hf => exact ⟨o, ho, eq_of_beq hf, hscan⟩
    · cases hscan
  | edit | clock | organization => cases hscan

/-- **Steps of an authentication and the records it goes by.** -/
theorem follows_of_stay (h : Stays crypto s os p q) : Follows crypto s os p q := by
  cases h with
  | hit h hc | recheckHit h hc => exact .one (.cached hc) rfl rfl
  | noRecord | miss | noMiss | recheckNoRecord | recheckMissed | recheckNoMiss | lead
  | noCandidates | busy | waited | exhausted | inactive | finish => exact .plain rfl rfl
  | indexed h hk =>
    refine .goTo (by simp [AuthPhase.verified]) fun r hr => .inr ⟨_, row_of_byLookupHash hk, ?_⟩
    exact List.mem_singleton.1 hr
  | @unindexed u | @unverified u => cases u <;> exact .plain rfl rfl
  | @verified u r h hv =>
    have hr : Origin crypto s p r := .checked (by simp [h, AuthPhase.unchecked]) hv
    rcases found_cases p r u with ⟨he, -⟩ | ⟨he, -⟩ | ⟨he, -⟩ <;> rw [he] <;> exact .one hr rfl rfl
  | reread h hk ha => exact .one (.reread (by simp [h, AuthPhase.verified]) hk) rfl rfl
  | join h =>
    refine ⟨rfl, rfl, by simp [AuthPhase.verified], by simp [AuthPhase.unchecked],
      fun r hr => .inr ?_⟩
    cases ho : flightOutcome crypto os (p.flight crypto) with
    | none => simp [AuthProc.told, ho] at hr
    | some scan =>
      obtain ⟨o, hmem, hflight, hticket⟩ := flightOutcome_eq_some ho
      refine ⟨o, hmem, hflight, ?_⟩
      simpa [AuthProc.told, ho, hticket] using hr
  | impatient h hi => exact .leave (by simp [AuthPhase.verified]) rfl
  | @told scan h hl ht =>
    refine .leave (fun r hr => .told ?_) (by cases scan <;> rfl)
    unfold AuthProc.told
    rw [ht]
    cases scan with
    | found r => exact hr
    | missed | busy => exact absurd hr List.not_mem_nil
  | candidates h | candidatesAgain h =>
    exact .goTo (by simp [AuthPhase.verified]) fun r hr => .inr (row_of_legacyCandidates hr)
  | turn h =>
    refine .goTo (by simp [AuthPhase.verified]) fun r hr => .inl ?_
    rw [h]
    exact hr
  | matched h hv => exact .one (.checked (by simp [h, AuthPhase.unchecked]) hv) rfl rfl
  | unmatched h hv =>
    refine .goTo (by simp [AuthPhase.verified]) fun r hr => .inl ?_
    rw [h]
    exact List.mem_cons_of_mem _ hr

theorem follows_of_run (h : Runs crypto s p c q) : Follows crypto s os p q := by
  have hsame : ∀ {phase : AuthPhase}, phase.verified = p.phase.verified → phase.unchecked = [] →
      Follows crypto s os p { p with phase } := by
    intro phase hv hu
    exact .goTo (fun r hr => .kept (hv ▸ hr)) (by simp [hu])
  cases h with
  | setRecord h | setReverse h | backfill h | found h => exact hsame (by rw [h]; rfl) rfl
  | setMiss h | busy h => exact .plain rfl rfl
  | charge h hle =>
    exact ⟨rfl, rfl, by simp [AuthPhase.verified], by simp [AuthPhase.unchecked], fun _ h => .inl h⟩
  | overBudget h | missed h => exact .leave (by simp [AuthPhase.verified]) rfl
  | @decr a h hle =>
    cases a with
    | cache r => exact hsame (by rw [h]; rfl) rfl
    | busy => exact .plain rfl rfl
  | @refunded a h | @del a h =>
    cases a with
    | cache r => exact .leave (fun r' hr' => .kept (by rw [h]; exact hr')) rfl
    | busy => exact .leave (by simp [After.phase, AuthPhase.verified]) rfl

end AuthProc

/-! ## What a command does to a row -/

namespace Command

theorem key_assign (s : Site) (i : KeyId) (cols : Columns) (i' : KeyId) :
    ((Command.assign i cols).run s).key i' =
      (s.key i').map fun k => if i' = i then cols.assign k else k := by
  refine (Table.find_update s.keys (·.id == i) cols.assign (fun _ => rfl) i').trans ?_
  unfold Site.key
  cases hk : s.keys.find i' with
  | none => rfl
  | some k =>
    have hid : k.id = i' := Table.key_of_find hk
    simp only [Option.map_some, beq_iff_eq, hid]

theorem key_backfill (s : Site) (i : KeyId) (digest : Text) (i' : KeyId) :
    ((Command.backfill i digest).run s).key i' =
      (s.key i').map fun k =>
        if i' = i ∧ k.lookupHash = none then { k with lookupHash := some digest } else k := by
  refine (Table.find_update s.keys (fun k => k.id == i && k.lookupHash == none)
    (fun k => { k with lookupHash := some digest }) (fun _ => rfl) i').trans ?_
  unfold Site.key
  cases hk : s.keys.find i' with
  | none => rfl
  | some k =>
    have hid : k.id = i' := Table.key_of_find hk
    simp only [Option.map_some, Bool.and_eq_true, beq_iff_eq, hid]

theorem keys_of_ne (hb : ∀ i d, c ≠ .backfill i d) (ha : ∀ i cols, c ≠ .assign i cols) :
    (c.run s).keys = s.keys := by
  cases c with
  | backfill i d => exact absurd rfl (hb i d)
  | assign i cols => exact absurd rfl (ha i cols)
  | _ => rfl

/-- The columns that no request changes, and a `lookup_hash` once it is there. -/
structure SameKey (k k' : ApiKey) : Prop where
  id : k'.id = k.id
  organizationId : k'.organizationId = k.organizationId
  keyHash : k'.keyHash = k.keyHash
  keyPrefix : k'.keyPrefix = k.keyPrefix
  expiresAt : k'.expiresAt = k.expiresAt
  lookupHash : ∀ l ∈ k.lookupHash, k'.lookupHash = some l

theorem SameKey.refl (k : ApiKey) : SameKey k k := ⟨rfl, rfl, rfl, rfl, rfl, fun _ h => h⟩

/-- The row after a command is the row before it, its columns set or its `lookup_hash` filled in. -/
theorem key_run {k' : ApiKey} (h : (c.run s).key i = some k') : ∃ k, s.key i = some k ∧
    SameKey k k' ∧ ((∀ cols, c ≠ .assign i cols) → k'.isActive = k.isActive) ∧
    (k'.lookupHash = k.lookupHash ∨ ∃ d, c = .backfill i d ∧ k'.lookupHash = some d) := by
  by_cases hb : ∃ j d, c = .backfill j d
  · obtain ⟨j, d, rfl⟩ := hb
    rw [key_backfill] at h
    obtain ⟨k, hk, rfl⟩ := Option.map_eq_some_iff.1 h
    refine ⟨k, hk, ?_⟩
    split
    · next hi =>
      obtain ⟨rfl, hnone⟩ := hi
      refine ⟨⟨rfl, rfl, rfl, rfl, rfl, fun l hl => ?_⟩, fun _ => rfl, .inr ⟨d, rfl, rfl⟩⟩
      rw [hnone] at hl
      cases hl
    · exact ⟨.refl k, fun _ => rfl, .inl rfl⟩
  by_cases ha : ∃ j cols, c = .assign j cols
  · obtain ⟨j, cols, rfl⟩ := ha
    rw [key_assign] at h
    obtain ⟨k, hk, rfl⟩ := Option.map_eq_some_iff.1 h
    refine ⟨k, hk, ?_⟩
    split
    · next hi =>
      subst hi
      exact ⟨⟨rfl, rfl, rfl, rfl, rfl, fun _ hl => hl⟩, fun hne => absurd rfl (hne cols), .inl rfl⟩
    · exact ⟨.refl k, fun _ => rfl, .inl rfl⟩
  · push Not at hb ha
    rw [Site.key, keys_of_ne hb ha] at h
    exact ⟨k', h, .refl k', fun _ => rfl, .inl rfl⟩

theorem key_run_of_key {k : ApiKey} (hk : s.key i = some k) (c : Command) :
    ∃ k', (c.run s).key i = some k' ∧ SameKey k k' := by
  have hsome : ∃ k', (c.run s).key i = some k' := by
    by_cases hb : ∃ j d, c = .backfill j d
    · obtain ⟨j, d, rfl⟩ := hb
      rw [key_backfill, hk]
      exact ⟨_, rfl⟩
    by_cases ha : ∃ j cols, c = .assign j cols
    · obtain ⟨j, cols, rfl⟩ := ha
      rw [key_assign, hk]
      exact ⟨_, rfl⟩
    · push Not at hb ha
      rw [Site.key, keys_of_ne hb ha]
      exact ⟨k, hk⟩
  obtain ⟨k', hk'⟩ := hsome
  obtain ⟨k₀, hk₀, hsame, -⟩ := key_run hk'
  cases hk.symm.trans hk₀
  exact ⟨k', hk', hsame⟩

theorem usable_run {k k' : ApiKey} (hk : s.key i = some k) (h : (c.run s).key i = some k')
    (hassign : ∀ cols, c ≠ .assign i cols) (horg : ∀ org deleted, c ≠ .setOrg org deleted) :
    (c.run s).usable k' = s.usable k := by
  obtain ⟨k₀, hk₀, hsame, hactive, -⟩ := key_run h
  cases hk.symm.trans hk₀
  have hdeleted : (c.run s).deletedOrgs = s.deletedOrgs := by
    cases c with
    | setOrg org deleted => exact absurd rfl (horg org deleted)
    | _ => rfl
  unfold Site.usable
  rw [hactive hassign, hsame.organizationId, hdeleted]

@[simp] theorem hashes_run (s : Site) (c : Command) : (c.run s).hashes = s.hashes := by
  cases c with
  | assign i cols =>
    exact @Table.map_key_updateRows _ _ ApiKey.keyHash (·.id == i) cols.assign (fun _ => rfl) _
  | backfill i d =>
    exact @Table.map_key_updateRows _ _ ApiKey.keyHash _ (fun k => { k with lookupHash := some d })
      (fun _ => rfl) _
  | _ => rfl

end Command

section Records

open Command

variable {d : Text} {r : CachedRecord}

theorem Command.records_run {deadline : Time} (h : (c.run s).records d = some (r, deadline)) :
    s.records d = some (r, deadline) ∧ c ≠ .delRecord d ∨
      ∃ r', c = .setRecord d r' ∧ r = ⟨r', s.now, s.recordWrites⟩ ∧ deadline = s.now + cacheTtl := by
  cases c with
  | setRecord d' r' =>
    by_cases hd : d = d'
    · subst hd
      rw [show (Command.run s (.setRecord d r')).records d = _ from Expiring.set_self] at h
      cases h
      exact .inr ⟨r', rfl, rfl, rfl⟩
    · rw [show (Command.run s (.setRecord d' r')).records d = _ from Expiring.set_of_ne hd] at h
      exact .inl ⟨h, nofun⟩
  | delRecord d' =>
    by_cases hd : d = d'
    · subst hd
      rw [show (Command.run s (.delRecord d)).records d = _ from Expiring.delete_self] at h
      cases h
    · rw [show (Command.run s (.delRecord d')).records d = _ from Expiring.delete_of_ne hd] at h
      exact .inl ⟨h, fun he => hd (Command.delRecord.inj he).symm⟩
  | _ => exact .inl ⟨h, nofun⟩

theorem Command.now_le_run (s : Site) (c : Command) : s.now ≤ (c.run s).now := by
  cases c with
  | advance n => exact Nat.le_add_right _ _
  | _ => exact le_refl _

theorem Command.record_of_run (h : (c.run s).records.get (c.run s).now d = some r) :
    s.records.get s.now d = some r ∧ c ≠ .delRecord d ∨
      ∃ r', c = .setRecord d r' ∧ r = ⟨r', s.now, s.recordWrites⟩ := by
  obtain ⟨deadline, hr, hlt⟩ := Expiring.get_eq_some.1 h
  rcases Command.records_run hr with ⟨hr, hne⟩ | ⟨r', hc, hr, -⟩
  · exact .inl ⟨Expiring.get_eq_some.2
      ⟨deadline, hr, lt_of_le_of_lt (Command.now_le_run s c) hlt⟩, hne⟩
  · exact .inr ⟨r', hc, hr⟩

theorem Command.reverse_of_ne (hset : ∀ pre d, c ≠ .setReverse pre d)
    (hdel : ∀ pre, c ≠ .delReverse pre) : (c.run s).reverse = s.reverse := by
  cases c with
  | setReverse pre d => exact absurd rfl (hset pre d)
  | delReverse pre => exact absurd rfl (hdel pre)
  | _ => rfl

theorem Command.recordWrites_le_run (s : Site) (c : Command) :
    s.recordWrites ≤ (c.run s).recordWrites := by
  cases c with
  | setRecord => exact Nat.le_succ _
  | _ => exact le_refl _

end Records

theorem Site.hash_of_key {k : ApiKey} (h : s.key i = some k) : k.keyHash ∈ s.hashes :=
  List.mem_map_of_mem (Table.mem_of_find h)

theorem Command.tell_eq_auth {o : Proc} {q : AuthProc} (h : c.tell crypto o = .auth q) :
    ∃ q₀ ticket, o = .auth q₀ ∧ q = { q₀ with ticket } := by
  cases o with
  | auth o =>
    cases c with
    | publish f scan =>
      unfold Command.tell at h
      dsimp only at h
      split at h
      · cases h
        exact ⟨o, some (some scan), rfl, rfl⟩
      · cases h
        exact ⟨q, q.ticket, rfl, rfl⟩
    | _ =>
      cases h
      exact ⟨q, q.ticket, rfl, rfl⟩
  | edit | clock | organization => cases c <;> cases h

/-! ## Steps of the pool -/

section Move

variable {p : Proc}

theorem keyRequests_stay {p' : Proc} (he : (keyRequests crypto).act s os p = some (.stay p')) :
    p.act crypto s os = some (.stay p') := by
  obtain ⟨m, hm, hmove⟩ := Option.map_eq_some_iff.1 he
  cases m with
  | stay p'' =>
    cases hmove
    exact hm
  | quit | run => cases hmove

theorem keyRequests_share {s' : Site} {q : Option Proc} {tell : Proc → Proc}
    (he : (keyRequests crypto).act s os p = some (.share s' q tell)) :
    ∃ c, p.act crypto s os = some (.run c q) ∧ s' = c.run s ∧ tell = c.tell crypto := by
  obtain ⟨m, hm, hmove⟩ := Option.map_eq_some_iff.1 he
  cases m with
  | stay | quit => cases hmove
  | run c q' =>
    cases hmove
    exact ⟨c, hm, rfl, rfl⟩

theorem keyRequests_quit (he : (keyRequests crypto).act s os p = some .quit) :
    p.act crypto s os = some .quit := by
  obtain ⟨m, hm, hmove⟩ := Option.map_eq_some_iff.1 he
  cases m with
  | quit => exact hm
  | stay | run => cases hmove

end Move

theorem keyRequests_run {x x' : Pool Site Proc} {j : Nat}
    (hn : (keyRequests crypto).next x (.run j) = some x') : ∃ p m, x.procs[j]? = some p ∧
      p.act crypto x.store (x.procs.eraseIdx j) = some m ∧
      x' = (keyRequests crypto).after x.store (x.procs.eraseIdx j) (m.effect crypto x.store) := by
  obtain ⟨p, hp, hn⟩ := Option.bind_eq_some_iff.1 hn
  obtain ⟨e, he, rfl⟩ := Option.map_eq_some_iff.1 hn
  obtain ⟨m, hm, rfl⟩ := Option.map_eq_some_iff.1 he
  exact ⟨p, m, hp, hm, rfl⟩

end Spooled.Auth
