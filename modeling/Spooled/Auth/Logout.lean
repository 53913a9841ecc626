import Spooled.Auth.Session

/-!
# Logout is final

A logout writes a row that refuses the tokens of its session until the row
expires. The row covers every token of the session if it was not written too soon
after the login: it lives as long as a refresh token, while the verifier accepts a
token for another minute, and a request may then take up to half a minute to read
the row. Access tokens are covered in any case, those of requests in flight
included.
-/

namespace Spooled.Auth

variable {cfg : JwtSettings} {s : SessionStore} {p : TokenRequest} {c : SessionCommand}
  {phase : SessionPhase}

/-! ## What a request can do -/

inductive TokenRequest.Stays (cfg : JwtSettings) (s : SessionStore) (p : TokenRequest) :
    SessionPhase → Prop
  | refused {a : SessionAnswer} (ha : a = .unauthorized ∨ a = .unavailable) :
      Stays cfg s p (.answered a)
  | decoded {phase : SessionPhase} (h : p.phase = .decode) (hd : s.decodes p.claims = true)
      (hphase : phase = .blacklist ∨ phase = .sessionRow) : Stays cfg s p phase
  | checking {phase : SessionPhase} (h : p.phase = .blacklist ∨ p.phase = .sessionKey)
      (hphase : phase = .sessionKey ∨ phase = .sessionRow) : Stays cfg s p phase
  | unrevoked (h : p.phase = .sessionRow)
      (hs : ∀ sid ∈ p.claims.sid, s.sessionRevoked sid = false) : Stays cfg s p .key
  | authorized {phase : SessionPhase} (h : p.phase = .key ∨ p.phase = .keyExpiry ∨ p.phase = .org)
      (hphase : phase = .keyExpiry ∨ phase = .org ∨ phase = .mint ∨ phase = .expiresAt ∨
        phase = .answered .accepted) : Stays cfg s p phase
  | expiresAt {sid : Uuid} (h : p.phase = .expiresAt) (hsid : p.claims.sid = some sid) :
      Stays cfg s p (.prune sid (s.now + secs cfg.refreshSecs))
  | sidless (h : p.phase = .expiresAt) (hsid : p.claims.sid = none) : Stays cfg s p .setBlacklist
  | unpruned {sid : Uuid} {e : Time} (h : p.phase = .prune sid e) : Stays cfg s p (.insert sid e)
  | finish (h : p.phase = .setBlacklist ∨ (∃ sid, p.phase = .setSession sid) ∨
      p.phase = .setRefresh) : Stays cfg s p .finish

inductive TokenRequest.Runs (cfg : JwtSettings) (s : SessionStore) (p : TokenRequest) :
    SessionCommand → SessionPhase → Prop
  | mint (h : p.phase = .mint) : Runs cfg s p (.mint p.claims) (.answered .minted)
  | prune {sid : Uuid} {e : Time} (h : p.phase = .prune sid e) :
      Runs cfg s p .prune (.insert sid e)
  | revoke {sid : Uuid} {e : Time} {phase : SessionPhase} (h : p.phase = .insert sid e)
      (hphase : phase = .setBlacklist ∨ phase = .finish) : Runs cfg s p (.revoke sid e) phase
  | blacklist {jti : Uuid} {ttl : Nat} {phase : SessionPhase}
      (h : p.phase = .setBlacklist ∨ p.phase = .setRefresh)
      (hphase : (∃ sid, phase = .setSession sid) ∨ phase = .setRefresh ∨ phase = .finish) :
      Runs cfg s p (.blacklist jti ttl) phase
  | cacheSession {sid : Uuid} (h : p.phase = .setSession sid) :
      Runs cfg s p (.cacheSession sid cfg.refreshSecs) .setRefresh
  | answer (h : p.phase = .finish) : Runs cfg s p (.answer p.claims.sid) (.answered .noContent)

namespace TokenRequest

theorem look_stays (hc : p.command cfg s = none) (hf : p.failing s = false)
    (ha : ∀ a, p.phase ≠ .answered a) : p.Stays cfg s (p.look cfg s) := by
  unfold look
  cases hphase : p.phase with
  | decode =>
    dsimp only
    split
    · next hd =>
      refine .decoded hphase hd.1 ?_
      split
      · exact .inl rfl
      · exact .inr rfl
    · exact .refused (.inl rfl)
  | blacklist =>
    dsimp only
    split
    · split
      · exact .checking (.inl hphase) (.inr rfl)
      · exact .refused (.inl rfl)
    · split
      · exact .refused (.inl rfl)
      · exact .checking (.inl hphase) (.inl rfl)
  | sessionKey =>
    dsimp only
    split
    · exact .refused (.inl rfl)
    · exact .checking (.inr hphase) (.inr rfl)
  | sessionRow =>
    dsimp only
    split
    · exact .refused (.inl rfl)
    · next hn =>
      refine .unrevoked hphase fun sid hsid => ?_
      rw [Option.mem_def.1 hsid] at hn
      simpa using hn
  | key =>
    dsimp only
    split
    · exact .refused (.inl rfl)
    · split
      · exact .authorized (.inl hphase) (.inl rfl)
      · exact .refused (.inl rfl)
    · split
      · exact .authorized (.inl hphase) (.inr (.inl rfl))
      · exact .refused (.inl rfl)
  | keyExpiry =>
    dsimp only
    split
    · exact .refused (.inl rfl)
    · exact .authorized (.inr (.inl hphase)) (.inr (.inr (.inl rfl)))
  | org =>
    dsimp only
    split
    · split
      · exact .authorized (.inr (.inr hphase)) (.inr (.inr (.inr (.inl rfl))))
      · exact .authorized (.inr (.inr hphase)) (.inr (.inr (.inr (.inr rfl))))
    · exact .refused (.inl rfl)
  | expiresAt =>
    dsimp only
    split
    · split
      · next sid hsid => exact .expiresAt hphase hsid
      · next hsid =>
        split
        · exact .sidless hphase hsid
        · exact .refused (.inr rfl)
    · exact .refused (.inl rfl)
  | prune sid e => exact .unpruned hphase
  | setRefresh => exact .finish (.inr (.inr hphase))
  | answered a => exact absurd hphase (ha a)
  -- these phases have a command, unless Redis fails it
  | mint | insert | finish => simp [command, hphase] at hc
  | setBlacklist | setSession =>
    simp [command, hphase] at hc
    simp [failing, hphase, hc] at hf

theorem redisFailed_stays (hf : p.failing s = true) : p.Stays cfg s p.redisFailed := by
  have hphase : p.phase = .setBlacklist ∨ (∃ sid, p.phase = .setSession sid) ∨
      p.phase = .setRefresh := by
    unfold failing at hf
    cases hphase : p.phase with
    | setBlacklist => exact .inl rfl
    | setSession sid => exact .inr (.inl ⟨sid, rfl⟩)
    | setRefresh => exact .inr (.inr rfl)
    | _ => simp [hphase] at hf
  unfold redisFailed
  split
  · exact .finish hphase
  · exact .refused (.inr rfl)

theorem act_stay {q : SessionProc} (h : p.act cfg s = .stay q) :
    ∃ phase, q = .request (p.goTo phase) ∧ p.timedOut s = false ∧ p.Stays cfg s phase := by
  unfold act at h
  split at h
  · cases h
  · next htime =>
    split at h
    · cases h
    · next ha =>
      split at h
      · cases h
      · next hc =>
        cases h
        refine ⟨_, rfl, Bool.eq_false_iff.2 htime, ?_⟩
        split
        · next hf => exact redisFailed_stays hf
        · next hf => exact look_stays hc (Bool.eq_false_iff.2 hf) ha

theorem command_runs (h : p.command cfg s = some (c, phase)) : p.Runs cfg s c phase := by
  unfold command at h
  cases hphase : p.phase <;> simp only [hphase] at h
  case mint =>
    cases h
    exact .mint hphase
  case prune sid e =>
    split at h
    · cases h
    · cases h
      exact .prune hphase
  case insert sid e =>
    cases h
    refine .revoke hphase ?_
    split
    · exact .inl rfl
    · exact .inr rfl
  case setBlacklist =>
    split at h
    · cases h
      refine .blacklist (.inl hphase) ?_
      cases p.claims.sid with
      | none => exact .inr (.inl rfl)
      | some sid => exact .inl ⟨sid, rfl⟩
    · cases h
  case setSession sid =>
    split at h
    · cases h
      exact .cacheSession hphase
    · cases h
  case setRefresh =>
    split at h
    · split at h
      · cases h
        exact .blacklist (.inr hphase) (.inr (.inr rfl))
      · cases h
    · cases h
  case finish =>
    cases h
    exact .answer hphase
  all_goals cases h

theorem act_run {q : Option SessionProc} (h : p.act cfg s = .run c q) :
    ∃ phase, q = some (.request (p.goTo phase)) ∧ p.timedOut s = false ∧ p.Runs cfg s c phase := by
  unfold act at h
  split at h
  · cases h
  · next htime =>
    split at h
    · cases h
    · split at h
      · next hc =>
        cases h
        exact ⟨_, rfl, Bool.eq_false_iff.2 htime, command_runs hc⟩
      · cases h

end TokenRequest

/-! ## The rows cover the tokens -/

/-- A token is refused, row or no row, from this long after its `exp` on: the leeway, the rest of
the second, and the time a request may take. -/
def graceSecs : Nat := 91

def SessionStore.refusedUntil (s : SessionStore) (sid : Uuid) : Time :=
  (s.revokedSessions sid).getD s.now

/-- Every token of the session is past use at `t`. -/
def SessionStore.CoveredBy (s : SessionStore) (sid : Uuid) (t : Time) : Prop :=
  ∀ c ∈ s.issued, c.sid = some sid → secs (c.exp + graceSecs) ≤ t

structure SessionStore.Sane (cfg : JwtSettings) (s : SessionStore) : Prop where
  issued : ∀ c ∈ s.issued, ∀ sid ∈ c.sid, sid < s.nextUuid
  revokedFrom : ∀ sid t, s.revokedFrom sid = some t → sid < s.nextUuid ∧ t ≤ s.now ∧
    t + secs cfg.refreshSecs ≤ s.refusedUntil sid + requestTimeout ∧
    s.CoveredBy sid (s.refusedUntil sid)
  loggedOut : ∀ sid n, s.loggedOut sid = some n → s.revokedFrom sid ≠ none

/-- Between the decoding of the token and the answer. -/
def SessionPhase.decoded : SessionPhase → Bool
  | .decode | .answered _ => false
  | _ => true

def SessionPhase.revoked : SessionPhase → Bool
  | .setBlacklist | .setSession _ | .setRefresh | .finish => true
  | _ => false

def SessionPhase.writes : SessionPhase → Option (Uuid × Time)
  | .prune sid e | .insert sid e => some (sid, e)
  | _ => none

structure TokenRequest.Sane (cfg : JwtSettings) (s : SessionStore) (p : TokenRequest) : Prop where
  started : p.started ≤ s.now
  number : p.number < s.arrivals
  decoded : p.phase.decoded = true →
    p.claims ∈ s.issued ∧ p.started < secs (p.claims.exp + jwtLeeway + 1)
  passed : p.passed = true → ∀ sid ∈ p.claims.sid,
    (∀ t, s.revokedFrom sid = some t → p.started ≤ t) ∧
    ∀ n, s.loggedOut sid = some n → p.number < n
  writes : ∀ sid e, p.phase.writes = some (sid, e) → p.claims.sid = some sid ∧
    p.started + secs cfg.refreshSecs ≤ e ∧ (p.timedOut s = false → s.CoveredBy sid e)
  revoked : p.phase.revoked = true → ∀ sid ∈ p.claims.sid, s.revokedFrom sid ≠ none

def SessionProc.Sane (cfg : JwtSettings) (s : SessionStore) : SessionProc → Prop
  | request p => p.Sane cfg s
  | login _ | environment _ => True

/-- The handler takes `expires_at` from the clock when every token of the session will be past use
by then. -/
def TokenRequest.logsOutInTime (cfg : JwtSettings) (s : SessionStore) (p : TokenRequest) : Bool :=
  p.phase != .expiresAt || s.issued.all fun c =>
    c.sid != p.claims.sid || decide (secs (c.exp + graceSecs) ≤ s.now + secs cfg.refreshSecs)

def SessionProc.logsOutInTime (cfg : JwtSettings) (s : SessionStore) : SessionProc → Bool
  | request p => p.logsOutInTime cfg s
  | _ => true

@[reducible] def logoutsInTime (cfg : JwtSettings) : PoolSpec.Allow (sessionRequests cfg).pool :=
  .onRun (sessionRequests cfg).pool fun s _ p => SessionProc.logsOutInTime cfg s p

/-! ## Commands -/

def SessionCommand.Lawful (cfg : JwtSettings) (s : SessionStore) : SessionCommand → Prop
  | .mint c => ∀ sid ∈ c.sid, sid < s.nextUuid ∧
      ∀ t, s.revokedFrom sid = some t → s.now ≤ t + requestTimeout
  | .revoke sid e => sid < s.nextUuid ∧ s.now + secs cfg.refreshSecs ≤ e + requestTimeout ∧
      s.CoveredBy sid e
  | .answer sid => ∀ sid' ∈ sid, s.revokedFrom sid' ≠ none
  | _ => True

theorem JwtSettings.access_le (cfg : JwtSettings) (now : Time) :
    secs (unixSeconds now + cfg.accessSecs + graceSecs) + requestTimeout + requestTimeout ≤
      now + secs cfg.refreshSecs := by
  have hle : ∀ h n : Nat, 0 < h →
      (n / 1000 + h * 3600 + 91) * 1000 + 30 * 1000 + 30 * 1000 ≤ n + h * 24 * 3600 * 1000 := by
    omega
  exact hle _ _ cfg.pos

theorem SessionStore.CoveredBy.mono {sid : Uuid} {t t' : Time} (h : s.CoveredBy sid t)
    (hle : t ≤ t') : s.CoveredBy sid t' := fun c hc hsid => (h c hc hsid).trans hle

theorem SessionStore.CoveredBy.issue {s' : SessionStore} {sid : Uuid} {t : Time}
    (h : s.CoveredBy sid t) (cs : List Claims) (hissued : s'.issued = cs ++ s.issued)
    (hcs : ∀ c ∈ cs, c.sid = some sid → secs (c.exp + graceSecs) ≤ t) : s'.CoveredBy sid t := by
  intro c hc hsid
  rw [hissued] at hc
  rcases List.mem_append.1 hc with hc | hc
  · exact hcs c hc hsid
  · exact h c hc hsid

theorem SessionStore.sid_of_loginTokens {key : ApiKeyRecord} {c : Claims}
    (h : c ∈ s.loginTokens cfg key) : c.sid = some s.nextUuid := by
  simp only [SessionStore.loginTokens, List.mem_cons, List.not_mem_nil, or_false] at h
  rcases h with rfl | rfl <;> rfl

theorem SessionCommand.frame (cfg : JwtSettings) (s : SessionStore) (c : SessionCommand) :
    s.now ≤ (c.run cfg s).now ∧ (c.run cfg s).arrivals = s.arrivals ∧
      s.nextUuid ≤ (c.run cfg s).nextUuid ∧ ∀ t ∈ s.issued, t ∈ (c.run cfg s).issued := by
  cases c with
  | login key => exact ⟨le_refl _, rfl, Nat.le_add_right _ _, fun t ht => List.mem_append_right _ ht⟩
  | mint c => exact ⟨le_refl _, rfl, Nat.le_add_right _ _, fun t ht => List.mem_cons_of_mem _ ht⟩
  | answer sid => cases sid <;> exact ⟨le_refl _, rfl, le_refl _, fun _ ht => ht⟩
  | environment e =>
    cases e with
    | advance d => exact ⟨Nat.le_add_right _ _, rfl, le_refl _, fun _ ht => ht⟩
    | _ => exact ⟨le_refl _, rfl, le_refl _, fun _ ht => ht⟩
  | _ => exact ⟨le_refl _, rfl, le_refl _, fun _ ht => ht⟩

theorem SessionCommand.refusedUntil_le {sid : Uuid} (hc : ∀ e, c ≠ .revoke sid e) :
    s.refusedUntil sid ≤ (c.run cfg s).refusedUntil sid := by
  have hnow := (c.frame cfg s).1
  have hsame : (c.run cfg s).revokedSessions sid = s.revokedSessions sid →
      s.refusedUntil sid ≤ (c.run cfg s).refusedUntil sid := by
    intro h
    unfold SessionStore.refusedUntil
    rw [h]
    cases s.revokedSessions sid with
    | none => exact hnow
    | some e => exact le_refl _
  cases c with
  | prune =>
    show s.refusedUntil sid ≤ ((s.revokedSessions sid).filter (s.now < ·)).getD s.now
    unfold SessionStore.refusedUntil
    cases s.revokedSessions sid with
    | none => exact le_refl _
    | some e =>
      by_cases hlt : s.now < e
      · simp [Option.filter, hlt]
      · simp only [Option.filter, hlt, decide_false, Bool.false_eq_true, if_false, Option.getD]
        exact Nat.le_of_not_lt hlt
  | revoke sid' e =>
    refine hsame (Function.update_of_ne (fun h => ?_) _ _)
    subst h
    exact hc e rfl
  | answer sid' => cases sid' <;> exact hsame rfl
  | environment e => cases e <;> exact hsame rfl
  | _ => exact hsame rfl

theorem SessionCommand.revokedFrom_run (cfg : JwtSettings) (s : SessionStore) (c : SessionCommand)
    (sid : Uuid) :
    (c.run cfg s).revokedFrom sid = s.revokedFrom sid ∨
      (∃ e, c = .revoke sid e) ∧ s.revokedFrom sid = none ∧
        (c.run cfg s).revokedFrom sid = some s.now := by
  cases c with
  | revoke sid' e =>
    by_cases h : sid = sid'
    · subst h
      have hself : (SessionCommand.run cfg s (.revoke sid e)).revokedFrom sid =
          (s.revokedFrom sid <|> some s.now) := Function.update_self ..
      cases hr : s.revokedFrom sid with
      | none => exact .inr ⟨⟨e, rfl⟩, rfl, by rw [hself, hr]; rfl⟩
      | some t => exact .inl (by rw [hself, hr]; rfl)
    · exact .inl (Function.update_of_ne h _ _)
  | answer sid' => cases sid' <;> exact .inl rfl
  | environment e => cases e <;> exact .inl rfl
  | _ => exact .inl rfl

theorem SessionCommand.loggedOut_run (cfg : JwtSettings) (s : SessionStore) (c : SessionCommand)
    (sid : Uuid) :
    (c.run cfg s).loggedOut sid = s.loggedOut sid ∨
      c = .answer (some sid) ∧ s.loggedOut sid = none ∧
        (c.run cfg s).loggedOut sid = some s.arrivals := by
  cases c with
  | answer sid' =>
    cases sid' with
    | none => exact .inl rfl
    | some sid' =>
      by_cases h : sid = sid'
      · subst h
        have hself : (SessionCommand.run cfg s (.answer (some sid))).loggedOut sid =
            (s.loggedOut sid <|> some s.arrivals) := Function.update_self ..
        cases hr : s.loggedOut sid with
        | none => exact .inr ⟨rfl, rfl, by rw [hself, hr]; rfl⟩
        | some t => exact .inl (by rw [hself, hr]; rfl)
      · exact .inl (Function.update_of_ne h _ _)
  | environment e => cases e <;> exact .inl rfl
  | _ => exact .inl rfl

theorem SessionStore.CoveredBy.run {sid : Uuid} {t : Time} (h : s.CoveredBy sid t)
    (hsid : sid < s.nextUuid)
    (hmint : secs (unixSeconds s.now + cfg.accessSecs + graceSecs) ≤ t ∨
      ∀ c', c = .mint c' → c'.sid ≠ some sid) : (c.run cfg s).CoveredBy sid t := by
  cases c with
  | login key =>
    refine h.issue (s.loginTokens cfg key) rfl fun t ht hs => ?_
    have hnew := Option.some.inj ((SessionStore.sid_of_loginTokens ht).symm.trans hs)
    exact absurd hsid (hnew ▸ lt_irrefl _)
  | mint c =>
    refine h.issue [s.refreshed cfg c] rfl fun t ht hs => ?_
    obtain rfl := List.mem_singleton.1 ht
    rcases hmint with hle | hne
    · exact hle
    · exact absurd hs (hne c rfl)
  | answer sid' => cases sid' <;> exact h
  | environment e => cases e <;> exact h
  | prune | revoke | blacklist | cacheSession => exact h

theorem SessionStore.Sane.run (h : s.Sane cfg) (hc : c.Lawful cfg s) : (c.run cfg s).Sane cfg := by
  obtain ⟨hnow, -, hnext, -⟩ := c.frame cfg s
  refine ⟨fun t ht sid hsid => ?_, fun sid t ht => ?_, fun sid n hn => ?_⟩
  · -- every token names a session that has begun
    have hold : t ∈ s.issued → sid < (c.run cfg s).nextUuid := fun ht =>
      lt_of_lt_of_le (h.issued t ht sid hsid) hnext
    cases c with
    | login key =>
      rcases List.mem_append.1 ht with ht | ht
      · obtain rfl : s.nextUuid = sid :=
          Option.some.inj ((SessionStore.sid_of_loginTokens ht).symm.trans hsid)
        exact Nat.lt_add_of_pos_right (by decide)
      · exact hold ht
    | mint c =>
      rcases List.mem_cons.1 ht with rfl | ht
      · exact Nat.lt_succ_of_lt (hc sid hsid).1
      · exact hold ht
    | answer sid' => cases sid' <;> exact hold ht
    | environment e => cases e <;> exact hold ht
    | prune | revoke | blacklist | cacheSession => exact hold ht
  · by_cases hrevoke : ∃ e, c = .revoke sid e
    · obtain ⟨e, rfl⟩ := hrevoke
      obtain ⟨hsid, hlate, hcov⟩ := hc
      have htime : t ≤ s.now := by
        rcases SessionCommand.revokedFrom_run cfg s (.revoke sid e) sid with h' | ⟨-, -, h'⟩
        · exact (h.revokedFrom sid t (h'.symm.trans ht)).2.1
        · exact le_of_eq (Option.some.inj (ht.symm.trans h'))
      have huntil : (SessionCommand.run cfg s (.revoke sid e)).refusedUntil sid = e := by
        show (Function.update s.revokedSessions sid (some e) sid).getD _ = e
        rw [Function.update_self]
        rfl
      rw [huntil]
      exact ⟨hsid, htime, (Nat.add_le_add_right htime _).trans hlate, hcov⟩
    · have hfrom : s.revokedFrom sid = some t := by
        rcases c.revokedFrom_run cfg s sid with h' | ⟨hrev, -, -⟩
        · exact h'.symm.trans ht
        · exact absurd hrev hrevoke
      obtain ⟨hsid, htime, hlong, hcov⟩ := h.revokedFrom sid t hfrom
      have hle : s.refusedUntil sid ≤ (c.run cfg s).refusedUntil sid :=
        SessionCommand.refusedUntil_le fun e he => hrevoke ⟨e, he⟩
      refine ⟨lt_of_lt_of_le hsid hnext, htime.trans hnow,
        hlong.trans (Nat.add_le_add_right hle _), (hcov.run hsid ?_).mono hle⟩
      by_cases hmint : ∃ c', c = .mint c' ∧ c'.sid = some sid
      · -- a request that was in flight at the logout has only half a minute left
        obtain ⟨c', rfl, hc'⟩ := hmint
        have hflight := (hc sid hc').2 t hfrom
        have haccess := cfg.access_le s.now
        have harith : ∀ a T now t R u : Nat, a + T + T ≤ now + R → now ≤ t + T → t + R ≤ u + T →
            a ≤ u := by omega
        exact .inl (harith _ _ _ _ _ _ haccess hflight hlong)
      · exact .inr fun c' h₁ h₂ => hmint ⟨c', h₁, h₂⟩
  · have hfrom : s.revokedFrom sid ≠ none := by
      rcases c.loggedOut_run cfg s sid with h' | ⟨rfl, -, -⟩
      · exact h.loggedOut sid n (h'.symm.trans hn)
      · exact hc sid rfl
    rcases c.revokedFrom_run cfg s sid with h' | ⟨-, -, h'⟩
    · rwa [h']
    · rw [h']
      exact Option.some_ne_none _

/-! ## Requests -/

theorem TokenRequest.timedOut_eq_false :
    p.timedOut s = false ↔ s.now ≤ p.started + requestTimeout := by
  unfold TokenRequest.timedOut
  rw [decide_eq_false_iff_not, Nat.not_lt]

theorem SessionPhase.decoded_of_writes {w : Uuid × Time} (h : phase.writes = some w) :
    phase.decoded = true := by
  cases phase with
  | prune | insert => rfl
  | _ => cases h

theorem TokenRequest.Sane.run (hp : p.Sane cfg s) (hs : s.Sane cfg) (c : SessionCommand) :
    p.Sane cfg (c.run cfg s) := by
  obtain ⟨hnow, harrivals, hnext, hissued⟩ := c.frame cfg s
  refine ⟨hp.started.trans hnow, harrivals.symm ▸ hp.number, fun hd => ?_, fun hpass sid hsid => ?_,
    fun sid e hw => ?_, fun hr sid hsid => ?_⟩
  · obtain ⟨hmem, hlt⟩ := hp.decoded hd
    exact ⟨hissued _ hmem, hlt⟩
  · obtain ⟨hfrom, hout⟩ := hp.passed hpass sid hsid
    constructor
    · intro t ht
      rcases c.revokedFrom_run cfg s sid with h' | ⟨-, -, h'⟩
      · exact hfrom t (h'.symm.trans ht)
      · exact Option.some.inj (h'.symm.trans ht) ▸ hp.started
    · intro n hn
      rcases c.loggedOut_run cfg s sid with h' | ⟨-, -, h'⟩
      · exact hout n (h'.symm.trans hn)
      · exact Option.some.inj (h'.symm.trans hn) ▸ hp.number
  · obtain ⟨hsid, hlong, hcov⟩ := hp.writes sid e hw
    refine ⟨hsid, hlong, fun htime => ?_⟩
    have htime' := hnow.trans (TokenRequest.timedOut_eq_false.1 htime)
    have hmem := (hp.decoded (SessionPhase.decoded_of_writes hw)).1
    refine (hcov (TokenRequest.timedOut_eq_false.2 htime')).run (hs.issued _ hmem sid hsid) (.inl ?_)
    have haccess := cfg.access_le s.now
    have harith : ∀ a T now t R u : Nat, a + T + T ≤ now + R → now ≤ t + T → t + R ≤ u →
        a ≤ u := by omega
    exact harith _ _ _ _ _ _ haccess htime' hlong
  · have hfrom := hp.revoked hr sid hsid
    rcases c.revokedFrom_run cfg s sid with h' | ⟨-, h', -⟩
    · rwa [h']
    · exact absurd h' hfrom

theorem TokenRequest.Sane.sessionRevoked (hp : p.Sane cfg s) (hs : s.Sane cfg)
    (hphase : p.phase.decoded = true) (htime : p.timedOut s = false) {sid : Uuid}
    (hsid : p.claims.sid = some sid) (hfrom : s.revokedFrom sid ≠ none) :
    s.sessionRevoked sid = true := by
  obtain ⟨t, ht⟩ := Option.ne_none_iff_exists'.1 hfrom
  obtain ⟨-, -, -, hcov⟩ := hs.revokedFrom sid t ht
  obtain ⟨hmem, hstarted⟩ := hp.decoded hphase
  have hnow : s.now < s.refusedUntil sid := by
    have hlate := hcov _ hmem hsid
    have htime := TokenRequest.timedOut_eq_false.1 htime
    have harith : ∀ now st exp u : Nat, now ≤ st + 30 * 1000 → st < (exp + 60 + 1) * 1000 →
        (exp + 91) * 1000 ≤ u → now < u := by omega
    exact harith _ _ _ _ htime hstarted hlate
  unfold SessionStore.sessionRevoked
  unfold SessionStore.refusedUntil at hnow
  cases hrow : s.revokedSessions sid with
  | none => exact absurd (hrow ▸ hnow) (lt_irrefl _)
  | some e => simpa [hrow] using hnow

theorem TokenRequest.Sane.goTo (hp : p.Sane cfg s)
    (hd : phase.decoded = true → p.phase.decoded = true)
    (hpass : (p.goTo phase).passed = true → p.passed = true)
    (hw : ∀ w, phase.writes = some w → p.phase.writes = some w)
    (hr : phase.revoked = true → p.phase.revoked = true) : (p.goTo phase).Sane cfg s :=
  ⟨hp.started, hp.number, fun h => hp.decoded (hd h), fun h => hp.passed (hpass h),
    fun sid e h => hp.writes sid e (hw _ h), fun h => hp.revoked (hr h)⟩

/-- **One look.** -/
theorem TokenRequest.Sane.stays (hp : p.Sane cfg s) (hs : s.Sane cfg) (htime : p.timedOut s = false)
    (hA : p.logsOutInTime cfg s = true) (h : p.Stays cfg s phase) : (p.goTo phase).Sane cfg s := by
  cases h with
  | refused ha => rcases ha with rfl | rfl <;> exact hp.goTo nofun nofun nofun nofun
  | decoded h hd hphase =>
    have hok : p.claims ∈ s.issued ∧ p.started < secs (p.claims.exp + jwtLeeway + 1) := by
      unfold SessionStore.decodes at hd
      simp only [Bool.and_eq_true, decide_eq_true_eq] at hd
      have harith : ∀ st now exp : Nat, st ≤ now → now / 1000 ≤ exp + 60 →
          st < (exp + 60 + 1) * 1000 := by omega
      exact ⟨hd.1, harith _ _ _ hp.started hd.2⟩
    rcases hphase with rfl | rfl <;>
      exact ⟨hp.started, hp.number, fun _ => hok, nofun, nofun, nofun⟩
  | checking h hphase =>
    have hd : p.phase.decoded = true := by rcases h with h | h <;> rw [h] <;> rfl
    rcases hphase with rfl | rfl <;> exact hp.goTo (fun _ => hd) nofun nofun nofun
  | unrevoked h hrow =>
    have hd : p.phase.decoded = true := by rw [h]; rfl
    refine ⟨hp.started, hp.number, fun _ => hp.decoded hd, fun _ sid hsid => ?_, nofun, nofun⟩
    -- it was not revoked, or the row would be there
    have hfrom : s.revokedFrom sid = none := by
      by_contra hfrom
      exact absurd (hp.sessionRevoked hs hd htime hsid hfrom) (by simp [hrow sid hsid])
    exact ⟨fun t ht => absurd (hfrom.symm.trans ht) nofun,
      fun n hn => absurd hfrom (hs.loggedOut sid n hn)⟩
  | authorized h hphase =>
    have hd : p.phase.decoded = true ∧ p.passed = true := by
      rcases h with h | h | h <;> simp [TokenRequest.passed, h, SessionPhase.decoded]
    rcases hphase with rfl | rfl | rfl | rfl | rfl <;>
      exact hp.goTo (fun _ => hd.1) (fun _ => hd.2) nofun nofun
  | @expiresAt sid h hsid =>
    have hd : p.phase.decoded = true ∧ p.passed = true := by
      simp [TokenRequest.passed, h, SessionPhase.decoded]
    refine ⟨hp.started, hp.number, fun _ => hp.decoded hd.1, fun _ => hp.passed hd.2,
      fun sid' e hw => ?_, nofun⟩
    cases hw
    refine ⟨hsid, Nat.add_le_add_right hp.started _, fun _ c hc hc' => ?_⟩
    have hall : ∀ c ∈ s.issued, ¬ c.sid = p.claims.sid ∨
        secs (c.exp + graceSecs) ≤ s.now + secs cfg.refreshSecs := by
      simpa [TokenRequest.logsOutInTime, h] using hA
    exact (hall c hc).resolve_left (not_not_intro (hc'.trans hsid.symm))
  | sidless h hsid =>
    have hd : p.phase.decoded = true ∧ p.passed = true := by
      simp [TokenRequest.passed, h, SessionPhase.decoded]
    exact ⟨hp.started, hp.number, fun _ => hp.decoded hd.1, fun _ => hp.passed hd.2, nofun,
      fun _ sid hsid' => absurd (hsid.symm.trans hsid') nofun⟩
  | unpruned h =>
    refine hp.goTo (fun _ => ?_) (fun _ => ?_) (fun w hw => ?_) nofun
    · rw [h]
      rfl
    · simp [TokenRequest.passed, h]
    · rw [h]
      exact hw
  | finish h =>
    have hall : p.phase.decoded = true ∧ p.passed = true ∧ p.phase.revoked = true := by
      rcases h with h | ⟨sid, h⟩ | h <;>
        simp [TokenRequest.passed, h, SessionPhase.decoded, SessionPhase.revoked]
    exact hp.goTo (fun _ => hall.1) (fun _ => hall.2.1) nofun (fun _ => hall.2.2)

/-- **One command.** -/
theorem TokenRequest.Sane.runs (hp : p.Sane cfg s) (hs : s.Sane cfg) (h : p.Runs cfg s c phase) :
    (p.goTo phase).Sane cfg (c.run cfg s) := by
  have hp' := hp.run hs c
  cases h with
  | mint h | answer h =>
    exact hp'.goTo nofun (fun _ => by simp [TokenRequest.passed, h]) nofun nofun
  | prune h =>
    refine hp'.goTo (fun _ => ?_) (fun _ => ?_) (fun w hw => ?_) nofun
    · rw [h]
      rfl
    · simp [TokenRequest.passed, h]
    · rw [h]
      exact hw
  | @revoke sid e _ h hphase =>
    have hd : p.phase.decoded = true ∧ p.passed = true := by
      simp [TokenRequest.passed, h, SessionPhase.decoded]
    have hrevoked : ∀ sid' ∈ p.claims.sid,
        (SessionCommand.run cfg s (.revoke sid e)).revokedFrom sid' ≠ none := by
      intro sid' hsid'
      have hsid := (hp.writes sid e (by rw [h]; rfl)).1
      obtain rfl : sid = sid' := Option.some.inj (hsid.symm.trans hsid')
      show Function.update s.revokedFrom sid _ sid ≠ none
      rw [Function.update_self]
      cases s.revokedFrom sid <;> exact Option.some_ne_none _
    rcases hphase with rfl | rfl <;>
      exact ⟨hp'.started, hp'.number, fun _ => hp'.decoded hd.1, fun _ => hp'.passed hd.2, nofun,
        fun _ => hrevoked⟩
  | blacklist h hphase =>
    have hall : p.phase.decoded = true ∧ p.passed = true ∧ p.phase.revoked = true := by
      rcases h with h | h <;>
        simp [TokenRequest.passed, h, SessionPhase.decoded, SessionPhase.revoked]
    rcases hphase with ⟨sid, rfl⟩ | rfl | rfl <;>
      exact hp'.goTo (fun _ => hall.1) (fun _ => hall.2.1) nofun (fun _ => hall.2.2)
  | cacheSession h =>
    have hall : p.phase.decoded = true ∧ p.passed = true ∧ p.phase.revoked = true := by
      simp [TokenRequest.passed, h, SessionPhase.decoded, SessionPhase.revoked]
    exact hp'.goTo (fun _ => hall.1) (fun _ => hall.2.1) nofun (fun _ => hall.2.2)

theorem TokenRequest.Sane.lawful (hp : p.Sane cfg s) (hs : s.Sane cfg) (htime : p.timedOut s = false)
    (h : p.Runs cfg s c phase) : c.Lawful cfg s := by
  have htime := TokenRequest.timedOut_eq_false.1 htime
  cases h with
  | mint h =>
    have hd : p.phase.decoded = true ∧ p.passed = true := by
      simp [TokenRequest.passed, h, SessionPhase.decoded]
    intro sid hsid
    refine ⟨hs.issued _ (hp.decoded hd.1).1 sid hsid, fun t ht => ?_⟩
    exact htime.trans (Nat.add_le_add_right ((hp.passed hd.2 sid hsid).1 t ht) _)
  | @revoke sid e _ h hphase =>
    have hd : p.phase.decoded = true := by rw [h]; rfl
    obtain ⟨hsid, hlong, hcov⟩ := hp.writes sid e (by rw [h]; rfl)
    refine ⟨hs.issued _ (hp.decoded hd).1 sid hsid, ?_,
      hcov (TokenRequest.timedOut_eq_false.2 htime)⟩
    have harith : ∀ now st T R e : Nat, now ≤ st + T → st + R ≤ e → now + R ≤ e + T := by omega
    exact harith _ _ _ _ _ htime hlong
  | answer h => exact hp.revoked (by rw [h]; rfl)
  | prune | blacklist | cacheSession => trivial

/-! ## The system -/

theorem SessionStore.Sane.arrive (hs : s.Sane cfg) (n : Nat) :
    SessionStore.Sane cfg { s with arrivals := n } :=
  ⟨hs.issued, hs.revokedFrom, hs.loggedOut⟩

theorem SessionProc.Sane.run {q : SessionProc} (hq : q.Sane cfg s) (hs : s.Sane cfg)
    (c : SessionCommand) : q.Sane cfg (c.run cfg s) := by
  cases q with
  | request p => exact TokenRequest.Sane.run hq hs c
  | login | environment => trivial

theorem sessions_sane (cfg : JwtSettings) :
    CommandSpec.Keeps (sessionRequests cfg) (logoutsInTime cfg) (SessionStore.Sane cfg)
      (SessionProc.Sane cfg) fun _ _ _ => True where
  symm _ := trivial
  ask {s a} _ hs := by
    refine ⟨hs.arrive _, ?_⟩
    cases a with
    | request purpose claims =>
      exact ⟨le_refl _, Nat.lt_succ_self _, nofun, nofun, nofun, nofun⟩
    | login | environment => trivial
  ask_other {s a q} _ _ hq := by
    refine ⟨?_, trivial⟩
    cases q with
    | request p =>
      exact ⟨hq.started, Nat.lt_succ_of_lt hq.number, hq.decoded, hq.passed, hq.writes, hq.revoked⟩
    | login | environment => trivial
  ask_pair _ := trivial
  stay {s os p p'} he hA hb := by
    refine ⟨?_, fun _ _ => trivial⟩
    have hact := Option.some.inj he
    cases p with
    | request p =>
      obtain ⟨phase, rfl, htime, hstays⟩ := TokenRequest.act_stay hact
      exact TokenRequest.Sane.stays hb.own hb.store htime hA hstays
    | login key =>
      simp only [SessionProc.act] at hact
      split at hact <;> cases hact
    | environment e => cases hact
  run {s os p c p'} he _ hb := by
    have hact := Option.some.inj he
    have hothers : ∀ q ∈ os, SessionProc.Sane cfg (c.run cfg s) q := fun q hq =>
      SessionProc.Sane.run (hb.others q hq) hb.store c
    cases p with
    | request p =>
      obtain ⟨phase, rfl, htime, hruns⟩ := TokenRequest.act_run hact
      refine ⟨SessionStore.Sane.run hb.store (TokenRequest.Sane.lawful hb.own hb.store htime hruns),
        fun r hr => ⟨?_, fun _ _ => trivial⟩, hothers, fun _ _ _ _ _ => trivial⟩
      cases hr
      exact TokenRequest.Sane.runs hb.own hb.store hruns
    | login key =>
      simp only [SessionProc.act] at hact
      split at hact
      · cases hact
        exact ⟨SessionStore.Sane.run (c := .login key) hb.store trivial, nofun, hothers,
          fun _ _ _ _ _ => trivial⟩
      · cases hact
    | environment e =>
      cases hact
      exact ⟨SessionStore.Sane.run (c := .environment e) hb.store trivial, nofun, hothers,
        fun _ _ _ _ _ => trivial⟩

def SessionStore.Fresh (s : SessionStore) : Prop :=
  s.issued = [] ∧ (∀ sid, s.revokedFrom sid = none) ∧ ∀ sid, s.loggedOut sid = none

def sessionSystem (cfg : JwtSettings) : Machine :=
  (sessionRequests cfg).pool.machine SessionStore.Fresh

theorem SessionStore.Fresh.sane (h : s.Fresh) : s.Sane cfg := by
  obtain ⟨hissued, hfrom, hout⟩ := h
  refine ⟨fun c hc => ?_, fun sid t ht => ?_, fun sid n hn => ?_⟩
  · exact absurd (hissued ▸ hc) List.not_mem_nil
  · exact absurd ((hfrom sid).symm.trans ht) nofun
  · exact absurd ((hout sid).symm.trans hn) nofun

/-- **Logout is final**, when it does not come within the first 91 seconds of the session. Once a
logout of a session has been answered, no request that arrives later gets past the revocation check
with a token of that session, and neither does a request in flight that has not passed it yet. -/
theorem logout_is_final {x : Pool SessionStore SessionProc}
    {h : List (Pool SessionStore SessionProc × PoolLabel SessionAsk)}
    (hr : (sessionSystem cfg).Run x h)
    (hC : (sessionSystem cfg).Steps (logoutsInTime cfg).step h) {sid : Uuid} {n : Nat}
    (hout : x.store.loggedOut sid = some n) {p : TokenRequest} (hp : .request p ∈ x.procs)
    (hsid : p.claims.sid = some sid) :
    (n ≤ p.number → p.passed = false) ∧
      (p.passed = false → ∀ q, p.act cfg x.store = .stay (.request q) → q.passed = false) := by
  have hx := (sessions_sane cfg).kept.invariant (fun _ hs => hs.sane) hr hC
  have hs : x.store.Sane cfg := hx.store
  have hsane : p.Sane cfg x.store := hx.each _ hp
  constructor
  · intro hn
    by_contra hpass
    have hlt := (hsane.passed (eq_true_of_ne_false hpass) sid hsid).2 n hout
    omega
  · intro hpass q hq
    obtain ⟨phase, he, htime, hstays⟩ := TokenRequest.act_stay hq
    cases he
    cases hstays with
    | refused ha => rcases ha with rfl | rfl <;> rfl
    | decoded h hd hphase | checking h hphase => rcases hphase with rfl | rfl <;> rfl
    | unrevoked h hrow =>
      have hrevoked := hsane.sessionRevoked hs (by rw [h]; rfl) htime hsid (hs.loggedOut sid n hout)
      exact absurd hrevoked (by simp [hrow sid hsid])
    | authorized h hphase => rcases h with h | h | h <;> simp [TokenRequest.passed, h] at hpass
    | expiresAt h | sidless h | unpruned h => simp [TokenRequest.passed, h] at hpass
    | finish h => rcases h with h | ⟨_, h⟩ | h <;> simp [TokenRequest.passed, h] at hpass

/-! ## Two sessions -/

def hourly : JwtSettings := ⟨1, by decide, true⟩

def sessionKey : ApiKey := { id := 1, organizationId := 7, keyHash := ['k'] }

def sessionStart : Pool SessionStore SessionProc :=
  ⟨{ keys := ⟨[sessionKey], by decide⟩, liveOrgs := [7] }, []⟩

theorem sessionStart_fresh : SessionStore.Fresh sessionStart.store :=
  ⟨rfl, fun _ => rfl, fun _ => rfl⟩

def accessToken : Claims := ⟨1, 7, 3600, 1, .access, some 0⟩

def refreshToken : Claims := ⟨1, 7, 86400, 2, .refresh, some 0⟩

def wait (d : Nat) : List (PoolLabel SessionAsk) :=
  [.ask (.environment (.advance (secs d))), .run 0]

def logIn : List (PoolLabel SessionAsk) := [.ask (.login sessionKey.record), .run 0]

def logOut : List (PoolLabel SessionAsk) :=
  .ask (.request (.logout none false) accessToken) :: List.replicate 14 (.run 0)

/-- The first process is a request with this number and claims in this phase. -/
def firstIs (x : Pool SessionStore SessionProc) (number : Nat) (claims : Claims)
    (phase : SessionPhase) : Bool :=
  match x.procs with
  | .request p :: _ => p.number == number && p.claims == claims && p.phase == phase
  | _ => false

theorem firstIs_iff {x : Pool SessionStore SessionProc} {number : Nat} {claims : Claims} :
    firstIs x number claims phase = true ↔ ∃ p ps, x.procs = .request p :: ps ∧
      p.number = number ∧ p.claims = claims ∧ p.phase = phase := by
  unfold firstIs
  split
  · next p ps h => simp [h, and_assoc]
  · next h => simpa using fun p ps hp => absurd hp (h p ps)

theorem logout_is_final_refresh : ∃ x h, (sessionSystem hourly).Run x h ∧
    (sessionSystem hourly).Steps (logoutsInTime hourly).step h ∧ x.store.loggedOut 0 = some 3 ∧
    ∃ p, .request p ∈ x.procs ∧ p.claims = refreshToken ∧ p.phase = .sessionRow ∧
      p.passed = false ∧ ∀ q, p.act hourly x.store = .stay (.request q) → q.passed = false := by
  obtain ⟨x, h, hr, hC, hp⟩ := (logoutsInTime hourly).run_of_exec SessionStore.Fresh
    (logIn ++ wait 91 ++ logOut ++ [.ask (.environment (.evictSession 0)), .run 0] ++
      [.ask (.request .refresh refreshToken), .run 0, .run 0, .run 0]) sessionStart
    (fun x => x.1.store.loggedOut 0 == some 3 && firstIs x.1 4 refreshToken .sessionRow)
    ⟨sessionStart_fresh, rfl⟩ (by decide +kernel)
  simp only [Bool.and_eq_true, beq_iff_eq] at hp
  obtain ⟨hout, hfirst⟩ := hp
  obtain ⟨p, ps, hprocs, hnumber, hclaims, hphase⟩ := firstIs_iff.1 hfirst
  have hmem : SessionProc.request p ∈ x.procs := by rw [hprocs]; exact List.mem_cons_self
  have hfinal := logout_is_final hr hC hout hmem (by rw [hclaims]; rfl)
  have hpass := hfinal.1 (by omega)
  exact ⟨x, h, hr, hC, hout, p, hmem, hclaims, hphase, hpass, hfinal.2 hpass⟩

/-- A logout right after the login: when the row expires, the refresh token is still good for a
minute, and the access token it buys is accepted. -/
theorem logout_outlived : ∃ x h, (sessionSystem hourly).Run x h ∧ x.store.loggedOut 0 = some 2 ∧
    ∃ p, .request p ∈ x.procs ∧ 2 ≤ p.number ∧ p.claims.sid = some 0 ∧
      p.phase = .answered .accepted := by
  obtain ⟨x, h, hr, hp⟩ := Machine.Run.of_exec (sessionSystem hourly)
    (logIn ++ logOut ++ wait 86400 ++
      .ask (.request .refresh refreshToken) :: List.replicate 8 (.run 0) ++
      .ask (.request .use ⟨1, 7, 90000, 3, .access, some 0⟩) :: List.replicate 6 (.run 0))
    sessionStart
    (fun x => x.1.store.loggedOut 0 == some 2 &&
      firstIs x.1 4 ⟨1, 7, 90000, 3, .access, some 0⟩ (.answered .accepted))
    ⟨sessionStart_fresh, rfl⟩ (by decide +kernel)
  simp only [Bool.and_eq_true, beq_iff_eq] at hp
  obtain ⟨p, ps, hprocs, hnumber, hclaims, hphase⟩ := firstIs_iff.1 hp.2
  refine ⟨x, h, hr, hp.1, p, ?_, by omega, by rw [hclaims], hphase⟩
  rw [hprocs]
  exact List.mem_cons_self

end Spooled.Auth
