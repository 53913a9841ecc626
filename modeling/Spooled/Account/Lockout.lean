import Spooled.Account.CodeDesk

/-!
# Nobody is locked out of a mailed code

As long as the requests for a code count and store one after the other, at most five
login codes are stored in any hour, so `verify` sees every live one. A code lives no
longer than a window of the address's budget, which therefore lets fewer guesses
pass than would use the code up.
-/

namespace Spooled.Account

open List

variable {s : CodeDesk} {c : MailedCode} {k : Pick}

/-! ## What the requests do -/

/-- The start request has counted, and its code is not stored yet. -/
def StartReq.isBetween (p : StartReq) : Bool :=
  match p.phase with
  | .count => false
  | _ => true

inductive StartReq.Goes (s : CodeDesk) (p : StartReq) : StartPhase → Prop
  | count (h : p.phase = .count) (hfew : s.recentCodes < Registry.maxCodes) : Goes s p .lookup
  | lookup (h : p.phase = .lookup) : Goes s p (.send s.orgs.head?)

inductive StartReq.Runs (s : CodeDesk) (p : StartReq) : DeskCommand → Option StartPhase → Prop
  | send {org : Option OrgId} (h : p.phase = .send org) :
      Runs s p (.send p.secret) (some (.insert org (s.now + codeValidity)))
  | insert {org : Option OrgId} {expiresAt : Time} (h : p.phase = .insert org expiresAt) :
      Runs s p (.insert .login p.secret org expiresAt) none

variable {a : DeskCommand} {next : VerifyPhase} {os ps : List DeskProc} {p : VerifyReq}
  {phase : Option VerifyPhase} {s' : CodeDesk}

theorem StartReq.turns (p : StartReq) : Turn.Allowed
    (fun q => ∃ phase, q = .start { p with phase } ∧ p.Goes s phase)
    (fun a q => ∃ phase, q = phase.map (fun phase => .start { p with phase }) ∧ p.Runs s a phase)
    (some (p.act s)) := by
  cases hphase : p.phase <;> simp only [act, hphase]
  case count =>
    split
    · exact .quit
    · next hfew => exact .stay ⟨_, rfl, .count hphase (Nat.lt_of_not_le hfew)⟩
  case lookup => exact .stay ⟨_, rfl, .lookup hphase⟩
  case send org =>
    split
    · exact .quit
    · exact .run ⟨_, rfl, .send hphase⟩
  case insert org expiresAt => exact .run ⟨none, rfl, .insert hphase⟩

def VerifyPhase.pick : VerifyPhase → Option Pick
  | select | accepted => none
  | client k | ceiling k | attempt k | invalidate k | consume k | mint k => some k

inductive VerifyReq.Goes (s : CodeDesk) (p : VerifyReq) : VerifyPhase → Prop
  | select (h : p.phase = .select) {k : Pick} (hk : s.pick p.secret = some k) : Goes s p (.client k)
  | capped {k : Pick} (h : p.phase = .attempt k) : Goes s p (.invalidate k)

inductive VerifyReq.Runs (s : CodeDesk) (p : VerifyReq) : DeskCommand → Option VerifyPhase → Prop
  | client {k : Pick} (h : p.phase = .client k) :
      Runs s p (.spend (.client p.client)) (some (.ceiling k))
  | ceiling {k : Pick} (h : p.phase = .ceiling k)
      (hpass : (s.budgets.counted codeValidity s.now .ceiling).1 ≤ maxVerifyAttempts) :
      Runs s p (.spend .ceiling) (some (.attempt k))
  | exhausted {key : BudgetKey} {k : Pick} (h : p.phase = .client k ∨ p.phase = .ceiling k)
      (hnone : ¬ (s.budgets.counted codeValidity s.now key).1 ≤ key.limit) :
      Runs s p (.spend key) none
  | hit {k : Pick} (h : p.phase = .attempt k) (hhit : k.hit = true) :
      Runs s p (.attempt k.id) (some (.consume k))
  | wrong {k : Pick} (h : p.phase = .attempt k) : Runs s p (.attempt k.id) none
  | invalidate {k : Pick} (h : p.phase = .invalidate k) : Runs s p (.use k.id) none
  | consume {k : Pick} (h : p.phase = .consume k)
      (hunused : (s.codes.find k.id).any (!·.used) = true) : Runs s p (.use k.id) (some (.mint k))
  | login {k : Pick} (h : p.phase = .mint k) : Runs s p (.login k.id) (some .accepted)
  | signup {k : Pick} (h : p.phase = .mint k) :
      Runs s p (.signup k.id p.signupSecret) (some .accepted)

theorem VerifyReq.turns (p : VerifyReq) : Turn.Allowed
    (fun q => ∃ phase, q = .verify { p with phase } ∧ p.Goes s phase)
    (fun a q => ∃ phase, q = phase.map (fun phase => .verify { p with phase }) ∧ p.Runs s a phase)
    (some (p.act s)) := by
  cases hphase : p.phase <;> simp only [act, hphase]
  case select =>
    split
    · next k hk => exact .stay ⟨_, rfl, .select hphase hk⟩
    · exact .quit
  case client k =>
    simp only [spend]
    split
    · exact .run ⟨_, rfl, .client hphase⟩
    · next hnone => exact .run ⟨none, rfl, .exhausted (.inl hphase) hnone⟩
  case ceiling k =>
    simp only [spend]
    split
    · next hpass => exact .run ⟨_, rfl, .ceiling hphase hpass⟩
    · next hnone => exact .run ⟨none, rfl, .exhausted (.inr hphase) hnone⟩
  case attempt k =>
    split
    · split
      · next hhit => exact .run ⟨_, rfl, .hit hphase hhit⟩
      · exact .run ⟨none, rfl, .wrong hphase⟩
    · exact .stay ⟨_, rfl, .capped hphase⟩
  case invalidate k => exact .run ⟨none, rfl, .invalidate hphase⟩
  case consume k =>
    split
    · next hunused => exact .run ⟨_, rfl, .consume hphase hunused⟩
    · exact .quit
  case mint k =>
    split
    · split
      · exact .run ⟨_, rfl, .login hphase⟩
      · exact .quit
    · exact .run ⟨_, rfl, .signup hphase⟩
  case accepted => exact .quit

/-! ## The invariant -/

/-- One code, before and after some attempts and uses. -/
structure MailedCode.Same (c c' : MailedCode) : Prop where
  id : c'.id = c.id
  kind : c'.kind = c.kind
  secret : c'.secret = c.secret
  org : c'.organizationId = c.organizationId
  createdAt : c'.createdAt = c.createdAt
  expiresAt : c'.expiresAt = c.expiresAt

theorem MailedCode.Same.refl (c : MailedCode) : c.Same c := ⟨rfl, rfl, rfl, rfl, rfl, rfl⟩

theorem MailedCode.Same.isLogin {c c' : MailedCode} (h : c.Same c') : c'.isLogin = c.isLogin := by
  unfold MailedCode.isLogin
  rw [h.kind]

def MailedCode.inHour (a : Time) (c : MailedCode) : Bool :=
  c.isLogin && decide (a ≤ c.createdAt ∧ c.createdAt < a + mins 60)

def CodeDesk.recentLogins (s : CodeDesk) : Nat :=
  s.codes.rows.countP fun c => c.isLogin && decide (s.now < c.createdAt + mins 60)

structure MailedCode.Sane (s : CodeDesk) (c : MailedCode) : Prop where
  fresh : c.id < s.nextId
  born : c.createdAt ≤ s.now
  short : c.isLogin = true → c.expiresAt ≤ c.createdAt + codeValidity
  orgs : c.isLogin = true → ∀ o ∈ c.organizationId, o ∈ s.orgs
  mailed : c.isLogin = true → c.secret ∈ s.mailed

structure CodeDesk.Sound (s : CodeDesk) : Prop where
  codes : ∀ c ∈ s.codes.rows, c.Sane s
  few : ∀ a, s.codes.rows.countP (·.inHour a) ≤ Registry.maxCodes
  distinct : ∀ c ∈ s.codes.rows, ∀ c' ∈ s.codes.rows, c.isLogin = true → c'.isLogin = true →
    c.secret = c'.secret → c = c'
  past : ∀ p ∈ s.passes, p.time ≤ s.now
  windows : Windows codeValidity maxVerifyAttempts s.passes
  tracks : Tracks codeValidity s.now (s.budgets .ceiling) s.passes
  minted : s.minted.Nodup
  used : ∀ id ∈ s.minted, ∃ c ∈ s.codes.rows, c.id = id ∧ c.used = true

structure StartReq.Sane (s : CodeDesk) (p : StartReq) : Prop where
  few : p.isBetween = true → s.recentLogins < Registry.maxCodes
  org : ∀ org, (p.phase = .send org ∨ ∃ e, p.phase = .insert org e) → ∀ o ∈ org, o ∈ s.orgs
  insert : ∀ org e, p.phase = .insert org e → e ≤ s.now + codeValidity ∧ p.secret ∈ s.mailed ∧
    ∀ c ∈ s.codes.rows, c.isLogin = true → c.secret ≠ p.secret

def Pick.Of (s : CodeDesk) (secret : Text) (k : Pick) : Prop :=
  ∃ c ∈ s.codes.rows, c.id = k.id ∧ c.isLogin = true ∧ c.organizationId = k.org ∧
    (k.hit = true → c.secret = secret)

structure VerifyReq.Sane (s : CodeDesk) (p : VerifyReq) : Prop where
  pick : ∀ k ∈ p.phase.pick, k.Of s p.secret
  mint : ∀ k, p.phase = .mint k → (∃ c ∈ s.codes.rows, c.id = k.id ∧ c.used = true) ∧
    k.id ∉ s.minted

def DeskProc.Sane (s : CodeDesk) : DeskProc → Prop
  | start p => p.Sane s
  | verify p => p.Sane s
  | clock _ => True

/-- One request stores a code at a time, and one request mints for a code. -/
def DeskProc.Apart : DeskProc → DeskProc → Prop
  | start p, start q => ¬ (p.isBetween = true ∧ q.isBetween = true)
  | verify p, verify q => ∀ k k', p.phase = .mint k → q.phase = .mint k' → k.id ≠ k'.id
  | _, _ => True

theorem DeskProc.Apart.symm {p q : DeskProc} (h : p.Apart q) : q.Apart p := by
  cases p with
  | start p =>
    cases q with
    | start q => exact fun hb => h ⟨hb.2, hb.1⟩
    | verify | clock => trivial
  | verify p =>
    cases q with
    | verify q => exact fun k k' hk hk' he => h k' k hk' hk he.symm
    | start | clock => trivial
  | clock => cases q <;> trivial

/-! ## Frames -/

structure CodeDesk.Grows (s s' : CodeDesk) : Prop where
  orgs : s'.orgs = s.orgs
  now : s.now ≤ s'.now
  mailed : ∀ t ∈ s.mailed, t ∈ s'.mailed
  codes : ∀ c ∈ s.codes.rows, ∃ c' ∈ s'.codes.rows, c.Same c' ∧
    (c.used = true → c'.used = true)

theorem MailedCode.Sane.frame {c' : MailedCode} (h : c.Sane s) (hsame : c.Same c') (hg : s.Grows s')
    (hnext : s.nextId ≤ s'.nextId) : c'.Sane s' where
  fresh := hsame.id ▸ Nat.lt_of_lt_of_le h.fresh hnext
  born := hsame.createdAt ▸ Nat.le_trans h.born hg.now
  short hl := by
    rw [hsame.createdAt, hsame.expiresAt]
    exact h.short (hsame.isLogin ▸ hl)
  orgs hl := by
    rw [hsame.org, hg.orgs]
    exact h.orgs (hsame.isLogin ▸ hl)
  mailed hl := by
    rw [hsame.secret]
    exact hg.mailed _ (h.mailed (hsame.isLogin ▸ hl))

/-- No login code is stored. -/
structure CodeDesk.Quiet (s s' : CodeDesk) : Prop where
  recent : s'.recentLogins ≤ s.recentLogins
  codes : ∀ c' ∈ s'.codes.rows, c'.isLogin = true →
    ∃ c ∈ s.codes.rows, c.isLogin = true ∧ c.secret = c'.secret

theorem StartReq.Sane.frame {q : StartReq} (hq : q.Sane s) (h : s.Grows s')
    (hquiet : s.Quiet s') : q.Sane s' where
  few hb := Nat.lt_of_le_of_lt hquiet.recent (hq.few hb)
  org org hphase o ho := by
    rw [h.orgs]
    exact hq.org org hphase o ho
  insert org e hphase := by
    obtain ⟨he, hmailed, hnew⟩ := hq.insert org e hphase
    refine ⟨Nat.le_trans he (Nat.add_le_add_right h.now _), h.mailed _ hmailed, fun c' hc' hl => ?_⟩
    obtain ⟨c, hc, hl, hsecret⟩ := hquiet.codes c' hc' hl
    rw [← hsecret]
    exact hnew c hc hl

theorem StartReq.sane_of_not_between {q : StartReq} (h : q.isBetween = false) : q.Sane s := by
  have hphase : q.phase = .count := by
    unfold isBetween at h
    split at h
    · assumption
    · nomatch h
  refine ⟨fun hb => ?_, fun org hp => ?_, fun org e hp => ?_⟩
  · rw [h] at hb
    nomatch hb
  · rcases hp with hp | ⟨e, hp⟩ <;> nomatch hphase.symm.trans hp
  · nomatch hphase.symm.trans hp

theorem Pick.Of.frame {secret : Text} (h : k.Of s secret) (hg : s.Grows s') :
    k.Of s' secret := by
  obtain ⟨c, hc, hid, hl, horg, hhit⟩ := h
  obtain ⟨c', hc', hsame, -⟩ := hg.codes c hc
  exact ⟨c', hc', hsame.id.trans hid, hsame.isLogin.trans hl, hsame.org.trans horg,
    fun h => hsame.secret.trans (hhit h)⟩

theorem CodeDesk.Grows.used (h : s.Grows s') {id : CodeId}
    (hu : ∃ c ∈ s.codes.rows, c.id = id ∧ c.used = true) :
    ∃ c ∈ s'.codes.rows, c.id = id ∧ c.used = true := by
  obtain ⟨c, hc, hid, hused⟩ := hu
  obtain ⟨c', hc', hsame, hmono⟩ := h.codes c hc
  exact ⟨c', hc', hsame.id.trans hid, hmono hused⟩

theorem VerifyReq.Sane.frame {q : VerifyReq} (hq : q.Sane s) (h : s.Grows s')
    (hminted : ∀ k, q.phase = .mint k → k.id ∉ s.minted → k.id ∉ s'.minted) : q.Sane s' :=
  ⟨fun k hk => (hq.pick k hk).frame h, fun k hk =>
    ⟨h.used (hq.mint k hk).1, hminted k hk (hq.mint k hk).2⟩⟩

/-! ## Commands -/

namespace CodeDesk

/-- The codes change in attempts and uses at most. -/
structure Marks (s s' : CodeDesk) (g : MailedCode → MailedCode) : Prop where
  rows : s'.codes.rows = s.codes.rows.map g
  same : ∀ c : MailedCode, c.Same (g c)
  mono : ∀ c : MailedCode, c.used = true → (g c).used = true
  orgs : s'.orgs = s.orgs
  now : s'.now = s.now
  mailed : s'.mailed = s.mailed

variable {s' : CodeDesk} {g : MailedCode → MailedCode}

theorem Marks.grows (h : s.Marks s' g) : s.Grows s' where
  orgs := h.orgs
  now := Nat.le_of_eq h.now.symm
  mailed t ht := by
    rw [h.mailed]
    exact ht
  codes c hc := ⟨g c, by rw [h.rows]; exact mem_map_of_mem hc, h.same c, h.mono c⟩

theorem Marks.countP (h : s.Marks s' g) {P : MailedCode → Bool}
    (hP : ∀ c c' : MailedCode, c.Same c' → P c' = P c) :
    s'.codes.rows.countP P = s.codes.rows.countP P := by
  rw [h.rows, countP_map]
  exact congrArg (s.codes.rows.countP ·) (funext fun c => hP c (g c) (h.same c))

theorem Marks.quiet (h : s.Marks s' g) : s.Quiet s' where
  recent := by
    unfold recentLogins
    rw [h.now]
    refine Nat.le_of_eq (h.countP fun c c' hc => ?_)
    rw [hc.isLogin, hc.createdAt]
  codes c' hc' hl := by
    rw [h.rows] at hc'
    obtain ⟨c, hc, rfl⟩ := mem_map.1 hc'
    rw [(h.same c).isLogin] at hl
    exact ⟨c, hc, hl, (h.same c).secret.symm⟩

theorem marks_setCode (s : CodeDesk) (id : CodeId) {f : MailedCode → MailedCode}
    (hf : ∀ c, (f c).id = c.id) (hsame : ∀ c : MailedCode, c.Same (f c))
    (hmono : ∀ c : MailedCode, c.used = true → (f c).used = true) :
    s.Marks (s.setCode id f hf) fun c => if c.id == id then f c else c := by
  refine ⟨rfl, fun c => ?_, fun c hc => ?_, rfl, rfl, rfl⟩
  · split
    · exact hsame c
    · exact .refl c
  · split
    · exact hmono c hc
    · exact hc

theorem rows_insert (hs : s.Sound) (kind : CodeKind) (secret : Text) (org : Option OrgId)
    (expiresAt : Time) : (s.insert kind secret org expiresAt).codes.rows =
      s.codes.rows ++ [⟨s.nextId, kind, secret, org, s.now, expiresAt, 0, false⟩] := by
  show (s.codes.insert _).rows = _
  unfold Table.insert
  rw [dif_neg]
  intro hmem
  obtain ⟨c, hc, hid⟩ := mem_map.1 hmem
  exact Nat.ne_of_lt (hs.codes c hc).fresh hid

theorem grows_insert (hs : s.Sound) (kind : CodeKind) (secret : Text) (org : Option OrgId)
    (expiresAt : Time) : s.Grows (s.insert kind secret org expiresAt) where
  orgs := rfl
  now := Nat.le_refl _
  mailed _ ht := ht
  codes c hc := ⟨c, by rw [rows_insert hs]; exact mem_append_left _ hc, .refl c, id⟩

theorem Marks.sound (h : s.Marks s' g) (hs : s.Sound) (hnext : s'.nextId = s.nextId)
    (hbudgets : s'.budgets = s.budgets) (hpasses : s'.passes = s.passes)
    (hminted : s'.minted = s.minted) : s'.Sound := by
  have hmem : ∀ c' ∈ s'.codes.rows, ∃ c ∈ s.codes.rows, c.Same c' ∧ c' = g c := by
    intro c' hc'
    rw [h.rows] at hc'
    obtain ⟨c, hc, rfl⟩ := mem_map.1 hc'
    exact ⟨c, hc, h.same c, rfl⟩
  refine ⟨fun c' hc' => ?_, fun a => ?_, fun c₁ hc₁ c₂ hc₂ hl₁ hl₂ he => ?_, ?_, ?_, ?_, ?_, ?_⟩
  · obtain ⟨c, hc, hsame, -⟩ := hmem c' hc'
    exact (hs.codes c hc).frame hsame h.grows (Nat.le_of_eq hnext.symm)
  · refine Nat.le_trans (Nat.le_of_eq (h.countP fun c c' hsame => ?_)) (hs.few a)
    unfold MailedCode.inHour
    rw [hsame.isLogin, hsame.createdAt]
  · obtain ⟨d₁, hd₁, hsame₁, rfl⟩ := hmem c₁ hc₁
    obtain ⟨d₂, hd₂, hsame₂, rfl⟩ := hmem c₂ hc₂
    rw [hs.distinct d₁ hd₁ d₂ hd₂ (hsame₁.isLogin ▸ hl₁) (hsame₂.isLogin ▸ hl₂)
      (hsame₁.secret.symm.trans (he.trans hsame₂.secret))]
  · rw [hpasses, h.now]
    exact hs.past
  · rw [hpasses]
    exact hs.windows
  · rw [hpasses, hbudgets, h.now]
    exact hs.tracks
  · rw [hminted]
    exact hs.minted
  · intro id hid
    rw [hminted] at hid
    exact h.grows.used (hs.used id hid)

theorem marks_attempt (s : CodeDesk) (id : CodeId) : s.Marks (DeskCommand.run s (.attempt id))
    fun c => if c.id == id then c.charge else c :=
  @marks_setCode s id MailedCode.charge (fun _ => rfl) (fun _ => ⟨rfl, rfl, rfl, rfl, rfl, rfl⟩)
    fun _ h => h

theorem marks_use (s : CodeDesk) (id : CodeId) : s.Marks (DeskCommand.run s (.use id))
    fun c => if c.id == id then c.use else c :=
  @marks_setCode s id MailedCode.use (fun _ => rfl) (fun _ => ⟨rfl, rfl, rfl, rfl, rfl, rfl⟩)
    fun _ _ => rfl

theorem sound_insert (hs : s.Sound) (kind : CodeKind) (secret : Text) (org : Option OrgId)
    (expiresAt : Time)
    (hlogin : kind = .login → s.recentLogins < Registry.maxCodes ∧
      expiresAt ≤ s.now + codeValidity ∧ (∀ o ∈ org, o ∈ s.orgs) ∧ secret ∈ s.mailed ∧
      ∀ c ∈ s.codes.rows, c.isLogin = true → c.secret ≠ secret) :
    (s.insert kind secret org expiresAt).Sound := by
  have hrows := rows_insert hs kind secret org expiresAt
  have hkind : (⟨s.nextId, kind, secret, org, s.now, expiresAt, 0, false⟩ : MailedCode).isLogin =
      true → kind = .login := fun h => beq_iff_eq.1 h
  have hgrows := grows_insert hs kind secret org expiresAt
  refine ⟨?_, fun a => ?_, ?_, hs.past, hs.windows, hs.tracks, hs.minted, ?_⟩
  all_goals rw [hrows]
  · refine forall_mem_append.2 ⟨fun c hc =>
      (hs.codes c hc).frame (.refl c) hgrows (Nat.le_succ _), forall_mem_singleton.2 ?_⟩
    exact ⟨Nat.lt_succ_self _, Nat.le_refl _, fun h => (hlogin (hkind h)).2.1,
      fun h => (hlogin (hkind h)).2.2.1, fun h => (hlogin (hkind h)).2.2.2.1⟩
  · rw [countP_append, countP_singleton]
    split
    · next hin =>
      -- every code of that hour is recent
      simp only [MailedCode.inHour, Bool.and_eq_true, decide_eq_true_eq] at hin
      have hrecent : s.codes.rows.countP (·.inHour a) ≤ s.recentLogins := by
        refine countP_mono_left fun c hc hca => ?_
        simp only [MailedCode.inHour, Bool.and_eq_true, decide_eq_true_eq] at hca ⊢
        exact ⟨hca.1, Nat.lt_of_lt_of_le hin.2.2 (Nat.add_le_add_right hca.2.1 _)⟩
      exact Nat.lt_of_le_of_lt hrecent (hlogin (hkind hin.1)).1
    · exact hs.few a
  · have hnew : ∀ c ∈ s.codes.rows, c.isLogin = true → kind = .login → c.secret ≠ secret :=
      fun c hc hl hk => (hlogin hk).2.2.2.2 c hc hl
    intro c₁ hc₁ c₂ hc₂ hl₁ hl₂ he
    rcases mem_append.1 hc₁ with hc₁ | hc₁
    · rcases mem_append.1 hc₂ with hc₂ | hc₂
      · exact hs.distinct c₁ hc₁ c₂ hc₂ hl₁ hl₂ he
      · obtain rfl := mem_singleton.1 hc₂
        exact absurd he (hnew c₁ hc₁ hl₁ (hkind hl₂))
    · obtain rfl := mem_singleton.1 hc₁
      rcases mem_append.1 hc₂ with hc₂ | hc₂
      · exact absurd he.symm (hnew c₂ hc₂ hl₂ (hkind hl₁))
      · exact (mem_singleton.1 hc₂).symm
  · rw [← hrows]
    exact fun id hid => hgrows.used (hs.used id hid)

theorem codeValidity_pos : 0 < codeValidity := by decide

theorem sound_spend (hs : s.Sound) (key : BudgetKey) : (s.spend key).Sound := by
  have hrest : ∀ {budgets : Expiring BudgetKey Nat} {passes : List Pass},
      (∀ p ∈ passes, p.time ≤ s.now) → Windows codeValidity maxVerifyAttempts passes →
      Tracks codeValidity s.now (budgets .ceiling) passes →
      CodeDesk.Sound { s with budgets, passes } := fun hpast hwin htr =>
    ⟨fun c hc => { hs.codes c hc with }, hs.few, hs.distinct, hpast, hwin, htr, hs.minted, hs.used⟩
  unfold spend
  cases key with
  | client ip =>
    refine hrest ?_ ?_ ?_
    all_goals rw [if_neg fun h => nomatch h.1]
    · exact hs.past
    · exact hs.windows
    · have hother : (s.budgets.count codeValidity s.now (.client ip)) .ceiling =
          s.budgets .ceiling := Expiring.count_of_ne nofun
      exact hother ▸ hs.tracks
  | ceiling =>
    by_cases hpass : (s.budgets.counted codeValidity s.now .ceiling).1 ≤ maxVerifyAttempts
    · obtain ⟨htr, hwin⟩ := hs.tracks.passed codeValidity_pos hs.windows hpass
      refine hrest ?_ ?_ ?_
      all_goals rw [if_pos ⟨rfl, hpass⟩]
      · exact forall_mem_cons.2 ⟨Nat.le_refl _, hs.past⟩
      · exact hwin
      · exact htr
    · refine hrest ?_ ?_ ?_
      all_goals rw [if_neg fun h => hpass h.2]
      · exact hs.past
      · exact hs.windows
      · exact hs.tracks.refused codeValidity_pos

theorem sound_advance (hs : s.Sound) (d : Nat) : (DeskCommand.run s (.advance d)).Sound where
  codes c hc := { hs.codes c hc with born := Nat.le_trans (hs.codes c hc).born (Nat.le_add_right _ _) }
  few := hs.few
  distinct := hs.distinct
  past p hp := Nat.le_trans (hs.past p hp) (Nat.le_add_right _ _)
  windows := hs.windows
  tracks := hs.tracks.later (Nat.le_add_right _ _)
  minted := hs.minted
  used := hs.used

theorem sound_send (hs : s.Sound) (secret : Text) : (DeskCommand.run s (.send secret)).Sound :=
  ⟨fun c hc => { hs.codes c hc with mailed := fun hl => mem_cons_of_mem _ ((hs.codes c hc).mailed hl) },
    hs.few, hs.distinct, hs.past, hs.windows, hs.tracks, hs.minted, hs.used⟩

theorem Sound.mint (hs : s.Sound) {id : CodeId} (hnew : id ∉ s.minted)
    (hused : ∃ c ∈ s.codes.rows, c.id = id ∧ c.used = true) :
    CodeDesk.Sound { s with minted := id :: s.minted } :=
  ⟨fun c hc => { hs.codes c hc with }, hs.few, hs.distinct, hs.past, hs.windows, hs.tracks,
    nodup_cons.2 ⟨hnew, hs.minted⟩, forall_mem_cons.2 ⟨hused, hs.used⟩⟩

end CodeDesk

/-! ## Steps -/

def DeskProc.isBetween : DeskProc → Bool
  | start q => q.isBetween
  | _ => false

/-- A request counts while no other one has counted and not stored its code yet; and no code is
mailed twice. -/
def StartReq.isInTurn (s : CodeDesk) (os : List DeskProc) (p : StartReq) : Bool :=
  match p.phase with
  | .count => os.all fun q => !q.isBetween
  | .send _ => !s.mailed.contains p.secret
  | _ => true

def DeskProc.isInTurn (s : CodeDesk) (os : List DeskProc) : DeskProc → Bool
  | start p => p.isInTurn s os
  | _ => true

@[reducible] def codesInTurn : PoolSpec.Allow codeDesk.pool :=
  .onRun codeDesk.pool fun s os p => DeskProc.isInTurn s os p

theorem CodeDesk.recentLogins_le (s : CodeDesk) : s.recentLogins ≤ s.recentCodes :=
  countP_mono_left fun _ _ h => (Bool.and_eq_true _ _ ▸ h).2

theorem StartReq.Goes.sane {p : StartReq} {phase : StartPhase} (h : p.Goes s phase)
    (hp : p.Sane s) : StartReq.Sane s { p with phase } := by
  cases h with
  | count h hfew =>
    refine ⟨fun _ => Nat.lt_of_le_of_lt s.recentLogins_le hfew, fun org hphase => ?_, nofun⟩
    rcases hphase with hphase | ⟨e, hphase⟩ <;> nomatch hphase
  | lookup h =>
    refine ⟨fun _ => hp.few (by unfold isBetween; rw [h]), fun org hphase o ho => ?_, nofun⟩
    rcases hphase with hphase | ⟨e, hphase⟩
    · cases hphase
      exact mem_of_head? ho
    · nomatch hphase

theorem CodeDesk.pick_of {secret : Text} (h : s.pick secret = some k) : k.Of s secret := by
  have hcand : ∀ c ∈ s.candidates, c ∈ s.codes.rows ∧ c.isLogin = true := by
    intro c hc
    have hmem := mem_filter.1 (mem_reverse.1 (mem_of_mem_take hc))
    simp only [isLive, Bool.and_eq_true] at hmem
    exact ⟨hmem.1, hmem.2.1.1⟩
  unfold pick at h
  split at h
  · next c hc =>
    cases h
    obtain ⟨hrow, hl⟩ := hcand c (mem_of_find?_eq_some hc)
    have hsecret := find?_some hc
    exact ⟨c, hrow, rfl, hl, rfl, fun _ => beq_iff_eq.1 hsecret⟩
  · obtain ⟨c, hc, rfl⟩ := Option.map_eq_some_iff.1 h
    obtain ⟨hrow, hl⟩ := hcand c (mem_of_head? hc)
    exact ⟨c, hrow, rfl, hl, rfl, nofun⟩

theorem VerifyReq.Goes.sane {phase : VerifyPhase} (h : p.Goes s phase)
    (hp : p.Sane s) : VerifyReq.Sane s { p with phase } := by
  cases h with
  | select h hk =>
    refine ⟨fun k hk' => ?_, nofun⟩
    cases hk'
    exact CodeDesk.pick_of hk
  | capped h =>
    refine ⟨fun k hk' => ?_, nofun⟩
    cases hk'
    exact hp.pick _ (by rw [h]; rfl)

theorem CodeDesk.grows_refl (horgs : s'.orgs = s.orgs) (hnow : s.now ≤ s'.now)
    (hmailed : ∀ t ∈ s.mailed, t ∈ s'.mailed) (hcodes : s'.codes = s.codes) : s.Grows s' :=
  ⟨horgs, hnow, hmailed, fun c hc => ⟨c, by rw [hcodes]; exact hc, .refl c, id⟩⟩

theorem CodeDesk.quiet_refl (hnow : s.now ≤ s'.now) (hcodes : s'.codes = s.codes) :
    s.Quiet s' := by
  refine ⟨?_, fun c hc hl => ⟨c, by rw [← hcodes]; exact hc, hl, rfl⟩⟩
  unfold recentLogins
  rw [hcodes]
  refine countP_mono_left fun c _ h => ?_
  simp only [Bool.and_eq_true, decide_eq_true_eq] at h ⊢
  exact ⟨h.1, Nat.lt_of_le_of_lt hnow h.2⟩

theorem CodeDesk.quiet_signup (hs : s.Sound) (id : CodeId) (secret : Text) :
    s.Quiet (DeskCommand.run s (.signup id secret)) := by
  have hrows := rows_insert hs .signup secret none (s.now + signupValidity)
  refine ⟨?_, fun c hc hl => ?_⟩
  · show List.countP _ (s.insert .signup secret none (s.now + signupValidity)).codes.rows ≤ _
    rw [hrows, countP_append, countP_singleton]
    exact Nat.le_refl _
  · have hc : c ∈ (s.insert .signup secret none (s.now + signupValidity)).codes.rows := hc
    rw [hrows] at hc
    rcases mem_append.1 hc with hc | hc
    · exact ⟨c, hc, hl, rfl⟩
    · obtain rfl := mem_singleton.1 hc
      nomatch hl

theorem CodeDesk.grows_signup (hs : s.Sound) (id : CodeId) (secret : Text) :
    s.Grows (DeskCommand.run s (.signup id secret)) :=
  let h := grows_insert hs .signup secret none (s.now + signupValidity)
  ⟨h.orgs, h.now, h.mailed, h.codes⟩

theorem VerifyReq.Runs.grows
    (h : p.Runs s a phase) (hs : s.Sound) : s.Grows (a.run s) ∧ s.Quiet (a.run s) := by
  cases h with
  | client | ceiling | exhausted | login =>
    exact ⟨CodeDesk.grows_refl rfl (Nat.le_refl _) (fun _ h => h) rfl,
      CodeDesk.quiet_refl (Nat.le_refl _) rfl⟩
  | hit | wrong => exact ⟨(s.marks_attempt _).grows, (s.marks_attempt _).quiet⟩
  | invalidate | consume => exact ⟨(s.marks_use _).grows, (s.marks_use _).quiet⟩
  | signup => exact ⟨CodeDesk.grows_signup hs _ _, CodeDesk.quiet_signup hs _ _⟩

theorem VerifyReq.Runs.sound
    (h : p.Runs s a phase) (hs : s.Sound) (hp : p.Sane s) : (a.run s).Sound := by
  cases h with
  | client | ceiling | exhausted => exact CodeDesk.sound_spend hs _
  | hit | wrong => exact (s.marks_attempt _).sound hs rfl rfl rfl rfl
  | invalidate | consume => exact (s.marks_use _).sound hs rfl rfl rfl rfl
  | @login k h =>
    obtain ⟨hused, hnew⟩ := hp.mint k h
    exact hs.mint hnew hused
  | @signup k h =>
    obtain ⟨hused, hnew⟩ := hp.mint k h
    have hins := CodeDesk.sound_insert hs .signup p.signupSecret none (s.now + signupValidity) nofun
    exact hins.mint hnew ((CodeDesk.grows_insert hs _ _ _ _).used hused)

theorem VerifyReq.Runs.minted
    (h : p.Runs s a phase) {id : CodeId} (hid : ∀ k, p.phase = .mint k → k.id ≠ id)
    (hnew : id ∉ s.minted) : id ∉ (a.run s).minted := by
  cases h with
  | @login k h | @signup k h =>
    intro hmem
    rcases mem_cons.1 hmem with rfl | hmem
    · exact hid k h rfl
    · exact hnew hmem
  | _ => exact hnew

theorem VerifyReq.Runs.own (h : p.Runs s a (some next)) (hs : s.Sound) (hp : p.Sane s) :
    VerifyReq.Sane (a.run s) { p with phase := next } := by
  obtain ⟨hgrows, -⟩ := h.grows hs
  -- the pick is handed on
  have hpick : ∀ k, p.phase.pick = some k → k.Of (a.run s) p.secret := fun k hk =>
    (hp.pick k hk).frame hgrows
  cases h with
  | client h | ceiling h | hit h =>
    refine ⟨fun k hk => ?_, nofun⟩
    cases hk
    exact hpick _ (by rw [h]; rfl)
  | @consume k h hunused =>
    refine ⟨fun k' hk' => ?_, fun k' hk' => ?_⟩
    · cases hk'
      exact hpick _ (by rw [h]; rfl)
    · cases hk'
      obtain ⟨c, hc, hu⟩ := Option.any_eq_true _ _ |>.1 hunused
      have hid : c.id = k.id := Table.key_of_find hc
      refine ⟨⟨c.use, ?_, hid, rfl⟩, fun hmem => ?_⟩
      · rw [(s.marks_use k.id).rows]
        exact mem_map.2 ⟨c, Table.mem_of_find hc, if_pos (beq_iff_eq.2 hid)⟩
      · obtain ⟨c', hc', hid', hused⟩ := hs.used _ hmem
        rw [Table.eq_of_key hc' (Table.mem_of_find hc) (hid'.trans hid.symm)] at hused
        rw [hused] at hu
        nomatch hu
  | login h | signup h => exact ⟨nofun, nofun⟩

theorem VerifyReq.Runs.apart (h : p.Runs s a (some next)) {q : VerifyReq} (hq : q.Sane s) :
    DeskProc.Apart (.verify { p with phase := next }) (.verify q) := by
  intro k k' hk hk' he
  cases h with
  | @consume k₀ h hunused =>
    cases hk
    obtain ⟨c, hc, hu⟩ := Option.any_eq_true _ _ |>.1 hunused
    obtain ⟨c', hc', hid', hused⟩ := (hq.mint k' hk').1
    have hid : c.id = k.id := Table.key_of_find hc
    rw [Table.eq_of_key hc' (Table.mem_of_find hc) (hid'.trans (he.symm.trans hid.symm))] at hused
    rw [hused] at hu
    nomatch hu
  | _ => nomatch hk

theorem VerifyReq.Goes.apart (h : p.Goes s next)
    (q : VerifyReq) : DeskProc.Apart (.verify { p with phase := next }) (.verify q) := by
  intro k k' hk
  cases h with
  | select | capped => nomatch hk

theorem DeskProc.Sane.frame {q : DeskProc} (hq : q.Sane s) (h : s.Grows s')
    (hquiet : s.Quiet s') (hminted : ∀ r : VerifyReq, q = .verify r → ∀ k, r.phase = .mint k →
      k.id ∉ s.minted → k.id ∉ s'.minted) : q.Sane s' := by
  cases q with
  | start q => exact StartReq.Sane.frame hq h hquiet
  | verify q => exact VerifyReq.Sane.frame hq h (hminted q rfl)
  | clock => trivial

theorem DeskAsk.sane (a : DeskAsk) : a.proc.Sane s := by
  cases a with
  | start => exact StartReq.sane_of_not_between rfl
  | verify => exact ⟨nofun, nofun⟩
  | clock => trivial

theorem DeskAsk.apart (a : DeskAsk) (q : DeskProc) : a.proc.Apart q := by
  cases a with
  | start =>
    cases q with
    | start q => exact fun hb => Bool.noConfusion hb.1
    | verify | clock => trivial
  | verify =>
    cases q with
    | verify q => exact fun k k' hk => nomatch hk
    | start | clock => trivial
  | clock => cases q <;> trivial

/-- What a request relies on, beside the others. -/
abbrev DeskProc.Beside (s : CodeDesk) (os : List DeskProc) (p : DeskProc) : Prop :=
  PoolSpec.Beside codeDesk.pool CodeDesk.Sound DeskProc.Sane (fun _ => DeskProc.Apart) s os p

/-- What a command keeps, with what becomes of its process. -/
def DeskProc.KeptBy (os : List DeskProc) (s' : CodeDesk) (p' : Option DeskProc) : Prop :=
  s'.Sound ∧ (∀ r ∈ p', r.Sane s' ∧ ∀ q ∈ os, r.Apart q) ∧ ∀ q ∈ os, q.Sane s'

theorem StartReq.Goes.apart {p : StartReq} {phase : StartPhase} (h : p.Goes s phase)
    (hturn : p.isInTurn s os = true) (hb : (DeskProc.start p).Beside s os) {q : DeskProc}
    (hq : q ∈ os) : DeskProc.Apart (.start { p with phase }) q := by
  cases q with
  | verify | clock => trivial
  | start q =>
    rintro ⟨-, hbetween⟩
    cases h with
    | count h hfew =>
      simp only [StartReq.isInTurn, h] at hturn
      have hno := all_eq_true.1 hturn _ hq
      simp only [DeskProc.isBetween, hbetween] at hno
      nomatch hno
    | lookup h =>
      have hapart : DeskProc.Apart (.start p) (.start q) := hb.pair _ hq
      exact hapart ⟨by unfold StartReq.isBetween; rw [h], hbetween⟩

theorem StartReq.kept_send {p : StartReq} {org : Option OrgId} (h : p.phase = .send org)
    (hturn : p.isInTurn s os = true) (hb : (DeskProc.start p).Beside s os) :
    DeskProc.KeptBy os (DeskCommand.run s (.send p.secret))
      (some (.start { p with phase := .insert org (s.now + codeValidity) })) := by
  have hp : p.Sane s := hb.own
  have hbetween : p.isBetween = true := by unfold StartReq.isBetween; rw [h]
  simp only [StartReq.isInTurn, h, Bool.not_eq_true', contains_eq_mem,
    decide_eq_false_iff_not] at hturn
  have hgrows : s.Grows (DeskCommand.run s (.send p.secret)) :=
    CodeDesk.grows_refl rfl (Nat.le_refl _) (fun _ => mem_cons_of_mem _) rfl
  have hquiet : s.Quiet (DeskCommand.run s (.send p.secret)) :=
    CodeDesk.quiet_refl (Nat.le_refl _) rfl
  refine ⟨CodeDesk.sound_send hb.store _, fun r hr => ?_, fun q hq =>
    (hb.others q hq).frame hgrows hquiet fun _ _ _ _ h => h⟩
  cases hr
  refine ⟨⟨fun _ => hp.few hbetween, fun org' hphase o ho => ?_, fun org' e hphase => ?_⟩,
    fun q hq => ?_⟩
  · rcases hphase with hphase | ⟨e, hphase⟩
    · nomatch hphase
    · cases hphase
      exact hp.org org (.inl h) o ho
  · cases hphase
    refine ⟨Nat.le_refl _, mem_cons_self, fun c hc hl he => hturn ?_⟩
    exact he ▸ (hb.store.codes c hc).mailed hl
  · cases q with
    | start q =>
      have hapart : DeskProc.Apart (.start p) (.start q) := hb.pair _ hq
      exact fun hboth => hapart ⟨hbetween, hboth.2⟩
    | verify | clock => trivial

theorem StartReq.kept_insert {p : StartReq} {org : Option OrgId} {expiresAt : Time}
    (h : p.phase = .insert org expiresAt) (hb : (DeskProc.start p).Beside s os) :
    DeskProc.KeptBy os (DeskCommand.run s (.insert .login p.secret org expiresAt)) none := by
  have hp : p.Sane s := hb.own
  have hbetween : p.isBetween = true := by unfold StartReq.isBetween; rw [h]
  obtain ⟨he, hmailed, hnew⟩ := hp.insert org expiresAt h
  refine ⟨CodeDesk.sound_insert hb.store _ _ _ _ fun _ =>
    ⟨hp.few hbetween, he, hp.org org (.inr ⟨expiresAt, h⟩), hmailed, hnew⟩,
    fun r hr => absurd hr (Option.not_mem_none _), fun q hq => ?_⟩
  cases q with
  | start q =>
    have hapart : DeskProc.Apart (.start p) (.start q) := hb.pair _ hq
    exact StartReq.sane_of_not_between (Bool.eq_false_iff.2 fun hq => hapart ⟨hbetween, hq⟩)
  | verify q =>
    exact VerifyReq.Sane.frame (hb.others _ hq) (CodeDesk.grows_insert hb.store _ _ _ _)
      fun _ _ h => h
  | clock => trivial

theorem VerifyReq.Runs.kept (h : p.Runs s a phase) (hb : (DeskProc.verify p).Beside s os) :
    DeskProc.KeptBy os (a.run s) (phase.map fun phase => .verify { p with phase }) := by
  obtain ⟨hgrows, hquiet⟩ := h.grows hb.store
  refine ⟨h.sound hb.store hb.own, fun r hr => ?_, fun q hq => ?_⟩
  · obtain ⟨next, rfl, rfl⟩ := Option.map_eq_some_iff.1 hr
    refine ⟨h.own hb.store hb.own, fun q hq => ?_⟩
    cases q with
    | verify q => exact h.apart (hb.others _ hq)
    | start | clock => trivial
  · refine (hb.others q hq).frame hgrows hquiet fun r hqr k hk => ?_
    subst hqr
    have hapart : DeskProc.Apart (.verify p) (.verify r) := hb.pair _ hq
    exact h.minted fun k₀ hk₀ => hapart k₀ k hk₀ hk

theorem kept_advance {d : Nat} (hb : (DeskProc.clock d).Beside s os) :
    DeskProc.KeptBy os (DeskCommand.run s (.advance d)) none := by
  refine ⟨CodeDesk.sound_advance hb.store d, fun r hr => absurd hr (Option.not_mem_none _),
    fun q hq => ?_⟩
  exact (hb.others q hq).frame
    (CodeDesk.grows_refl rfl (Nat.le_add_right _ _) (fun _ h => h) rfl)
    (CodeDesk.quiet_refl (Nat.le_add_right _ _) rfl) fun _ _ _ _ h => h

/-- **One request stores at a time.** -/
theorem codeDesk_kept : PoolSpec.Kept codeDesk.pool codesInTurn CodeDesk.Sound DeskProc.Sane
    fun _ => DeskProc.Apart := by
  refine @CommandSpec.Keeps.kept codeDesk codesInTurn _ _ _ ?_
  refine ⟨fun h => h.symm, fun {s a} _ hs => ⟨hs, a.sane⟩, fun {s a q} _ _ hq => ⟨hq, a.apart q⟩,
    fun h => h, fun {s os p p'} hact hA hb => ?_, fun {s os p a p'} hact hA hb => ?_⟩
  · replace hact : p.act s = .stay p' := Option.some.inj hact
    cases p with
    | start p =>
      obtain ⟨phase, rfl, hgoes⟩ := p.turns.of_stay (congrArg some hact)
      exact ⟨hgoes.sane hb.own, fun q hq => hgoes.apart hA hb hq⟩
    | verify p =>
      obtain ⟨phase, rfl, hgoes⟩ := p.turns.of_stay (congrArg some hact)
      refine ⟨hgoes.sane hb.own, fun q _ => ?_⟩
      cases q with
      | verify q => exact hgoes.apart q
      | start | clock => trivial
    | clock d => nomatch hact
  · replace hact : p.act s = .run a p' := Option.some.inj hact
    have hkept : DeskProc.KeptBy os (a.run s) p' := by
      cases p with
      | start p =>
        obtain ⟨phase, rfl, hruns⟩ := p.turns.of_run (congrArg some hact)
        cases hruns with
        | send h => exact StartReq.kept_send h hA hb
        | insert h => exact StartReq.kept_insert h hb
      | verify p =>
        obtain ⟨phase, rfl, hruns⟩ := p.turns.of_run (congrArg some hact)
        exact hruns.kept hb
      | clock d =>
        cases hact
        exact kept_advance hb
    exact ⟨hkept.1, hkept.2.1, hkept.2.2, fun _ _ _ _ h => h⟩

/-! ## Attempts and budgets -/

/-- The verify has spent its budgets, and is about to charge that code. -/
def DeskProc.awaits (id : CodeId) : DeskProc → Bool
  | verify p =>
    match p.phase with
    | .attempt k => k.id == id
    | _ => false
  | _ => false

/-- Every attempt on a code, made or to be made, has passed the address's budget since the code was
stored. -/
def CodeDesk.Charged (s : CodeDesk) (ps : List DeskProc) : Prop :=
  ∀ c ∈ s.codes.rows, c.attempts + ps.countP (·.awaits c.id) ≤
    s.passes.countP fun q => decide (c.createdAt ≤ q.time)

theorem CodeDesk.Charged.mono {ps' : List DeskProc} (h : s.Charged ps)
    (hpasses : s'.passes = s.passes)
    (hcodes : ∀ c' ∈ s'.codes.rows, ∃ c ∈ s.codes.rows, c'.createdAt = c.createdAt ∧
      c'.attempts + ps'.countP (·.awaits c'.id) ≤ c.attempts + ps.countP (·.awaits c.id)) :
    s'.Charged ps' := by
  intro c' hc'
  obtain ⟨c, hc, hat, hle⟩ := hcodes c' hc'
  rw [hpasses, hat]
  exact Nat.le_trans hle (h c hc)

theorem CodeDesk.Charged.sub {ps' : List DeskProc} (h : s.Charged ps)
    (hpasses : s'.passes = s.passes) (hcodes : s'.codes = s.codes)
    (hle : ∀ id, ps'.countP (·.awaits id) ≤ ps.countP (·.awaits id)) : s'.Charged ps' := by
  refine h.mono hpasses fun c hc => ⟨c, by rw [← hcodes]; exact hc, rfl, ?_⟩
  exact Nat.add_le_add_left (hle c.id) _

theorem countP_awaits_tail (p : DeskProc) (os : List DeskProc) (id : CodeId) :
    os.countP (·.awaits id) ≤ (p :: os).countP (·.awaits id) := by
  rw [countP_cons]
  exact Nat.le_add_right _ _

theorem countP_awaits_replace {p p' : DeskProc} (os : List DeskProc)
    (h : ∀ id, p'.awaits id = false) (id : CodeId) :
    (p' :: os).countP (·.awaits id) ≤ (p :: os).countP (·.awaits id) := by
  have hskip : (p' :: os).countP (·.awaits id) = os.countP (·.awaits id) :=
    countP_cons_of_neg fun hp => by rw [h id] at hp; nomatch hp
  rw [hskip]
  exact countP_awaits_tail p os id

theorem CodeDesk.Charged.cons_not (h : s.Charged ps) {p : DeskProc}
    (hp : ∀ id, p.awaits id = false) : s.Charged (p :: ps) := by
  refine h.sub rfl rfl fun id => Nat.le_of_eq (countP_cons_of_neg fun h => ?_)
  rw [hp id] at h
  nomatch h

theorem CodeDesk.Charged.use (h : s.Charged ps) (id : CodeId) :
    (DeskCommand.run s (.use id)).Charged ps := by
  refine h.mono rfl fun c' hc' => ?_
  rw [(s.marks_use id).rows] at hc'
  obtain ⟨c, hc, rfl⟩ := mem_map.1 hc'
  refine ⟨c, hc, ((s.marks_use id).same c).createdAt, ?_⟩
  split <;> exact Nat.le_refl _

theorem CodeDesk.Charged.insert (hs : s.Sound)
    (hps : ∀ p ∈ ps, p.Sane s) (h : s.Charged ps) (kind : CodeKind) (secret : Text)
    (org : Option OrgId) (expiresAt : Time) : (s.insert kind secret org expiresAt).Charged ps := by
  intro c hc
  rw [rows_insert hs] at hc
  rcases mem_append.1 hc with hc | hc
  · exact h c hc
  · obtain rfl := mem_singleton.1 hc
    have hzero : ps.countP (·.awaits s.nextId) = 0 := by
      refine countP_eq_zero.2 fun p hp hawaits => ?_
      cases p with
      | start | clock => nomatch hawaits
      | verify p =>
        simp only [DeskProc.awaits] at hawaits
        split at hawaits
        · next k hphase =>
          have hp : VerifyReq.Sane s p := hps _ hp
          obtain ⟨c, hc, hid, -⟩ := hp.pick k (by rw [hphase]; rfl)
          have hlt := (hs.codes c hc).fresh
          rw [hid, beq_iff_eq.1 hawaits] at hlt
          exact Nat.lt_irrefl _ hlt
        · nomatch hawaits
    show 0 + ps.countP (·.awaits s.nextId) ≤ _
    rw [hzero]
    exact Nat.zero_le _

theorem CodeDesk.Charged.attempt {k : Pick}
    (h : s.Charged (.verify p :: os)) (hphase : p.phase = .attempt k)
    (hps : ∀ id, ps.countP (·.awaits id) ≤ os.countP (·.awaits id)) :
    (DeskCommand.run s (.attempt k.id)).Charged ps := by
  refine h.mono rfl fun c' hc' => ?_
  rw [(s.marks_attempt k.id).rows] at hc'
  obtain ⟨c, hc, rfl⟩ := mem_map.1 hc'
  have hle := hps c.id
  refine ⟨c, hc, ((s.marks_attempt k.id).same c).createdAt, ?_⟩
  rw [countP_cons]
  by_cases hid : c.id = k.id
  · have hself : DeskProc.awaits c.id (.verify p) = true := by
      simp only [DeskProc.awaits, hphase, hid, beq_self_eq_true]
    simp only [hid, beq_self_eq_true, if_true] at hle ⊢
    rw [hid] at hself
    show c.attempts + 1 + ps.countP (·.awaits c.id) ≤ _
    rw [hid, if_pos hself]
    omega
  · simp only [beq_false_of_ne hid, Bool.false_eq_true, if_false]
    omega

theorem VerifyReq.Runs.charged (h : p.Runs s a phase) (hs : s.Sound) (hos : ∀ q ∈ os, q.Sane s)
    (hG : s.Charged (.verify p :: os)) :
    (a.run s).Charged ((phase.map fun phase => .verify { p with phase }).toList ++ os) := by
  have hpast := hG.sub rfl rfl fun id => countP_awaits_tail (.verify p) os id
  cases h with
  | client | login => exact hG.sub rfl rfl (countP_awaits_replace os fun _ => rfl)
  | @ceiling k h hpass =>
    intro c hc
    have hle := hpast c hc
    have hpasses : (s.spend .ceiling).passes =
        ⟨s.now, (s.budgets.counted codeValidity s.now .ceiling).2 - codeValidity⟩ :: s.passes :=
      if_pos ⟨rfl, hpass⟩
    have hborn : decide (c.createdAt ≤ s.now) = true := decide_eq_true (hs.codes c hc).born
    show c.attempts + (DeskProc.verify { p with phase := .attempt k } :: os).countP (·.awaits c.id) ≤
      List.countP _ (s.spend .ceiling).passes
    rw [hpasses, countP_cons, countP_cons_of_pos (l := s.passes) hborn]
    split <;> omega
  | @exhausted key k h hnone =>
    refine hpast.sub (if_neg ?_) rfl fun _ => Nat.le_refl _
    rintro ⟨rfl, hpass⟩
    exact hnone hpass
  | hit h hhit => exact hG.attempt h fun id => Nat.le_of_eq (countP_cons_of_neg nofun)
  | wrong h => exact hG.attempt h fun _ => Nat.le_refl _
  | invalidate h => exact hpast.use _
  | consume h hunused => exact (hpast.cons_not fun _ => rfl).use _
  | signup h =>
    intro c hc
    have hins := hpast.insert hs hos .signup p.signupSecret none (s.now + signupValidity)
    exact (hins.cons_not fun _ => rfl) c hc

theorem StartReq.Runs.charged {p : StartReq} {phase : Option StartPhase}
    (h : p.Runs s a phase) (hs : s.Sound) (hos : ∀ q ∈ os, q.Sane s)
    (hG : s.Charged (.start p :: os)) :
    (a.run s).Charged ((phase.map fun phase => .start { p with phase }).toList ++ os) := by
  cases h with
  | send h => exact hG.sub rfl rfl (countP_awaits_replace os fun _ => rfl)
  | insert h =>
    exact (hG.sub rfl rfl fun id => countP_awaits_tail (.start p) os id).insert hs hos _ _ _ _

/-- **Attempts are paid for.** -/
theorem codeDesk_charged : PoolSpec.KeptAll codeDesk.pool codesInTurn CodeDesk.Sound DeskProc.Sane
    (fun _ => DeskProc.Apart) CodeDesk.Charged := by
  refine ⟨fun {s ps qs} hperm h c hc => ?_, fun {s a ps} _ _ _ h => ?_,
    fun {s os p p'} hact _ _ h => ?_, fun {s os p} _ _ _ h => ?_,
    fun {s os p s' p' tell} hact _ hb h => ?_, fun {s os p} _ _ h => ?_⟩
  · have hcount : List.countP (DeskProc.awaits c.id) qs = List.countP (DeskProc.awaits c.id) ps :=
      (hperm.countP_eq _).symm
    exact hcount ▸ h c hc
  · refine CodeDesk.Charged.cons_not h fun id => ?_
    cases a <;> rfl
  · replace hact : DeskProc.act s p = .stay p' := Option.some.inj (CommandSpec.pool_stay hact)
    refine CodeDesk.Charged.sub h rfl rfl (countP_awaits_replace os fun id => ?_)
    cases p with
    | start p =>
      obtain ⟨phase, rfl, -⟩ := p.turns.of_stay (congrArg some hact)
      rfl
    | verify p =>
      obtain ⟨phase, rfl, hgoes⟩ := p.turns.of_stay (congrArg some hact)
      cases hgoes <;> rfl
    | clock d => nomatch hact
  · exact CodeDesk.Charged.sub h rfl rfl fun id => countP_awaits_tail p os id
  · obtain ⟨a, hrun, rfl, rfl⟩ := CommandSpec.pool_share hact
    replace hact : DeskProc.act s p = .run a p' := Option.some.inj hrun
    rw [map_id]
    cases p with
    | start p | verify p =>
      obtain ⟨phase, rfl, hruns⟩ := p.turns.of_run (congrArg some hact)
      exact hruns.charged hb.store hb.others h
    | clock d =>
      cases hact
      exact CodeDesk.Charged.sub h rfl rfl fun id => countP_awaits_tail _ os id
  · exact CodeDesk.Charged.sub h rfl rfl fun id => countP_awaits_tail p os id

/-! ## The result -/

theorem CodeDesk.Sound.live_recent (hs : s.Sound) (hc : c ∈ s.codes.rows) (hlive : s.isLive c = true) :
    c.inHour (s.now + 1 - mins 60) = true := by
  simp only [isLive, Bool.and_eq_true, decide_eq_true_eq] at hlive
  have hborn := (hs.codes c hc).born
  have hshort := (hs.codes c hc).short hlive.1.1
  have hvalid : codeValidity ≤ mins 60 := by decide
  unfold MailedCode.inHour
  rw [hlive.1.1, Bool.true_and]
  apply decide_eq_true
  generalize mins 60 = hour at hvalid ⊢
  generalize codeValidity = validity at hshort hvalid
  have hexp := hlive.1.2
  constructor
  · have : s.now + 1 ≤ c.createdAt + hour := by
      refine Nat.le_trans (Nat.succ_le_of_lt hexp) (Nat.le_trans hshort ?_)
      exact Nat.add_le_add_left hvalid _
    exact Nat.sub_le_of_le_add this
  · have : s.now + 1 ≤ s.now + 1 - hour + hour := Nat.le_add_of_sub_le (Nat.le_refl _)
    exact Nat.lt_of_le_of_lt hborn this

/-- **Every live code is compared.** -/
theorem CodeDesk.Sound.mem_candidates (hs : s.Sound) (hc : c ∈ s.codes.rows)
    (hlive : s.isLive c = true) : c ∈ s.candidates := by
  have hlen : (s.codes.rows.filter s.isLive).length ≤ Registry.maxCodes := by
    rw [← countP_eq_length_filter]
    refine Nat.le_trans (countP_mono_left fun d hd hl => ?_) (hs.few (s.now + 1 - mins 60))
    exact hs.live_recent hd hl
  unfold candidates
  rw [take_of_length_le (by rw [length_reverse]; exact hlen), mem_reverse]
  exact mem_filter.2 ⟨hc, hlive⟩

theorem CodeDesk.Sound.pick_live (hs : s.Sound) (hc : c ∈ s.codes.rows)
    (hlive : s.isLive c = true) : s.pick c.secret = some (c.picked true) := by
  have hmem := hs.mem_candidates hc hlive
  unfold pick
  cases hfind : s.candidates.find? (·.secret == c.secret) with
  | none =>
    have hno := find?_eq_none.1 hfind c hmem
    exact absurd (beq_self_eq_true _) hno
  | some d =>
    have hsecret := find?_some hfind
    have hd := mem_filter.1 (mem_reverse.1
      (mem_of_mem_take (mem_of_find?_eq_some hfind)))
    simp only [isLive, Bool.and_eq_true] at hd hlive
    rw [hs.distinct d hd.1 c hc hd.2.1.1 hlive.1.1 (beq_iff_eq.1 hsecret)]

/-- **A verify that has spent its budgets may try an unexpired code.** -/
theorem CodeDesk.Charged.below_cap (hs : s.Sound) (h : s.Charged ps)
    (hc : c ∈ s.codes.rows) (hl : c.isLogin = true) (hexp : s.now < c.expiresAt)
    (hawaits : ∃ p ∈ ps, p.awaits c.id = true) : c.attempts < maxAttemptsPerCode := by
  have hpos : 0 < ps.countP (·.awaits c.id) := countP_pos_iff.2 hawaits
  have hle := h c hc
  have hsoon : ∀ q ∈ s.passes, q.time < c.createdAt + codeValidity := fun q hq =>
    Nat.lt_of_le_of_lt (hs.past q hq) (Nat.lt_of_lt_of_le hexp ((hs.codes c hc).short hl))
  have hwindow : s.passes.countP (fun q => decide (c.createdAt ≤ q.time)) ≤ maxAttemptsPerCode := by
    refine Nat.le_trans (countP_mono_left fun q hq hq' => ?_)
      (hs.windows.countP_interval c.createdAt)
    simp only [decide_eq_true_eq] at hq' ⊢
    exact ⟨hq', hsoon q hq⟩
  omega

/-- The verify is about that code: it presents it, or has picked it. -/
def VerifyReq.Presents (p : VerifyReq) (c : MailedCode) : Prop :=
  p.secret = c.secret ∧ (p.phase = .select ∨ p.phase = .client (c.picked true) ∨
    p.phase = .ceiling (c.picked true) ∨ p.phase = .attempt (c.picked true) ∨
    p.phase = .consume (c.picked true))

def VerifyReq.InBudget (s : CodeDesk) (p : VerifyReq) : Prop :=
  (∀ k, p.phase = .client k →
    (s.budgets.counted codeValidity s.now (.client p.client)).1 ≤ maxCodeAttempts) ∧
  ∀ k, p.phase = .ceiling k →
    (s.budgets.counted codeValidity s.now .ceiling).1 ≤ maxVerifyAttempts

def VerifyPhase.toward (k : Pick) : VerifyPhase → Option VerifyPhase
  | select => some (.client k)
  | client _ => some (.ceiling k)
  | ceiling _ => some (.attempt k)
  | attempt _ => some (.consume k)
  | consume _ => some (.mint k)
  | mint _ => some .accepted
  | invalidate _ | accepted => none

def VerifyReq.MovesTo (s : CodeDesk) (p : VerifyReq) (next : VerifyPhase) : Prop :=
  p.act s = p.goTo next ∨ ∃ a, p.act s = p.runs a next

namespace VerifyReq

theorem act_select (hs : s.Sound) (hc : c ∈ s.codes.rows) (hlive : s.isLive c = true)
    (h : p.phase = .select) (hsecret : p.secret = c.secret) :
    p.act s = p.goTo (.client (c.picked true)) := by
  simp only [act, h, hsecret, hs.pick_live hc hlive]

theorem act_client (h : p.phase = .client k)
    (hle : (s.budgets.counted codeValidity s.now (.client p.client)).1 ≤ maxCodeAttempts) :
    p.act s = p.runs (.spend (.client p.client)) (.ceiling k) := by
  simp only [act, h, spend]
  exact if_pos hle

theorem act_ceiling (h : p.phase = .ceiling k)
    (hle : (s.budgets.counted codeValidity s.now .ceiling).1 ≤ maxVerifyAttempts) :
    p.act s = p.runs (.spend .ceiling) (.attempt k) := by
  simp only [act, h, spend]
  exact if_pos hle

theorem act_attempt (hc : c ∈ s.codes.rows) (h : p.phase = .attempt (c.picked true))
    (hcap : c.attempts < maxAttemptsPerCode) :
    p.act s = p.runs (.attempt c.id) (.consume (c.picked true)) := by
  have hfind : s.codes.find (c.picked true).id = some c := Table.find_key hc
  simp only [act, h, hfind, Option.any_some, decide_eq_true hcap, if_true]
  rfl

theorem act_consume (hc : c ∈ s.codes.rows) (h : p.phase = .consume (c.picked true))
    (hunused : c.used = false) : p.act s = p.runs (.use c.id) (.mint (c.picked true)) := by
  have hfind : s.codes.find (c.picked true).id = some c := Table.find_key hc
  simp only [act, h, hfind, Option.any_some, hunused, Bool.not_false, if_true]
  rfl

theorem awaits_picked (h : p.phase = .attempt (c.picked true)) :
    DeskProc.awaits c.id (.verify p) = true := by
  simp only [DeskProc.awaits, h]
  exact beq_self_eq_true _

theorem moves_live (hs : s.Sound) (hG : s.Charged ps) (hp : .verify p ∈ ps)
    (hc : c ∈ s.codes.rows) (hlive : s.isLive c = true) (hpres : p.Presents c)
    (hbudget : p.InBudget s) : ∃ next ∈ p.phase.toward (c.picked true), p.MovesTo s next := by
  have hlive' := hlive
  simp only [CodeDesk.isLive, Bool.and_eq_true, decide_eq_true_eq, Bool.not_eq_true'] at hlive'
  obtain ⟨hsecret, h | h | h | h | h⟩ := hpres
  · exact ⟨_, by rw [h]; rfl, .inl (act_select hs hc hlive h hsecret)⟩
  · exact ⟨_, by rw [h]; rfl, .inr ⟨_, act_client h (hbudget.1 _ h)⟩⟩
  · exact ⟨_, by rw [h]; rfl, .inr ⟨_, act_ceiling h (hbudget.2 _ h)⟩⟩
  · have hcap := hG.below_cap hs hc hlive'.1.1 hlive'.1.2 ⟨_, hp, awaits_picked h⟩
    exact ⟨_, by rw [h]; rfl, .inr ⟨_, act_attempt hc h hcap⟩⟩
  · exact ⟨_, by rw [h]; rfl, .inr ⟨_, act_consume hc h hlive'.2⟩⟩

end VerifyReq

theorem VerifyReq.moves_mint (hs : s.Sound) (hp : p.Sane s)
    (h : p.phase = .mint k) : p.MovesTo s .accepted := by
  obtain ⟨c, hc, -, hl, horg, -⟩ := hp.pick k (by rw [h]; rfl)
  right
  cases hk : k.org with
  | none => exact ⟨.signup k.id p.signupSecret, by simp only [act, h, hk]⟩
  | some o =>
    have hmem := (hs.codes c hc).orgs hl o (horg.trans hk)
    refine ⟨.login k.id, ?_⟩
    simp only [act, h, hk, contains_eq_mem, hmem, decide_true, if_true]

/-- No code of the address has been requested yet. -/
structure CodeDesk.IsStart (s : CodeDesk) : Prop where
  codes : s.codes.rows = []
  budgets : s.budgets .ceiling = none
  passes : s.passes = []
  minted : s.minted = []

theorem CodeDesk.IsStart.sound (h : s.IsStart) : s.Sound := by
  refine ⟨?_, fun a => ?_, ?_, ?_, ?_, ?_, ?_, ?_⟩
  all_goals simp only [h.codes, h.passes, h.minted, h.budgets]
  case refine_2 => exact Nat.zero_le _
  case refine_5 => exact ⟨nofun, nofun, fun _ => Nat.zero_le _⟩
  case refine_6 => exact rfl
  case refine_7 => exact nodup_nil
  all_goals exact nofun

def codeSystem : Machine := codeDesk.pool.machine CodeDesk.IsStart

abbrev DeskHistory := List (Pool CodeDesk DeskProc × PoolLabel DeskAsk)

theorem invariants_of_run {x : Pool CodeDesk DeskProc} {h : DeskHistory}
    (hr : codeSystem.Run x h)
    (hturn : codeSystem.Steps codesInTurn.step h) :
    x.store.Sound ∧ (∀ p ∈ x.procs, p.Sane x.store) ∧ x.store.Charged x.procs := by
  have hinv := codeDesk_kept.invariant (fun _ hs => CodeDesk.IsStart.sound hs) hr hturn
  refine ⟨hinv.store, hinv.each, codeDesk_charged.invariant codeDesk_kept
    (fun _ hs => CodeDesk.IsStart.sound hs) (fun s hs c hc => ?_) hr hturn⟩
  rw [CodeDesk.IsStart.codes hs] at hc
  nomatch hc

/-! ## From the selection to the session -/

/-- A run goes on, in turn, to a state with that store and that verify. -/
def VerifyReq.Comes (h : DeskHistory) (s : CodeDesk) (p : VerifyReq) : Prop :=
  ∃ (x : Pool CodeDesk DeskProc) (h' : DeskHistory), codeSystem.Run x (h' ++ h) ∧
    codeSystem.Steps codesInTurn.step (h' ++ h) ∧ x.store = s ∧ .verify p ∈ x.procs

namespace VerifyReq.Comes

variable {h : DeskHistory}

theorem step (hp : p.Comes h s) {t : DeskTurn} (hact : p.act s = t) :
    ∃ (x : Pool CodeDesk DeskProc) (h' : DeskHistory) (os : List DeskProc),
      codeSystem.Run x (h' ++ h) ∧ codeSystem.Steps codesInTurn.step (h' ++ h) ∧
      x = codeDesk.pool.after s os (codeDesk.effect s t) := by
  obtain ⟨x, h', hr, hturn, rfl, hmem⟩ := hp
  obtain ⟨k, hk⟩ := getElem?_of_mem hmem
  have hnext : codeSystem.next x (.run k) =
      some (codeDesk.pool.after x.store (x.procs.eraseIdx k) (codeDesk.effect x.store t)) := by
    show (x.procs[k]?).bind _ = _
    rw [hk, ← hact]
    rfl
  refine ⟨_, (x, .run k) :: h', _, hr.step hnext, Machine.steps_cons.2 ⟨fun q hq => ?_, hturn⟩, rfl⟩
  obtain rfl := Option.some.inj (hk.symm.trans hq)
  rfl

theorem goTo (hp : p.Comes h s) (hact : p.act s = p.goTo next) :
    VerifyReq.Comes h s { p with phase := next } := by
  obtain ⟨x, h', os, hr, hturn, rfl⟩ := hp.step hact
  exact ⟨_, h', hr, hturn, rfl, mem_cons_self⟩

theorem runs (hp : p.Comes h s) (hact : p.act s = p.runs a next) :
    VerifyReq.Comes h (a.run s) { p with phase := next } := by
  obtain ⟨x, h', os, hr, hturn, rfl⟩ := hp.step hact
  exact ⟨_, h', hr, hturn, rfl, mem_cons_self⟩

theorem below_cap (hp : p.Comes h s) (hc : c ∈ s.codes.rows) (hl : c.isLogin = true)
    (hexp : s.now < c.expiresAt) (hphase : p.phase = .attempt (c.picked true)) :
    c.attempts < maxAttemptsPerCode := by
  obtain ⟨x, h', hr, hturn, rfl, hmem⟩ := hp
  obtain ⟨hs, -, hG⟩ := invariants_of_run hr hturn
  exact hG.below_cap hs hc hl hexp ⟨_, hmem, awaits_picked hphase⟩

theorem accepted (hp : p.Comes h s) (hphase : p.phase = .mint k) :
    ∃ s', VerifyReq.Comes h s' { p with phase := .accepted } := by
  obtain ⟨x, h', hr, hturn, rfl, hmem⟩ := hp
  obtain ⟨hs, heach, -⟩ := invariants_of_run hr hturn
  have hp : p.Comes h x.store := ⟨x, h', hr, hturn, rfl, hmem⟩
  rcases moves_mint hs (heach _ hmem) hphase with hact | ⟨a, hact⟩
  · exact ⟨_, hp.goTo hact⟩
  · exact ⟨_, hp.runs hact⟩

theorem of_select (hp : p.Comes h s) (hs : s.Sound) (hc : c ∈ s.codes.rows)
    (hlive : s.isLive c = true) (hphase : p.phase = .select) (hsecret : p.secret = c.secret)
    (hclient : (s.budgets.counted codeValidity s.now (.client p.client)).1 ≤ maxCodeAttempts)
    (hceiling : (s.budgets.counted codeValidity s.now .ceiling).1 ≤ maxVerifyAttempts) :
    ∃ s', VerifyReq.Comes h s' { p with phase := .accepted } := by
  have hlive' := hlive
  simp only [CodeDesk.isLive, Bool.and_eq_true, decide_eq_true_eq, Bool.not_eq_true'] at hlive'
  have hother : (s.budgets.count codeValidity s.now (.client p.client)) .ceiling =
      s.budgets .ceiling := Expiring.count_of_ne nofun
  have hleft : ((s.spend (.client p.client)).budgets.counted codeValidity s.now .ceiling).1 ≤
      maxVerifyAttempts := by
    unfold Expiring.counted at hceiling ⊢
    rw [← hother] at hceiling
    exact hceiling
  have hat := ((hp.goTo (act_select hs hc hlive hphase hsecret)).runs (act_client rfl hclient)).runs
    (act_ceiling rfl hleft)
  -- spending changes no code, an attempt counts on this one
  have hcap := hat.below_cap (c := c) hc hlive'.1.1 hlive'.1.2 rfl
  have hcharged : c.charge ∈ (DeskCommand.run ((s.spend (.client p.client)).spend .ceiling)
      (.attempt c.id)).codes.rows := by
    rw [(CodeDesk.marks_attempt _ c.id).rows]
    exact mem_map.2 ⟨c, hc, if_pos (beq_self_eq_true _)⟩
  exact ((hat.runs (act_attempt hc rfl hcap)).runs (act_consume hcharged rfl hlive'.2)).accepted rfl

end VerifyReq.Comes

/-- **The owner of an address is not locked out.** When requests for codes take turns, at most five
login codes are stored in any hour; a verify that presents a live code moves on towards acceptance
as long as its budgets last, and is accepted once it has consumed the code, so that from its
selection on it comes to be accepted if both budgets have room; guesses never use up a code that
has not expired; and no code mints twice. -/
theorem owner_not_locked_out {x : Pool CodeDesk DeskProc} {h : DeskHistory}
    (hr : codeSystem.Run x h)
    (hturn : codeSystem.Steps codesInTurn.step h) :
    (∀ a, x.store.codes.rows.countP (·.inHour a) ≤ Registry.maxCodes) ∧
    (∀ p, .verify p ∈ x.procs → ∀ c ∈ x.store.codes.rows, x.store.isLive c = true → p.Presents c →
      p.InBudget x.store → ∃ next ∈ p.phase.toward (c.picked true), p.MovesTo x.store next) ∧
    (∀ p, .verify p ∈ x.procs → ∀ k, p.phase = .mint k → p.MovesTo x.store .accepted) ∧
    (∀ p, .verify p ∈ x.procs → p.phase = .select → ∀ c ∈ x.store.codes.rows,
      x.store.isLive c = true → p.secret = c.secret →
      (x.store.budgets.counted codeValidity x.store.now (.client p.client)).1 ≤ maxCodeAttempts →
      (x.store.budgets.counted codeValidity x.store.now .ceiling).1 ≤ maxVerifyAttempts →
      ∃ s', VerifyReq.Comes h s' { p with phase := .accepted }) ∧
    (∀ c ∈ x.store.codes.rows, c.isLogin = true → x.store.now < c.expiresAt →
      (∃ p ∈ x.procs, p.awaits c.id = true) → c.attempts < maxAttemptsPerCode) ∧
    x.store.minted.Nodup := by
  obtain ⟨hs, heach, hG⟩ := invariants_of_run hr hturn
  refine ⟨hs.few, fun p hp c hc hlive hpres hbudget => ?_, fun p hp k hk => ?_,
    fun p hp hphase c hc hlive hsecret hclient hceiling => ?_,
    fun c hc hl hexp hawaits => hG.below_cap hs hc hl hexp hawaits, hs.minted⟩
  · exact VerifyReq.moves_live hs hG hp hc hlive hpres hbudget
  · exact VerifyReq.moves_mint hs (heach _ hp) hk
  · have hcomes : p.Comes h x.store := ⟨x, [], hr, hturn, rfl, hp⟩
    exact hcomes.of_select hs hc hlive hphase hsecret hclient hceiling

/-! ## Six requests at once -/

def noCodes : Pool CodeDesk DeskProc := ⟨{}, []⟩

theorem noCodes_isStart : noCodes.store.IsStart := ⟨rfl, rfl, rfl, rfl⟩

def deskIs (x : Pool CodeDesk DeskProc) (codes : List MailedCode) (procs : List DeskProc) : Bool :=
  decide (x.store.codes.rows = codes) && decide (x.store.now = 0) && decide (x.procs = procs)

theorem deskIs_iff {x : Pool CodeDesk DeskProc} {codes : List MailedCode} {procs : List DeskProc} :
    deskIs x codes procs = true ↔ x.store.codes.rows = codes ∧ x.store.now = 0 ∧ x.procs = procs := by
  simp only [deskIs, Bool.and_eq_true, decide_eq_true_eq, and_assoc]

def mailedCode (id : CodeId) (secret : Char) : MailedCode :=
  ⟨id, .login, [secret], none, 0, mins 10, 0, false⟩

/-- A code is requested, and a verify that presents it has spent its budgets. -/
theorem owner_not_locked_out_verify : ∃ x h, codeSystem.Run x h ∧
    codeSystem.Steps codesInTurn.step h ∧ ∃ p, .verify p ∈ x.procs ∧
      p.phase = .attempt ⟨0, true, none⟩ ∧ p.MovesTo x.store (.consume ⟨0, true, none⟩) := by
  obtain ⟨x, h, hr, hsteps, hp⟩ := codesInTurn.run_of_exec CodeDesk.IsStart
    [.ask (.start ['1'] false), .run 0, .run 0, .run 0, .run 0, .ask (.verify 7 ['1'] []), .run 0,
      .run 0, .run 0] noCodes
    (fun x => deskIs x.1 [mailedCode 0 '1']
      [.verify { client := 7, secret := ['1'], phase := .attempt ⟨0, true, none⟩ }])
    ⟨noCodes_isStart, rfl⟩ (by decide +kernel)
  obtain ⟨hcodes, hnow, hprocs⟩ := deskIs_iff.1 hp
  have hmem : DeskProc.verify { client := 7, secret := ['1'], phase := .attempt ⟨0, true, none⟩ } ∈
      x.procs := by
    rw [hprocs]
    exact mem_cons_self
  have hlive : x.store.isLive (mailedCode 0 '1') = true := by
    unfold CodeDesk.isLive
    rw [hnow]
    decide
  obtain ⟨next, hnext, hmoves⟩ := (owner_not_locked_out hr hsteps).2.1 _ hmem (mailedCode 0 '1')
    (by rw [hcodes]; exact mem_cons_self) hlive
    ⟨rfl, .inr (.inr (.inr (.inl rfl)))⟩ ⟨nofun, nofun⟩
  cases hnext
  exact ⟨x, h, hr, hsteps, _, hmem, rfl, hmoves⟩

/-- Six requests count before any of them stores its code: six codes are stored, and a verify that
presents the owner's, which is live, is about to be refused though it has spent its budgets. -/
theorem six_codes_lock_out : ∃ x h, codeSystem.Run x h ∧
    x.store.codes.rows.countP (·.inHour 0) = 6 ∧
    ∃ p, .verify p ∈ x.procs ∧ p.phase = .attempt ⟨5, false, none⟩ ∧
      p.act x.store = .run (.attempt 5) none ∧
      ∃ c ∈ x.store.codes.rows, x.store.isLive c = true ∧ c.secret = p.secret := by
  obtain ⟨x, h, hr, hp⟩ := Machine.Run.of_exec codeSystem
    ((['1', '2', '3', '4', '5', '6'].flatMap fun d => [.ask (.start [d] false), .run 0]) ++
      ([5, 4, 3, 2, 1, 0].flatMap fun k => [.run k, .run 0, .run 0]) ++
      [.ask (.verify 7 ['1'] []), .run 0, .run 0, .run 0]) noCodes
    (fun x => deskIs x.1 [mailedCode 0 '1', mailedCode 1 '2', mailedCode 2 '3', mailedCode 3 '4',
        mailedCode 4 '5', mailedCode 5 '6']
      [.verify { client := 7, secret := ['1'], phase := .attempt ⟨5, false, none⟩ }])
    ⟨noCodes_isStart, rfl⟩ (by decide +kernel)
  obtain ⟨hcodes, hnow, hprocs⟩ := deskIs_iff.1 hp
  refine ⟨x, h, hr, by rw [hcodes]; decide, _, by rw [hprocs]; exact mem_cons_self, rfl, ?_,
    mailedCode 0 '1', by rw [hcodes]; exact mem_cons_self, ?_, rfl⟩
  · have hfind : x.store.codes.find 5 = some (mailedCode 5 '6') :=
      Table.find_eq_some.2 ⟨by rw [hcodes]; simp, rfl⟩
    simp only [VerifyReq.act, hfind]
    rfl
  · unfold CodeDesk.isLive
    rw [hnow]
    decide

end Spooled.Account
