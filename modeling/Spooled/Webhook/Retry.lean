import Spooled.Lib.Run

/-!
# Who owns a webhook delivery

The row of one delivery of `outgoing_webhooks/service.rs`, its automatic chain of
attempts and any number of manual retries. A retry claims the row before it sends:
the claim bumps `attempts` and the token, and the outcome is written under that
token only. Claim, request, outcome write and release are separate steps, and a
statement may fail before or after it has taken effect. Times are in seconds.
-/

namespace Spooled.Webhook

inductive DeliveryStatus
  | failed | success
deriving DecidableEq, Repr

/-- How an attempt ended. `rejected`: the URL is refused, and nothing is sent. -/
inductive Outcome
  | delivered | failed | rejected
deriving DecidableEq, Repr

def Outcome.status : Outcome → DeliveryStatus
  | .delivered => .success
  | .failed | .rejected => .failed

/-- A row of `outgoing_webhook_deliveries`. -/
structure DeliveryRow where
  status : DeliveryStatus
  attempts : Nat
  retryClaimToken : Nat := 0
  retryClaimedAt : Option Nat := none
deriving DecidableEq, Repr

namespace DeliveryRow

/-- `claim_retry`, on the row it matches: not claimed, or longer than two minutes ago. -/
def claimRetry (r : DeliveryRow) (now observed : Nat) (maxAttempts : Option Nat) :
    Option DeliveryRow :=
  if r.status = .failed ∧ r.attempts = observed ∧ maxAttempts.all (r.attempts < ·) = true ∧
      r.retryClaimedAt.all (· + 120 < now) = true then
    some { r with
      attempts := r.attempts + 1
      retryClaimToken := r.retryClaimToken + 1
      retryClaimedAt := some now }
  else none

/-- `record_attempt` under a claim. -/
def record (r : DeliveryRow) (token attempts : Nat) (o : Outcome) : Option DeliveryRow :=
  if r.retryClaimToken = token ∧ r.status = .failed then
    some { r with status := o.status, attempts, retryClaimedAt := none }
  else none

def release (r : DeliveryRow) (token : Nat) : DeliveryRow :=
  if r.retryClaimToken = token ∧ r.status = .failed then { r with retryClaimedAt := none } else r

/-- `record_attempt` without a claim: the upsert does not look at the row that it finds. -/
def upsert (row : Option DeliveryRow) (attempts : Nat) (o : Outcome) : DeliveryRow :=
  match row with
  | none => { status := o.status, attempts }
  | some r => { r with status := o.status, attempts }

end DeliveryRow

/-- Does a statement fail, and has it taken effect then? -/
inductive Fault
  | none | before | after
deriving DecidableEq, Repr

/-- Where a sender stands. A token is that of its claim. -/
inductive Phase
  | read
  | claim (observed : Nat)
  | lookup (attempt : Nat)
  | send (attempt : Nat) (token : Option Nat)
  | write (attempt : Nat) (token : Option Nat) (o : Outcome)
  | release (attempt token : Nat) (o : Outcome)
  | ended
deriving DecidableEq, Repr

/-- One step of a sender: the row and the sender afterwards, the claim it took, and the claim that
its request was sent under. -/
structure Move where
  row : Option DeliveryRow
  phase : Phase
  claimed : Option Nat := none
  sent : Option (Option Nat) := none

def maxManualRetryAttempts : Nat := 10

/-- What `work` does with an attempt, recorded or released. -/
def afterAttempt (manual : Bool) (maxAttempts attempt : Nat) (o : Outcome) : Phase :=
  if manual = false ∧ o = .failed ∧ attempt < maxAttempts then .claim attempt else .ended

/-- A step of `retry_delivery` or of `attempt`, with `try_deliver` and `record_attempt`; `f` is the
fate of its statement and `o` the answer to its request. -/
def Phase.act (manual : Bool) (maxAttempts now : Nat) (row : Option DeliveryRow) (f : Fault)
    (o : Outcome) : Phase → Option Move
  | .read => match row with
    | some r => if f = .none ∧ r.status = .failed then some ⟨row, .claim r.attempts, none, none⟩
      else some ⟨row, .ended, none, none⟩
    | none => some ⟨row, .ended, none, none⟩
  | .claim observed =>
    match row.bind (·.claimRetry now observed (if manual then some maxManualRetryAttempts else none))
      with
    | some r => match f with
      | .none => some ⟨some r, .send r.attempts (some r.retryClaimToken), some r.retryClaimToken, none⟩
      | .before => some ⟨row, .ended, none, none⟩
      | .after => some ⟨some r, .ended, some r.retryClaimToken, none⟩
    | none =>
      -- a manual retry only reads the status for its answer then
      some ⟨row, if manual = false ∧ f = .none then .lookup (observed + 1) else .ended, none, none⟩
  | .lookup attempt =>
    -- `.ok().flatten()`: an error reads as no row
    some ⟨row, if f = .none ∧ row.isSome then .ended else .send attempt none, none, none⟩
  | .send attempt token =>
    some ⟨row, .write attempt token o, none, if o = .rejected then none else some token⟩
  | .write attempt none o =>
    some ⟨if f = .before then row else some (.upsert row attempt o),
      afterAttempt manual maxAttempts attempt o, none, none⟩
  | .write attempt (some token) o =>
    let recorded := row.bind (·.record token attempt o)
    match f with
    | .none => some ⟨if recorded.isSome then recorded else row,
        if recorded.isSome then afterAttempt manual maxAttempts attempt o else .ended, none, none⟩
    | .before => some ⟨row, .release attempt token o, none, none⟩
    | .after => some ⟨if recorded.isSome then recorded else row, .release attempt token o, none, none⟩
  | .release attempt token o =>
    some ⟨if f = .before then row else row.map (·.release token),
      afterAttempt manual maxAttempts attempt o, none, none⟩
  | .ended => none

structure DeliverySys where
  now : Nat := 0
  row : Option DeliveryRow := none
  /-- The automatic chain, which is number 0, and the manual retries. -/
  senders : List Phase := [.send 1 none]
  /-- The claims taken so far, newest first: who took it, and the token. -/
  claims : List (Nat × Nat) := []
  /-- The requests sent so far, newest first. -/
  requests : List (Nat × Option Nat) := []

inductive DeliveryLabel
  | tick (d : Nat)
  | retryDelivery
  | run (k : Nat) (f : Fault) (o : Outcome)
  /-- The webhook is disabled, or the process ends. -/
  | stop (k : Nat)
deriving DecidableEq

namespace DeliverySys

def apply (s : DeliverySys) (k : Nat) (m : Move) : DeliverySys :=
  { s with
    row := m.row
    senders := s.senders.set k m.phase
    claims := m.claimed.toList.map (k, ·) ++ s.claims
    requests := m.sent.toList.map (k, ·) ++ s.requests }

def next (maxAttempts : Nat) (s : DeliverySys) : DeliveryLabel → Option DeliverySys
  | .tick d => some { s with now := s.now + d }
  | .retryDelivery => some { s with senders := s.senders ++ [.read] }
  | .run k f o => s.senders[k]?.bind fun p =>
    (p.act (k != 0) maxAttempts s.now s.row f o).map (s.apply k)
  | .stop k => s.senders[k]?.map fun _ => s.apply k ⟨s.row, .ended, none, none⟩

def looksUp (s : DeliverySys) : DeliveryLabel → Bool
  | .run k f _ => match s.senders[k]? with
    | some (.lookup _) => s.row.isNone || f == .none
    | _ => true
  | _ => true

end DeliverySys

def deliverySystem (maxAttempts : Nat) : Machine where
  State := DeliverySys
  Label := DeliveryLabel
  Init s := s = {}
  next := DeliverySys.next maxAttempts

/-! ## One step -/

/-- The row later on: only a claim changes token and attempts, and a success is final. -/
structure DeliveryRow.Later (r r' : DeliveryRow) : Prop where
  success : r.status = .success → r' = r
  attempts : r.attempts ≤ r'.attempts
  token : r'.retryClaimToken = r.retryClaimToken ∧ r'.attempts = r.attempts ∨
    r.retryClaimToken < r'.retryClaimToken

variable {r r' : DeliveryRow} {s s' : DeliverySys} {k : Nat} {p : Phase} {f : Fault}
  {o : Outcome} {m : Move} {n maxAttempts : Nat} {t : Option Nat} {a : DeliveryLabel}

theorem DeliveryRow.Later.refl (r : DeliveryRow) : r.Later r :=
  ⟨fun _ => rfl, Nat.le_refl _, .inl ⟨rfl, rfl⟩⟩

theorem DeliveryRow.Later.trans {r'' : DeliveryRow} (h : r.Later r') (h' : r'.Later r'') :
    r.Later r'' := by
  refine ⟨fun hs => ?_, Nat.le_trans h.attempts h'.attempts, ?_⟩
  · have heq := h.success hs
    subst heq
    exact h'.success hs
  · have h₁ := h.token
    have h₂ := h'.token
    omega

/-- The attempt of a sender that is sending or writing, and its claim. -/
def Phase.holds : Phase → Option (Nat × Option Nat)
  | .send n t | .write n t _ => some (n, t)
  | .release n t _ => some (n, some t)
  | _ => none

theorem holds_afterAttempt (manual : Bool) : (afterAttempt manual maxAttempts n o).holds = none := by
  unfold afterAttempt
  split <;> rfl

/-- What a sender has to do with the row: without a claim it is the chain, and there is no row yet;
under the last claim it makes the last attempt. -/
structure Phase.Owns (row : Option DeliveryRow) (claims : List (Nat × Nat)) (k : Nat) (p : Phase) :
    Prop where
  lookup : ∀ n, p = .lookup n → k = 0
  bare : ∀ n, p.holds = some (n, none) → k = 0 ∧ row = none
  claimed : ∀ n t, p.holds = some (n, some t) → (k, t) ∈ claims ∧ ∃ r, row = some r ∧
    t ≤ r.retryClaimToken ∧ (t = r.retryClaimToken → n = r.attempts)

variable {row row' : Option DeliveryRow} {claims claims' : List (Nat × Nat)} {q : Phase}

namespace Phase.Owns

theorem of_holds (hp : p.holds = none) (hl : ∀ n, p = .lookup n → k = 0) :
    p.Owns row claims k where
  lookup := hl
  bare n hn := by simp [hp] at hn
  claimed n t hn := by simp [hp] at hn

theorem of_eq (h : p.Owns row claims k) (hq : q.holds = p.holds) (hl : ∀ n, q ≠ .lookup n) :
    q.Owns row claims k :=
  ⟨fun n hn => absurd hn (hl n), hq ▸ h.bare, hq ▸ h.claimed⟩

theorem later (h : p.Owns (some r) claims k) (hl : r.Later r') (hc : ∀ x ∈ claims, x ∈ claims') :
    p.Owns (some r') claims' k where
  lookup := h.lookup
  bare n hn := nomatch (h.bare n hn).2
  claimed n t hn := by
    obtain ⟨hmem, r₀, hr₀, hle, heq⟩ := h.claimed n t hn
    cases hr₀
    have htok := hl.token
    exact ⟨hc _ hmem, r', rfl, by omega, fun _ => by have := heq; omega⟩

theorem manual (hk : k ≠ 0) (h : p.Owns none claims k) : p.Owns row claims' k where
  lookup := h.lookup
  bare n hn := absurd (h.bare n hn).1 hk
  claimed n t hn := by
    obtain ⟨-, r, hr, -⟩ := h.claimed n t hn
    cases hr

end Phase.Owns

/-- What a step of a sender at `p` may do to the row and the claims. -/
structure Move.Fair (row : Option DeliveryRow) (claims : List (Nat × Nat)) (k : Nat) (p : Phase)
    (m : Move) : Prop where
  change : (row = none ∧ m.claimed = none ∧ (m.row = none ∨ k = 0)) ∨
    ∃ r r', row = some r ∧ m.row = some r' ∧ r.Later r' ∧
      ∀ t, m.claimed = some t → r.retryClaimToken < t ∧ t = r'.retryClaimToken
  phase : m.phase.Owns m.row (m.claimed.toList.map (k, ·) ++ claims) k
  sent : ∀ t, m.sent = some t → ∃ n, p = .send n t
  wrote : ∀ n t o, p = .write n t o → m.row ≠ row → t = row.map (·.retryClaimToken)

namespace Move.Fair

theorem still (h : q.Owns row claims k) : Fair row claims k p ⟨row, q, none, none⟩ where
  change := by
    cases row with
    | none => exact .inl ⟨rfl, rfl, .inl rfl⟩
    | some r => exact .inr ⟨r, r, rfl, rfl, .refl r, nofun⟩
  phase := h
  sent := nofun
  wrote n t o hp hne := absurd rfl hne

theorem rewrite (hl : r.Later r') (h : q.Owns (some r) claims k)
    (hw : ∀ n t o, p = .write n t o → t = some r.retryClaimToken) :
    Fair (some r) claims k p ⟨some r', q, none, none⟩ where
  change := .inr ⟨r, r', rfl, rfl, hl, nofun⟩
  phase := h.later hl fun _ hx => hx
  sent := nofun
  wrote n t o hp _ := hw n t o hp

end Move.Fair

theorem claimRetry_later {now observed : Nat} {cap : Option Nat}
    (h : r.claimRetry now observed cap = some r') :
    r.Later r' ∧ r.retryClaimToken < r'.retryClaimToken := by
  unfold DeliveryRow.claimRetry at h
  split at h
  · rename_i hc
    cases h
    refine ⟨⟨fun hs => ?_, Nat.le_succ _, .inr (Nat.lt_succ_self _)⟩, Nat.lt_succ_self _⟩
    rw [hc.1] at hs
    cases hs
  · cases h

theorem record_later {token : Nat} (h : r.record token n o = some r')
    (hn : token = r.retryClaimToken → n = r.attempts) :
    r.Later r' ∧ token = r.retryClaimToken := by
  unfold DeliveryRow.record at h
  split at h
  · rename_i hc
    cases h
    have hatt := hn hc.1.symm
    refine ⟨⟨fun hs => ?_, by simp [hatt], .inl ⟨rfl, hatt⟩⟩, hc.1.symm⟩
    rw [hc.2] at hs
    cases hs
  · cases h

theorem release_later (r : DeliveryRow) (token : Nat) : r.Later (r.release token) := by
  unfold DeliveryRow.release
  split
  · rename_i hc
    refine ⟨fun hs => ?_, Nat.le_refl _, .inl ⟨rfl, rfl⟩⟩
    rw [hc.2] at hs
    cases hs
  · exact .refl r

theorem owns_afterAttempt (manual : Bool) :
    (afterAttempt manual maxAttempts n o).Owns row claims k :=
  .of_holds (holds_afterAttempt manual) fun n hn => by
    unfold afterAttempt at hn
    split at hn <;> cases hn

theorem owns_ended : Phase.ended.Owns row claims k :=
  .of_holds rfl nofun

/-- **One step of one sender.** The look at the row is the one place where it needs luck. -/
theorem Phase.act_fair {now : Nat}
    (h : p.act (k != 0) maxAttempts now row f o = some m) (hp : p.Owns row claims k)
    (hlook : ∀ n, p = .lookup n → row = none ∨ f = .none) : m.Fair row claims k p := by
  cases p with
  | read =>
    simp only [Phase.act] at h
    split at h
    · split at h <;> cases h
      · exact .still (.of_holds rfl nofun)
      · exact .still owns_ended
    · cases h
      exact .still owns_ended
  | claim observed =>
    simp only [Phase.act] at h
    split at h
    · rename_i r' hc
      obtain ⟨r, rfl, hc⟩ := Option.bind_eq_some_iff.1 hc
      obtain ⟨hl, hlt⟩ := claimRetry_later hc
      have hrow : ∀ t, some r'.retryClaimToken = some t →
          r.retryClaimToken < t ∧ t = r'.retryClaimToken := by
        rintro t ⟨⟩
        exact ⟨hlt, rfl⟩
      cases f <;> cases h
      · refine ⟨.inr ⟨r, r', rfl, rfl, hl, hrow⟩, ⟨nofun, nofun, ?_⟩, nofun, nofun⟩
        rintro n t ⟨⟩
        exact ⟨List.mem_cons_self, r', rfl, Nat.le_refl _, fun _ => rfl⟩
      · exact .still owns_ended
      · exact ⟨.inr ⟨r, r', rfl, rfl, hl, hrow⟩, owns_ended, nofun, nofun⟩
    · cases h
      refine .still (.of_holds (by split <;> rfl) fun n hn => ?_)
      split at hn
      · rename_i hm
        simpa using hm.1
      · cases hn
  | lookup attempt =>
    cases h
    refine .still ?_
    split
    · exact owns_ended
    · rename_i hn
      refine ⟨nofun, fun n _ => ⟨hp.lookup _ rfl, ?_⟩, nofun⟩
      rcases hlook _ rfl with hr | hf
      · exact hr
      · cases row with
        | none => rfl
        | some r => exact absurd ⟨hf, rfl⟩ hn
  | send attempt token =>
    cases h
    have hq : (Phase.write attempt token o).Owns row claims k := hp.of_eq rfl nofun
    refine ⟨(Move.Fair.still (p := .read) hq).change, hq, fun t ht => ?_, nofun⟩
    split at ht
    · cases ht
    · cases ht
      exact ⟨attempt, rfl⟩
  | write attempt token o =>
    cases token with
    | none =>
      cases h
      obtain ⟨hk, hrow⟩ := hp.bare _ rfl
      refine ⟨.inl ⟨hrow, rfl, .inr hk⟩, owns_afterAttempt _, nofun, ?_⟩
      rintro n t o ⟨⟩ -
      rw [hrow]
      rfl
    | some token =>
      obtain ⟨-, r, rfl, -, hatt⟩ := hp.claimed _ _ rfl
      have hrel : (Phase.release attempt token o).Owns (some r) claims k := hp.of_eq rfl nofun
      simp only [Phase.act, Option.bind_some] at h
      cases hrec : r.record token attempt o with
      | none =>
        simp only [hrec] at h
        cases f <;> cases h
        · exact .still owns_ended
        · exact .still hrel
        · exact .still hrel
      | some r' =>
        obtain ⟨hl, htok⟩ := record_later hrec hatt
        have hw : ∀ n t o', Phase.write attempt (some token) o = .write n t o' →
            t = some r.retryClaimToken := by
          rintro n t o' ⟨⟩
          rw [htok]
        simp only [hrec] at h
        cases f <;> cases h
        · exact .rewrite hl (owns_afterAttempt _) hw
        · exact .still hrel
        · exact .rewrite hl hrel hw
  | release attempt token o =>
    obtain ⟨-, r, rfl, -⟩ := hp.claimed _ _ rfl
    cases h
    split
    · exact .still (owns_afterAttempt _)
    · exact .rewrite (release_later r token) (owns_afterAttempt _) nofun
  | ended => cases h

/-! ## All senders together -/

structure DeliverySys.Owned (s : DeliverySys) : Prop where
  fresh : s.row = none → s.claims = []
  tokens : ∀ r, s.row = some r → ∀ x ∈ s.claims, x.2 ≤ r.retryClaimToken
  sorted : s.claims.Pairwise fun x y => y.2 < x.2
  senders : ∀ k (p : Phase), s.senders[k]? = some p → p.Owns s.row s.claims k

/-- The row was there in `s`, and has changed since as it may. -/
def DeliverySys.Since (s s' : DeliverySys) : Prop :=
  ∀ r, s.row = some r → ∃ r', s'.row = some r' ∧ r.Later r'

namespace DeliverySys

theorem sender_apply {i : Nat} (h : (s.apply k m).senders[i]? = some q) :
    i = k ∧ q = m.phase ∨ i ≠ k ∧ s.senders[i]? = some q := by
  have h : (s.senders.set k m.phase)[i]? = some q := h
  rw [List.getElem?_set] at h
  grind

theorem Owned.apply (h : s.Owned) (hm : m.Fair s.row s.claims k p) :
    (s.apply k m).Owned ∧ s.Since (s.apply k m) := by
  rcases hm.change with ⟨hrow, hcl, hnew⟩ | ⟨r, r', hr, hr', hl, htok⟩
  · have hnil : (s.apply k m).claims = [] := by simp [DeliverySys.apply, hcl, h.fresh hrow]
    refine ⟨⟨fun _ => hnil, fun _ _ => by simp [hnil], by simp [hnil], fun i q hq => ?_⟩,
      fun r hr => nomatch hrow.symm.trans hr⟩
    rcases sender_apply hq with ⟨rfl, rfl⟩ | ⟨hne, hq⟩
    · exact hm.phase
    · have hi := h.senders i q hq
      rw [hrow] at hi
      rcases hnew with hnew | rfl
      · have hsame := h.fresh hrow
        simpa [DeliverySys.apply, hnew, hcl, hsame] using hsame ▸ hi
      · exact hi.manual hne
  · have hold : ∀ x ∈ s.claims, x.2 ≤ r.retryClaimToken := h.tokens r hr
    have hle : r.retryClaimToken ≤ r'.retryClaimToken := by
      have := hl.token
      omega
    refine ⟨⟨fun hn => absurd (hr'.symm.trans hn) nofun, fun r₀ hr₀ x hx => ?_, ?_,
      fun i q hq => ?_⟩, fun r₀ hr₀ => ⟨r', hr', by cases hr.symm.trans hr₀; exact hl⟩⟩
    · cases hr'.symm.trans hr₀
      rcases List.mem_append.1 hx with hx | hx
      · obtain ⟨t, ht, rfl⟩ := List.mem_map.1 hx
        exact Nat.le_of_eq (htok t (Option.mem_toList.1 ht)).2
      · exact Nat.le_trans (hold x hx) hle
    · cases hc : m.claimed with
      | none => simpa [DeliverySys.apply, hc] using h.sorted
      | some t =>
        have ht := (htok t hc).1
        simp only [DeliverySys.apply, hc]
        exact List.pairwise_cons.2 ⟨fun x hx => Nat.lt_of_le_of_lt (hold x hx) ht, h.sorted⟩
    · rcases sender_apply hq with ⟨rfl, rfl⟩ | ⟨hne, hq⟩
      · exact hm.phase
      · have hi := h.senders i q hq
        rw [hr] at hi
        change q.Owns m.row _ i
        rw [hr']
        exact hi.later hl fun x hx => List.mem_append_right _ hx

theorem run_fair (h : s.Owned) (hl : s.looksUp (.run k f o) = true)
    (hn : s.next maxAttempts (.run k f o) = some s') :
    ∃ p m, s.senders[k]? = some p ∧ s' = s.apply k m ∧ m.Fair s.row s.claims k p := by
  obtain ⟨p, hp, hn⟩ := Option.bind_eq_some_iff.1 hn
  obtain ⟨m, hm, rfl⟩ := Option.map_eq_some_iff.1 hn
  refine ⟨p, m, hp, rfl, Phase.act_fair hm (h.senders k p hp) fun n hpn => ?_⟩
  subst hpn
  simpa [looksUp, hp] using hl

theorem Owned.next (h : s.Owned) (hl : s.looksUp a = true) (hn : s.next maxAttempts a = some s') :
    s'.Owned ∧ s.Since s' := by
  cases a with
  | tick d =>
    cases hn
    exact ⟨⟨h.fresh, h.tokens, h.sorted, h.senders⟩, fun r hr => ⟨r, hr, .refl r⟩⟩
  | retryDelivery =>
    cases hn
    refine ⟨⟨h.fresh, h.tokens, h.sorted, fun k p hp => ?_⟩, fun r hr => ⟨r, hr, .refl r⟩⟩
    have hk : (s.senders ++ [Phase.read])[k]? = some p := hp
    rw [List.getElem?_append] at hk
    split at hk
    · exact h.senders k p hk
    · cases List.mem_singleton.1 (List.mem_of_getElem? hk)
      exact .of_holds rfl nofun
  | run k f o =>
    obtain ⟨p, m, -, rfl, hm⟩ := run_fair h hl hn
    exact h.apply hm
  | stop k =>
    obtain ⟨p, -, rfl⟩ := Option.map_eq_some_iff.1 hn
    exact h.apply (Move.Fair.still (p := p) owns_ended)

theorem Owned.head (h : s.Owned) {token : Nat} (hr : s.row = some r) (hc : (k, token) ∈ s.claims)
    (ht : token = r.retryClaimToken) : s.claims.head? = some (k, token) := by
  have hle := h.tokens r hr
  have hs := h.sorted
  cases hcl : s.claims with
  | nil => simp [hcl] at hc
  | cons x xs =>
    rw [hcl] at hc hle hs
    rcases List.mem_cons.1 hc with rfl | hc
    · rfl
    · have h₁ : token < x.2 := (List.pairwise_cons.1 hs).1 _ hc
      have h₂ := hle x List.mem_cons_self
      omega

end DeliverySys

open Machine in
/-- **A delivery has one owner.** As long as the chain's look at the row does not fail while there
is one: a delivered row stays as it is, `attempts` never goes down, an outcome changes the row only
under the last claim of it, which the writer took, and a request is sent under a claim its sender
took; only the chain writes or sends without a claim, before there is a row. -/
theorem delivery_has_one_owner {h : List (DeliverySys × DeliveryLabel)}
    (hr : (deliverySystem maxAttempts).Run s h)
    (hl : (deliverySystem maxAttempts).Steps (fun s a => DeliverySys.looksUp s a = true) h) :
    ∀ x ∈ h, (∀ r, x.1.row = some r → ∃ r', s.row = some r' ∧ r.attempts ≤ r'.attempts ∧
        (r.status = .success → r' = r)) ∧
      ∀ s', x.1.next maxAttempts x.2 = some s' →
        (∀ k f o n token outcome, x.2 = .run k f o →
          x.1.senders[k]? = some (.write n token outcome) → s'.row ≠ x.1.row →
          x.1.claims.head? = token.map (k, ·) ∧ (token = none → k = 0 ∧ x.1.row = none)) ∧
        ∀ k token, s'.requests = (k, token) :: x.1.requests →
          match token with
          | some t => (k, t) ∈ x.1.claims
          | none => k = 0 ∧ x.1.row = none := by
  have hinv : s.Owned ∧ ∀ x ∈ h, DeliverySys.Owned x.1 ∧ DeliverySys.Since x.1 s := by
    refine Run.invariant (I := fun (s : DeliverySys) h =>
      s.Owned ∧ ∀ x ∈ h, DeliverySys.Owned x.1 ∧ DeliverySys.Since x.1 s) ?_ ?_ hr hl
    · rintro _ rfl
      refine ⟨⟨fun _ => rfl, nofun, .nil, fun k p hp => ?_⟩, nofun⟩
      obtain ⟨rfl, rfl⟩ : k = 0 ∧ Phase.send 1 none = p := by simpa [List.getElem?_singleton] using hp
      exact ⟨nofun, fun _ _ => ⟨rfl, rfl⟩, nofun⟩
    · rintro s h a s' - - ⟨hs, hh⟩ ha hn
      obtain ⟨hs', hlast⟩ := hs.next ha hn
      refine ⟨hs', List.forall_mem_cons.2 ⟨⟨hs, hlast⟩, fun x hx => ⟨(hh x hx).1, fun r hr => ?_⟩⟩⟩
      obtain ⟨r', hr', hle⟩ := (hh x hx).2 r hr
      obtain ⟨r'', hr'', hle'⟩ := hlast r' hr'
      exact ⟨r'', hr'', hle.trans hle'⟩
  rintro ⟨s₀, a⟩ hx
  obtain ⟨ho, hsince⟩ := hinv.2 _ hx
  have hlook : s₀.looksUp a = true := hl _ hx
  refine ⟨fun r hr => ?_, fun s' hn => ⟨?_, fun k token hreq => ?_⟩⟩
  · obtain ⟨r', hr', hle⟩ := hsince r hr
    exact ⟨r', hr', hle.attempts, hle.success⟩
  · rintro k f o n token outcome rfl hp hne
    obtain ⟨p, m, hp', rfl, hm⟩ := DeliverySys.run_fair ho hlook hn
    cases hp.symm.trans hp'
    have htok := hm.wrote n token outcome rfl hne
    refine ⟨?_, fun hnone => (ho.senders _ _ hp).bare n (by rw [hnone]; rfl)⟩
    cases hrow : s₀.row with
    | none =>
      rw [htok, hrow, ho.fresh hrow]
      rfl
    | some r =>
      rw [hrow] at htok
      cases htok
      exact ho.head hrow ((ho.senders _ _ hp).claimed n _ rfl).1 rfl
  · have hne : ∀ y, s₀.requests ≠ y :: s₀.requests := fun y hy => by
      simpa using congrArg List.length hy
    cases a with
    | tick | retryDelivery =>
      cases hn
      exact absurd hreq (hne _)
    | stop =>
      obtain ⟨p, -, rfl⟩ := Option.map_eq_some_iff.1 hn
      exact absurd hreq (hne _)
    | run =>
      obtain ⟨p, m, hp, rfl, hm⟩ := DeliverySys.run_fair ho hlook hn
      simp only [DeliverySys.apply] at hreq
      cases hs : m.sent with
      | none => exact absurd (hs ▸ hreq) (hne _)
      | some t =>
        rw [hs] at hreq
        cases hreq
        obtain ⟨n, rfl⟩ := hm.sent _ hs
        cases token with
        | none => exact (ho.senders _ _ hp).bare n rfl
        | some t => exact ((ho.senders _ _ hp).claimed n t rfl).1

/-- `n` steps of a sender without a fault. -/
def steps (k n : Nat) (o : Outcome) : List DeliveryLabel := .replicate n (.run k .none o)

/-- The first attempt fails and is recorded, a manual retry delivers, and the chain ends there. -/
theorem delivery_has_one_owner_run : ∃ s h, (deliverySystem 3).Run s h ∧
    (deliverySystem 3).Steps (fun s a => DeliverySys.looksUp s a = true) h ∧
    s.row = some ⟨.success, 2, 1, none⟩ ∧ s.claims = [(1, 1)] ∧
    ∀ x ∈ h, ∀ r, x.1.row = some r → ∃ r', s.row = some r' ∧ r.attempts ≤ r'.attempts ∧
      (r.status = .success → r' = r) := by
  obtain ⟨s, h, hr, hp⟩ := Machine.Run.of_exec (deliverySystem 3)
    (steps 0 2 .failed ++ .retryDelivery :: steps 1 4 .delivered ++ steps 0 2 .failed) {}
    (fun x => x.2.all (fun y => DeliverySys.looksUp y.1 y.2) &&
      (x.1.row == some ⟨.success, 2, 1, none⟩ && x.1.claims == [(1, 1)])) rfl (by decide +kernel)
  simp only [Bool.and_eq_true, List.all_eq_true, beq_iff_eq] at hp
  exact ⟨s, h, hr, hp.1, hp.2.1, hp.2.2, fun x hx => (delivery_has_one_owner hr hp.1 x hx).1⟩

/-- Where the first insert fails, the second request is sent without a claim as well. Where the
look at the row fails, such a request overwrites a delivered row and takes `attempts` back. -/
theorem delivery_owners_unclaimed :
    (∃ s h, (deliverySystem 3).Run s h ∧ s.requests = [(0, none), (0, none)] ∧ s.claims = []) ∧
    ∃ s h, (deliverySystem 3).Run s h ∧ s.row = some ⟨.failed, 2, 2, none⟩ ∧
      ∃ x ∈ h, DeliverySys.row x.1 = some ⟨.success, 3, 2, none⟩ := by
  constructor
  · obtain ⟨s, h, hr, hp⟩ := Machine.Run.of_exec (deliverySystem 3)
      (.run 0 .none .failed :: .run 0 .before .failed :: steps 0 3 .failed) {}
      (fun x => x.1.requests == [(0, none), (0, none)] && x.1.claims == []) rfl (by decide +kernel)
    simp only [Bool.and_eq_true, beq_iff_eq] at hp
    exact ⟨s, h, hr, hp⟩
  · obtain ⟨s, h, hr, hp⟩ := Machine.Run.of_exec (deliverySystem 3)
      (steps 0 2 .failed ++ .retryDelivery :: steps 1 4 .failed ++
        .retryDelivery :: steps 2 4 .delivered ++
        .run 0 .none .failed :: .run 0 .before .failed :: steps 0 2 .failed) {}
      (fun x => x.1.row == some ⟨.failed, 2, 2, none⟩ &&
        x.2.any (fun y => DeliverySys.row y.1 == some ⟨.success, 3, 2, none⟩)) rfl
      (by decide +kernel)
    simp only [Bool.and_eq_true, List.any_eq_true, beq_iff_eq] at hp
    exact ⟨s, h, hr, hp⟩

end Spooled.Webhook
