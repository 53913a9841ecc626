import Spooled.Account.Step

/-!
# A replaced address cannot log in

An email login checks the address first and gets the organization's system key
later; a replacement of the address deactivates that key in its transaction. The
invariant is that a token is good only for the confirmed address: either its key is
inactive or the address is still the organization's. It holds when no login stands
between its check and its key while the keys are deactivated, and when a transaction
finds the address that it has read before.
-/

namespace Spooled.Account

open List

open Spooled.Auth (ApiKey KeyId)

variable {s : Registry} {os : List AccountProc} {p p' : AccountProc} {q : Option AccountProc}
  {c : AccountCommand} {e : Email} {i : OrgId} {k : KeyId}

/-! ## Keys and addresses -/

def Organization.address (o : Organization) : Option Email :=
  if o.verifiedAt.isSome then o.billingEmail else none

namespace Registry

def HasAddress (s : Registry) (i : OrgId) (e : Email) : Prop :=
  ∀ o, s.orgs.find i = some o → o.address = some e

/-- The key is one of the organization's own for email logins, and good for the address only. -/
structure Backs (s : Registry) (k : KeyId) (i : OrgId) (e : Email) : Prop where
  key_lt : k < s.nextId
  org_lt : i < s.nextId
  key : ∀ key, s.keys.find k = some key → key.isSystem = true ∧ key.organizationId = i ∧
    (key.isActive = true → s.HasAddress i e)

/-- All the active system keys of the organization are among these. -/
def Covers (s : Registry) (i : OrgId) (revoked : List KeyId) : Prop :=
  ∀ key ∈ s.keys.rows, key.organizationId = i → key.isSystem = true → key.isActive = true →
    key.id ∈ revoked

/-- The write leaves a confirmed address alone. -/
def Keeping (s : Registry) (i : OrgId) (w : OrgWrite) : Prop :=
  ∀ o, s.orgs.find i = some o → ∀ e, o.address = some e → (w.apply o).address = some e

theorem covers_systemKeysOf (s : Registry) (i : OrgId) : s.Covers i (s.systemKeysOf i) := by
  intro key hkey horg hsys hact
  refine mem_map.2 ⟨key, mem_filter.2 ⟨hkey, ?_⟩, rfl⟩
  rw [horg, hsys, hact, beq_self_eq_true]
  rfl

end Registry

def AccountCommand.revokes : AccountCommand → List KeyId
  | writeOrg _ _ _ revoked => revoked
  | _ => []

theorem AccountCommand.key_of_run (hk : k < s.nextId) {key' : ApiKey}
    (h : (c.run s).keys.find k = some key') : ∃ key, s.keys.find k = some key ∧
      key'.isSystem = key.isSystem ∧ key'.organizationId = key.organizationId ∧
      (key'.isActive = true → key.isActive = true ∧ k ∉ c.revokes) := by
  cases c with
  | insertOrg =>
    have h : (s.keys.insert _).find k = some key' := h
    rw [Table.find_insert, if_neg fun hn => Nat.ne_of_lt (Nat.lt_succ_of_lt hk) hn.1] at h
    exact ⟨key', h, rfl, rfl, fun ha => ⟨ha, not_mem_nil⟩⟩
  | insertKey =>
    have h : (s.keys.insert _).find k = some key' := h
    rw [Table.find_insert, if_neg fun hn => Nat.ne_of_lt hk hn.1] at h
    exact ⟨key', h, rfl, rfl, fun ha => ⟨ha, not_mem_nil⟩⟩
  | writeOrg j w burned revoked =>
    have h : (s.deactivate revoked).find k = some key' := h
    unfold Registry.deactivate at h
    rw [Table.find_update] at h
    obtain ⟨key, hkey, rfl⟩ := Option.map_eq_some_iff.1 h
    refine ⟨key, hkey, ?_, ?_, fun ha => ?_⟩
    · split <;> rfl
    · split <;> rfl
    · split at ha
      · nomatch ha
      · next hno =>
        refine ⟨ha, fun hmem => hno (decide_eq_true ?_)⟩
        rw [Table.key_of_find hkey]
        exact hmem
  | deleteOrg j =>
    have h : (s.keys.delete _).find k = some key' := h
    rw [Table.find_delete] at h
    exact ⟨key', (Option.filter_eq_some_iff.1 h).1, rfl, rfl, fun ha => ⟨ha, not_mem_nil⟩⟩
  | insertCode | chargeCode | useCode | issue | advance =>
    exact ⟨key', h, rfl, rfl, fun ha => ⟨ha, not_mem_nil⟩⟩

/-- A write keeps the address, or no key of the organization survives it. -/
def AccountCommand.Retires (s : Registry) : AccountCommand → Prop
  | writeOrg i w _ revoked => s.Keeping i w ∨ s.Covers i revoked
  | _ => True

theorem Registry.HasAddress.run (h : s.HasAddress i e) (hi : i < s.nextId)
    (hw : ∀ w burned revoked, c = .writeOrg i w burned revoked → s.Keeping i w) :
    (c.run s).HasAddress i e := by
  intro o ho
  by_cases ht : c.target = some i
  · cases c with
    | writeOrg j w burned revoked =>
      cases ht
      have ho : (s.write i w).find i = some o := ho
      rw [Registry.find_write, if_pos rfl] at ho
      obtain ⟨o₀, ho₀, rfl⟩ := Option.map_eq_some_iff.1 ho
      exact hw w burned revoked rfl o₀ ho₀ e (h o₀ ho₀)
    | deleteOrg j =>
      cases ht
      have ho : (s.orgs.delete _).find i = some o := ho
      rw [Table.find_delete] at ho
      obtain ⟨ho₀, hno⟩ := Option.filter_eq_some_iff.1 ho
      simp [Table.key_of_find ho₀] at hno
    | _ => nomatch ht
  · rw [AccountCommand.find_run hi ht] at ho
    exact h o ho

theorem Registry.Backs.run (h : s.Backs k i e) (hc : c.Retires s) : (c.run s).Backs k i e := by
  have hle := c.nextId_le s
  refine ⟨Nat.lt_of_lt_of_le h.key_lt hle, Nat.lt_of_lt_of_le h.org_lt hle, fun key' hkey' => ?_⟩
  obtain ⟨key, hkey, hsys', horg', hact'⟩ := AccountCommand.key_of_run h.key_lt hkey'
  obtain ⟨hsys, horg, haddr⟩ := h.key key hkey
  refine ⟨hsys'.trans hsys, horg'.trans horg, fun ha => ?_⟩
  obtain ⟨hact, hno⟩ := hact' ha
  refine (haddr hact).run h.org_lt fun w burned revoked hw => ?_
  subst hw
  rcases hc with hkeep | hcovers
  · exact hkeep
  · have hmem := hcovers key (Table.mem_of_find hkey) horg hsys hact
    rw [Table.key_of_find hkey] at hmem
    exact absurd hmem hno

/-! ## Requests under way -/

def Organization.sameAddress (o existing : Organization) : Bool :=
  o.billingEmail == existing.billingEmail && o.verifiedAt.isSome == existing.verifiedAt.isSome

/-- What `verify_billing_email` has read, once it has updated the row: the new address and the
previous one. -/
def ConfirmPhase.opened : ConfirmPhase → Option (Email × Option Email)
  | revokeCodes e old _ | revokeKeys e old .. | commit e old .. => some (e, old)
  | _ => none

theorem ConfirmPhase.isOpen_of_opened {phase : ConfirmPhase} {y : Email × Option Email}
    (h : y ∈ phase.opened) : phase.isOpen = true := by
  cases phase with
  | revokeCodes | revokeKeys | commit => rfl
  | _ => nomatch h

def PatchPhase.opened : PatchPhase → Option Organization
  | revokeCodes o .. | revokeKeys o .. | commit o .. => some o
  | _ => none

theorem PatchPhase.isOpen_of_opened {phase : PatchPhase} {o : Organization}
    (h : o ∈ phase.opened) : phase.isOpen = true := by
  cases phase with
  | revokeCodes | revokeKeys | commit => rfl
  | _ => nomatch h

namespace AccountProc

/-- The row that an open transaction has updated is as it was read. -/
def HoldsRow (s : Registry) : AccountProc → Prop
  | confirm p => ∀ y ∈ p.phase.opened, ∃ o, s.orgs.find p.org = some o ∧ o.billingEmail = y.2
  | patch p => ∀ x ∈ p.phase.opened, ∃ o, s.orgs.find p.org = some o ∧ o.sameAddress x = true
  | _ => True

/-- The keys that a replacement has deactivated and not committed yet. -/
def revoked : AccountProc → Option (OrgId × List KeyId)
  | confirm p =>
    match p.phase with
    | .commit e (some old) _ _ revoked => if old = e then none else some (p.org, revoked)
    | _ => none
  | patch p =>
    match p.phase with
    | .commit o _ _ _ revoked => if p.replaces o then some (p.org, revoked) else none
    | _ => none
  | _ => none

/-- The organization whose keys it deactivates in the next step. -/
def revokesNext : AccountProc → Option OrgId
  | confirm p =>
    match p.phase with
    | .revokeKeys .. => some p.org
    | _ => none
  | patch p =>
    match p.phase with
    | .revokeKeys .. => some p.org
    | _ => none
  | _ => none

/-- A login that has checked its address and has no key yet. -/
def window : AccountProc → Option (OrgId × Email)
  | login p =>
    match p.phase with
    | .keyLookup i | .keyInsert i => some (i, p.email)
    | _ => none
  | _ => none

def opensNext : AccountProc → Option OrgId
  | login p =>
    match p.phase with
    | .address i => some i
    | _ => none
  | _ => none

def minting : AccountProc → Option (KeyId × OrgId × Email)
  | login p =>
    match p.phase with
    | .mint i k => some (k, i, p.email)
    | _ => none
  | _ => none

/-- A transaction that replaces an address finds the one it has read. -/
def findsAddress (s : Registry) : AccountProc → Bool
  | confirm p =>
    match p.phase with
    | .update _ previous _ => (s.orgs.find p.org).all (·.billingEmail == previous)
    | _ => true
  | patch p =>
    match p.phase with
    | .update o _ => (s.orgs.find p.org).all (·.sameAddress o)
    | _ => true
  | _ => true

/-- The organization that loses its address when it is restored in the next step. -/
def dropsNext : AccountProc → Option OrgId
  | patch p =>
    match p.phase with
    | .commit _ true .. => some p.org
    | _ => none
  | _ => none

/-- A login of the organization stands between its check and its key. -/
def loginUnderWay (os : List AccountProc) (i : OrgId) : Bool := os.any (·.window.any (·.1 == i))

/-- A replacement has deactivated the keys of the organization and not committed. -/
def revocationOpen (os : List AccountProc) (i : OrgId) : Bool := os.any (·.revoked.any (·.1 == i))

def inTurn (s : Registry) (os : List AccountProc) (p : AccountProc) : Bool :=
  p.revokesNext.all (!loginUnderWay os ·) && p.opensNext.all (!revocationOpen os ·) &&
    p.dropsNext.all (fun i => (s.systemKeysOf i).isEmpty && !loginUnderWay os i) &&
    p.findsAddress s

structure InTurn (s : Registry) (os : List AccountProc) (p : AccountProc) : Prop where
  revokes : ∀ i ∈ p.revokesNext, (!loginUnderWay os i) = true
  opens : ∀ i ∈ p.opensNext, (!revocationOpen os i) = true
  drops : ∀ i ∈ p.dropsNext, s.systemKeysOf i = [] ∧ (!loginUnderWay os i) = true
  finds : p.findsAddress s = true

theorem inTurn_iff : inTurn s os p = true ↔ p.InTurn s os := by
  simp only [inTurn, Bool.and_eq_true, Option.all_eq_true, List.isEmpty_iff]
  exact ⟨fun h => ⟨h.1.1.1, h.1.1.2, h.1.2, h.2⟩,
    fun h => ⟨⟨⟨h.revokes, h.opens⟩, h.drops⟩, h.finds⟩⟩

theorem not_loginUnderWay (h : (!loginUnderWay os i) = true) {r : AccountProc} (hr : r ∈ os)
    {z : OrgId × Email} (hz : z ∈ r.window) : z.1 ≠ i := by
  rintro rfl
  rw [Bool.not_eq_true', loginUnderWay, any_eq_false] at h
  refine h r hr ?_
  rw [Option.mem_def.1 hz]
  exact beq_self_eq_true _

theorem not_revocationOpen (h : (!revocationOpen os i) = true) {r : AccountProc} (hr : r ∈ os)
    {z : OrgId × List KeyId} (hz : z ∈ r.revoked) : z.1 ≠ i := by
  rintro rfl
  rw [Bool.not_eq_true', revocationOpen, any_eq_false] at h
  refine h r hr ?_
  rw [Option.mem_def.1 hz]
  exact beq_self_eq_true _

end AccountProc

/-- No login stands between its check and its key while the keys of its organization are being
deactivated, nor when the organization is restored without its address, which then has no key of
this kind; and a replacement finds the address that it has read. -/
@[reducible] def revocationsInTurn : PoolSpec.Allow accountRequests.pool :=
  .onRun accountRequests.pool fun s os p => AccountProc.inTurn s os p

/-! ## What a write does to the addresses -/

theorem Organization.address_eq_some {o : Organization} :
    o.address = some e ↔ o.verifiedAt.isSome = true ∧ o.billingEmail = some e := by
  unfold address
  split
  · next h => simp [h]
  · next h => simp [h]

theorem OrgWrite.keeping_user (email : Option Email) : s.Keeping i (.user email) := by
  intro o _ e he
  obtain ⟨hver, hbill⟩ := Organization.address_eq_some.1 he
  cases email with
  | none => exact he
  | some new =>
    simp only [apply]
    split
    · exact he
    · rw [if_pos (by rw [hbill, hver]; rfl)]
      exact Organization.address_eq_some.2 ⟨hver, hbill⟩

theorem Patch.keeping {p : Patch} {o x : Organization} {t : Time} (ho : o.sameAddress x = true)
    (hx : p.replaces x = false) (he : o.address = some e) :
    (OrgWrite.apply o (.admin (p.newTier x) (p.newEmail x false) p.email.isSome false t)).address
      = some e := by
  simp only [Organization.sameAddress, Bool.and_eq_true, beq_iff_eq] at ho
  obtain ⟨hver, hbill⟩ := Organization.address_eq_some.1 he
  have hxbill : x.billingEmail = some e := ho.1.symm.trans hbill
  have hxver : x.verifiedAt.isSome = true := ho.2.symm.trans hver
  refine Organization.address_eq_some.2 ?_
  cases hemail : p.email with
  | none =>
    simp only [OrgWrite.apply, newEmail, hemail, hxbill]
    exact ⟨hver, rfl⟩
  | some new =>
    simp only [replaces, newEmail, hemail, hxbill, hxver, Option.isSome_some, Bool.true_and,
      bne_eq_false_iff_eq] at hx
    simp only [OrgWrite.apply, newEmail, hemail]
    exact ⟨rfl, hx.symm⟩

/-- **A write keeps the address, or takes the keys of the organization along.** -/
theorem AccountProc.Runs.retires (h : p.Runs s os c q) (hrow : p.HoldsRow s)
    (hrev : ∀ y ∈ p.revoked, s.Covers y.1 y.2)
    (hpair : ∀ r ∈ os, ∀ y ∈ p.revoked, ∀ z ∈ r.window, z.1 ≠ y.1)
    (hdrop : ∀ i ∈ p.dropsNext, s.systemKeysOf i = [] ∧ ∀ r ∈ os, ∀ z ∈ r.window, z.1 ≠ i)
    (i : OrgId) (w : OrgWrite) (burned : List CodeId) (revoked : List KeyId)
    (hc : c = .writeOrg i w burned revoked) :
    s.Keeping i w ∨ s.Covers i revoked ∧ ∀ r ∈ os, ∀ z ∈ r.window, z.1 ≠ i := by
  cases h with
  | signup | create | hardDelete | insertKey | issue => nomatch hc
  | @confirm p e previous t burned revoked h =>
    cases hc
    have hnone : (∀ old ∈ previous, old = e) → s.Keeping p.org (.verify e t) := by
      intro hsame o ho e' he'
      obtain ⟨row, hrow, hbill⟩ := hrow (e, previous) (by rw [h]; rfl)
      cases ho.symm.trans hrow
      obtain ⟨-, hb⟩ := Organization.address_eq_some.1 he'
      rw [hsame e' (hbill.symm.trans hb)]
      rfl
    cases previous with
    | none => exact .inl (hnone nofun)
    | some old =>
      by_cases hold : old = e
      · exact .inl (hnone fun o ho => by cases ho; exact hold)
      · have hr : (p.org, revoked) ∈ AccountProc.revoked (.confirm p) := by
          simp only [AccountProc.revoked, h, if_neg hold]
          rfl
        exact .inr ⟨hrev _ hr, fun r hros z hz => hpair r hros _ hr z hz⟩
  | @patch p x dropped t burned revoked h =>
    cases hc
    cases hrep : p.replaces x with
    | true =>
      have hr : (p.org, revoked) ∈ AccountProc.revoked (.patch p) := by
        simp only [AccountProc.revoked, h, hrep, if_true]
        rfl
      exact .inr ⟨hrev _ hr, fun r hros z hz => hpair r hros _ hr z hz⟩
    | false =>
      cases dropped with
      | true =>
        obtain ⟨hkeys, hwin⟩ := hdrop p.org (by simp only [dropsNext, h]; rfl)
        refine .inr ⟨fun key hkey horg hsys hact => ?_, hwin⟩
        have hmem := s.covers_systemKeysOf p.org key hkey horg hsys hact
        rw [hkeys] at hmem
        exact absurd hmem not_mem_nil
      | false =>
        left
        intro o ho e he
        obtain ⟨row, hrow, hsame⟩ := hrow x (by rw [h]; rfl)
        cases ho.symm.trans hrow
        exact Patch.keeping hsame hrep he
  | update h =>
    cases hc
    exact .inl (OrgWrite.keeping_user _)
  | softDelete h =>
    cases hc
    exact .inl fun o _ e he => he
  | aside hc' =>
    subst hc
    nomatch hc'

/-! ## The invariant -/

structure Registry.Sound (s : Registry) : Prop where
  tokens : ∀ t ∈ s.tokens, s.Backs t.apiKeyId t.orgId t.email

structure AccountProc.Sound (s : Registry) (p : AccountProc) : Prop where
  row : p.HoldsRow s
  revoked : ∀ y ∈ p.revoked, s.Covers y.1 y.2
  window : ∀ y ∈ p.window, y.1 < s.nextId ∧ s.HasAddress y.1 y.2
  minting : ∀ y ∈ p.minting, s.Backs y.1 y.2.1 y.2.2

/-- No login of an organization stands between its check and its key while a replacement has
deactivated the keys. -/
def AccountProc.Separate (p q : AccountProc) : Prop :=
  (∀ y ∈ p.revoked, ∀ z ∈ q.window, z.1 ≠ y.1) ∧ ∀ y ∈ q.revoked, ∀ z ∈ p.window, z.1 ≠ y.1

structure AccountProc.Idle (s : Registry) (p : AccountProc) : Prop where
  row : p.HoldsRow s
  revoked : p.revoked = none
  window : p.window = none
  minting : p.minting = none

theorem AccountProc.Idle.sound (h : p.Idle s) : p.Sound s := by
  refine ⟨h.row, fun y hy => ?_, fun y hy => ?_, fun y hy => ?_⟩
  · nomatch h.revoked.symm.trans hy
  · nomatch h.window.symm.trans hy
  · nomatch h.minting.symm.trans hy

theorem AccountProc.Idle.separate {q : AccountProc} (h : p.Idle s) : p.Separate q := by
  refine ⟨fun y hy => ?_, fun _ _ z hz => ?_⟩
  · nomatch h.revoked.symm.trans hy
  · nomatch h.window.symm.trans hz

def AccountProc.Settled (s : Registry) (os : List AccountProc) (p : AccountProc) : Prop :=
  p.Sound s ∧ ∀ q ∈ os, p.Separate q

theorem AccountProc.Idle.settled (h : p.Idle s) : p.Settled s os :=
  ⟨h.sound, fun _ _ => h.separate⟩

theorem AccountProc.settled_of_revokes {p' : AccountProc} {i : OrgId}
    (hA : AccountProc.inTurn s os p = true) (hi : p.revokesNext = some i) (hrow : p'.HoldsRow s)
    (hrev : ∀ y ∈ p'.revoked, y = (i, s.systemKeysOf i)) (hw : p'.window = none)
    (hm : p'.minting = none) : p'.Settled s os := by
  have hclear := (AccountProc.inTurn_iff.1 hA).revokes i hi
  refine ⟨⟨hrow, fun y hy => ?_, fun y hy => ?_, fun y hy => ?_⟩,
    fun q hq => ⟨fun y hy z hz => ?_, fun y _ z hz => ?_⟩⟩
  · rw [hrev y hy]
    exact s.covers_systemKeysOf i
  · nomatch hw.symm.trans hy
  · nomatch hm.symm.trans hy
  · rw [hrev y hy]
    exact AccountProc.not_loginUnderWay hclear hq hz
  · nomatch hw.symm.trans hz

theorem AccountAsk.idle_proc (a : AccountAsk) : a.proc.Idle s := by
  cases a with
  | confirm | patch => exact ⟨fun _ h => (nomatch h), rfl, rfl, rfl⟩
  | _ => exact ⟨trivial, rfl, rfl, rfl⟩

theorem Confirm.sound_of_goes {p : Confirm} {phase : ConfirmPhase} (h : p.Goes s os phase)
    (hA : AccountProc.inTurn s os (.confirm p) = true) (hp : AccountProc.Sound s (.confirm p)) :
    AccountProc.Settled s os (.confirm { p with phase }) := by
  have hrow : ∀ y ∈ p.phase.opened, ∃ o, s.orgs.find p.org = some o ∧ o.billingEmail = y.2 := hp.row
  cases h with
  | begins hphase =>
    apply AccountProc.Idle.settled
    obtain rfl | ⟨e, rfl⟩ | ⟨e, c, m, rfl⟩ | ⟨c, rfl⟩ := hphase <;>
      exact ⟨fun _ h => (by cases h), rfl, rfl, rfl⟩
  | free | previous => exact AccountProc.Idle.settled ⟨fun _ h => (by cases h), rfl, rfl, rfl⟩
  | @updated e previous t h hfree ho =>
    obtain ⟨o, ho, -⟩ := Option.any_eq_true _ _ |>.1 ho
    have hfinds := (AccountProc.inTurn_iff.1 hA).finds
    simp only [AccountProc.findsAddress, h, ho, Option.all_some, beq_iff_eq] at hfinds
    exact AccountProc.Idle.settled ⟨fun y hy => by cases hy; exact ⟨o, ho, hfinds⟩, rfl, rfl, rfl⟩
  | @same e previous t h he =>
    refine AccountProc.Idle.settled ⟨fun y hy => hrow y (by rw [h]; exact hy), ?_, rfl, rfl⟩
    cases previous with
    | none => rfl
    | some old => exact if_pos (he old rfl)
  | replaces h he => exact AccountProc.Idle.settled ⟨fun y hy => hrow y (by rw [h]; exact hy), rfl, rfl, rfl⟩
  | @revoked e previous t burned h =>
    refine AccountProc.settled_of_revokes hA (by simp only [AccountProc.revokesNext, h]; rfl)
      (fun y hy => hrow y (by rw [h]; exact hy)) (fun y hy => ?_) rfl rfl
    cases previous with
    | none => cases hy
    | some old =>
      simp only [AccountProc.revoked] at hy
      split at hy
      · cases hy
      · exact (Option.some.inj hy).symm

theorem Patch.sound_of_goes {p : Patch} {phase : PatchPhase} (h : p.Goes s os phase)
    (hA : AccountProc.inTurn s os (.patch p) = true) (hp : AccountProc.Sound s (.patch p)) :
    AccountProc.Settled s os (.patch { p with phase }) := by
  have hrow : ∀ x ∈ p.phase.opened, ∃ o, s.orgs.find p.org = some o ∧ o.sameAddress x = true :=
    hp.row
  cases h with
  | read | free | restores => exact AccountProc.Idle.settled ⟨fun _ h => (by cases h), rfl, rfl, rfl⟩
  | @updated o dropped h hfree ho =>
    obtain ⟨row, hrow⟩ := Option.isSome_iff_exists.1 ho
    have hfinds := (AccountProc.inTurn_iff.1 hA).finds
    simp only [AccountProc.findsAddress, h, hrow, Option.all_some] at hfinds
    exact AccountProc.Idle.settled ⟨fun y hy => by cases hy; exact ⟨row, hrow, hfinds⟩, rfl, rfl, rfl⟩
  | same h he =>
    refine AccountProc.Idle.settled ⟨fun y hy => hrow y (by rw [h]; exact hy), ?_, rfl, rfl⟩
    exact if_neg (Bool.eq_false_iff.1 he)
  | replaces h he => exact AccountProc.Idle.settled ⟨fun y hy => hrow y (by rw [h]; exact hy), rfl, rfl, rfl⟩
  | @revoked o dropped t burned h =>
    refine AccountProc.settled_of_revokes hA (by simp only [AccountProc.revokesNext, h]; rfl)
      (fun y hy => hrow y (by rw [h]; exact hy)) (fun y hy => ?_) rfl rfl
    simp only [AccountProc.revoked] at hy
    split at hy
    · exact (Option.some.inj hy).symm
    · cases hy

theorem Registry.backs_of_emailKey (hs : s.Fresh) (hk : s.emailKey i = some k) (hi : i < s.nextId)
    (he : s.HasAddress i e) : s.Backs k i e := by
  obtain ⟨key, hfind, rfl⟩ := Option.map_eq_some_iff.1 hk
  have hmem := mem_of_find?_eq_some hfind
  have hprop := find?_some hfind
  simp only [Bool.and_eq_true, beq_iff_eq] at hprop
  refine ⟨hs.keys key hmem, hi, fun key' hkey' => ?_⟩
  cases (Table.find_key hmem).symm.trans hkey'
  exact ⟨hprop.1.2, hprop.1.1, fun _ => he⟩

theorem Login.sound_of_goes {p : Login} {phase : LoginPhase} (h : p.Goes s phase) (hs : s.Fresh)
    (hA : AccountProc.inTurn s os (.login p) = true) (hp : AccountProc.Sound s (.login p))
    (hsep : ∀ q ∈ os, AccountProc.Separate (.login p) q) :
    AccountProc.Settled s os (.login { p with phase }) := by
  cases h with
  | begins hphase =>
    have hidle : AccountProc.Idle s (.login { p with phase }) := by
      obtain ⟨c, m, org, rfl⟩ | ⟨c, rfl⟩ := hphase <;> exact ⟨trivial, rfl, rfl, rfl⟩
    exact hidle.settled
  | @address i h ho =>
    obtain ⟨o, ho, hlogin⟩ := Option.any_eq_true _ _ |>.1 ho
    have haddr : s.HasAddress i p.email := by
      intro o' ho'
      cases ho.symm.trans ho'
      have hlogin := beq_iff_eq.1 hlogin
      unfold Organization.loginEmail at hlogin
      split at hlogin
      · next hb =>
        rw [Bool.and_eq_true] at hb
        exact Organization.address_eq_some.2 ⟨hb.2, hlogin⟩
      · nomatch hlogin
    have hclear := (AccountProc.inTurn_iff.1 hA).opens i
      (by simp only [AccountProc.opensNext, h]; rfl)
    refine ⟨⟨trivial, nofun, fun y hy => ?_, nofun⟩, fun q hq => ⟨nofun, fun y hy z hz => ?_⟩⟩
    · cases hy
      exact ⟨hs.lt_of_find ho, haddr⟩
    · cases hz
      exact (AccountProc.not_revocationOpen hclear hq hy).symm
  | @found i k h hk =>
    obtain ⟨hi, he⟩ := hp.window (i, p.email) (by simp only [AccountProc.window, h]; rfl)
    refine ⟨⟨trivial, nofun, nofun, fun y hy => ?_⟩, fun q hq => ⟨nofun, nofun⟩⟩
    cases hy
    exact Registry.backs_of_emailKey hs hk hi he
  | @none i h =>
    have hw : ∀ y ∈ AccountProc.window (.login { p with phase := .keyInsert i }),
        y ∈ AccountProc.window (.login p) := by
      intro y hy
      simp only [AccountProc.window, h]
      exact hy
    exact ⟨⟨trivial, nofun, fun y hy => hp.window y (hw y hy), nofun⟩,
      fun q hq => ⟨nofun, fun y hy z hz => (hsep q hq).2 y hy z (hw z hz)⟩⟩

/-- **A step that only looks.** -/
theorem AccountProc.sound_of_stay (h : p.act s os = some (.stay p')) (hs : s.Fresh)
    (hA : inTurn s os p = true) (hp : p.Sound s) (hsep : ∀ q ∈ os, p.Separate q) :
    p'.Sound s ∧ ∀ q ∈ os, p'.Separate q := by
  cases p.turns.of_stay h with
  | confirm hgoes => exact Confirm.sound_of_goes hgoes hA hp
  | patch hgoes => exact Patch.sound_of_goes hgoes hA hp
  | login hgoes => exact Login.sound_of_goes hgoes hs hA hp hsep
  | _ => exact AccountProc.Idle.settled ⟨trivial, rfl, rfl, rfl⟩

theorem AccountCommand.token_of_run {t : EmailToken} (h : t ∈ (c.run s).tokens) :
    t ∈ s.tokens ∨ c = .issue t := by
  cases c with
  | issue t' =>
    rcases mem_cons.1 h with rfl | h
    · exact .inr rfl
    · exact .inl h
  | _ => exact .inl h

theorem Registry.Covers.run {revoked : List KeyId} (h : s.Covers i revoked)
    (hc : c ≠ .insertKey i) : (c.run s).Covers i revoked := by
  intro key hkey horg hsys hact
  cases c with
  | insertOrg =>
    rcases Table.mem_insert.1 hkey with hkey | ⟨-, rfl⟩
    · exact h key hkey horg hsys hact
    · nomatch hsys
  | insertKey j =>
    rcases Table.mem_insert.1 hkey with hkey | ⟨-, rfl⟩
    · exact h key hkey horg hsys hact
    · exact absurd (congrArg AccountCommand.insertKey horg) hc
  | writeOrg j w burned revoked' =>
    obtain ⟨k₀, hk₀, rfl⟩ := Registry.mem_deactivate.1 hkey
    split at hact
    · nomatch hact
    · next hno =>
      rw [if_neg hno] at horg hsys ⊢
      exact h k₀ hk₀ horg hsys hact
  | deleteOrg => exact h key (Table.mem_delete.1 hkey).1 horg hsys hact
  | insertCode | chargeCode | useCode | issue | advance => exact h key hkey horg hsys hact

theorem AccountProc.HoldsRow.run {q : AccountProc} {r : Option AccountProc} (h : q.HoldsRow s)
    (hruns : p.Runs s os c r) (hs : s.Fresh) (hq : q ∈ os) (hapart : p.Apart q) :
    q.HoldsRow (c.run s) := by
  cases q with
  | confirm q =>
    intro y hy
    obtain ⟨o, ho, hb⟩ := h y hy
    have hopen := ConfirmPhase.isOpen_of_opened hy
    exact ⟨o, hruns.find_of_lock hs hq (if_pos hopen) hapart ho, hb⟩
  | patch q =>
    intro y hy
    obtain ⟨o, ho, hb⟩ := h y hy
    have hopen := PatchPhase.isOpen_of_opened hy
    exact ⟨o, hruns.find_of_lock hs hq (if_pos hopen) hapart ho, hb⟩
  | _ => trivial

theorem AccountProc.Runs.window_of_insertKey (h : p.Runs s os c q) (hc : c = .insertKey i) :
    ∃ z ∈ p.window, z.1 = i := by
  cases h with
  | @insertKey p i h =>
    cases hc
    exact ⟨(i, p.email), by simp only [window, h]; rfl, rfl⟩
  | aside hc' =>
    subst hc
    nomatch hc'
  | _ => nomatch hc

theorem AccountProc.backs_of_issue {t : EmailToken} (h : p.Runs s os (.issue t) q)
    (hp : p.Sound s) : s.Backs t.apiKeyId t.orgId t.email := by
  cases h with
  | @issue p i k h => exact hp.minting (k, i, p.email) (by simp only [minting, h]; rfl)
  | aside hc => nomatch hc

theorem AccountProc.idle_of_onCode (h : p.onCode = true) : p.Idle s := by
  unfold onCode at h
  split at h
  · exact ⟨fun _ h => (nomatch h), rfl, rfl, rfl⟩
  · exact ⟨fun _ h => (nomatch h), rfl, rfl, rfl⟩
  · exact ⟨trivial, rfl, rfl, rfl⟩
  · exact ⟨trivial, rfl, rfl, rfl⟩
  · exact ⟨trivial, rfl, rfl, rfl⟩
  · nomatch h

theorem Registry.backs_insertKey (hs : s.Fresh) (hi : i < s.nextId) (he : s.HasAddress i e) :
    Registry.Backs (AccountCommand.run s (.insertKey i)) s.nextId i e := by
  refine ⟨Nat.lt_succ_self _, Nat.lt_succ_of_lt hi, fun key hkey => ?_⟩
  have hkey : (s.keys.insert _).find s.nextId = some key := hkey
  rw [Table.find_insert, if_pos ⟨rfl, hs.key_next (Nat.le_refl _)⟩] at hkey
  cases hkey
  exact ⟨rfl, rfl, fun _ => he⟩

theorem AccountProc.sound_of_run (h : p.Runs s os c (some p')) (hp : p.Sound s) (hs : s.Fresh) :
    p'.Sound (c.run s) ∧ p'.revoked = none ∧ p'.window = none := by
  have hidle : p'.Idle (c.run s) → p'.Sound (c.run s) ∧ p'.revoked = none ∧ p'.window = none :=
    fun h => ⟨h.sound, h.revoked, h.window⟩
  cases h with
  | confirm | patch => exact hidle ⟨fun _ h => (nomatch h), rfl, rfl, rfl⟩
  | @insertKey p i h =>
    obtain ⟨hi, he⟩ := hp.window (i, p.email) (by simp only [window, h]; rfl)
    refine ⟨⟨trivial, nofun, nofun, fun y hy => ?_⟩, rfl, rfl⟩
    cases hy
    exact Registry.backs_insertKey hs hi he
  | aside hc hq => exact hidle (idle_of_onCode (hq p' rfl))

/-- **A token whose key is active belongs to the confirmed address.** -/
theorem email_logins_kept : PoolSpec.Kept accountRequests.pool revocationsInTurn
    (fun s => s.Fresh ∧ s.Sound) (fun s p => True ∧ AccountProc.Sound s p)
    fun _ p q => AccountProc.Apart p q ∧ AccountProc.Separate p q := by
  refine (accountRequests_kept revocationsInTurn).over ?_
  refine ⟨fun h => ⟨h.2, h.1⟩, fun {s a} _ _ hs => ⟨hs, (AccountAsk.idle_proc a).sound⟩,
    fun {s a q} _ _ _ _ hq => ⟨hq, (AccountAsk.idle_proc (s := s) a).separate⟩, id,
    fun {s os p p'} h hA hb hb₂ =>
      AccountProc.sound_of_stay (CommandSpec.pool_stay h) hb.store hA hb₂.own hb₂.pair,
    fun {s os p s' p' tell} he hA hb hb₂ => ?_⟩
  obtain ⟨c, h, rfl, rfl⟩ := CommandSpec.pool_share he
  have hruns := AccountProc.runs h
  have hturn := AccountProc.inTurn_iff.1 hA
  have hretires := hruns.retires hb₂.own.row hb₂.own.revoked
    (fun r hr y hy z hz => (hb₂.pair r hr).1 y hy z hz)
    (fun i hi => ⟨(hturn.drops i hi).1, fun r hr z hz =>
      AccountProc.not_loginUnderWay (hturn.drops i hi).2 hr hz⟩)
  have hc : AccountCommand.Retires s c := by
    cases c with
    | writeOrg i w burned revoked => exact (hretires i w burned revoked rfl).imp id And.left
    | _ => trivial
  refine ⟨⟨fun t ht => ?_⟩, fun r hr => ?_, fun q hq => ⟨?_, fun y hy => ?_, fun y hy => ?_,
    fun y hy => ?_⟩, fun _ _ _ _ _ h => h⟩
  · rcases AccountCommand.token_of_run ht with ht | rfl
    · exact (hb₂.store.tokens t ht).run hc
    · exact (AccountProc.backs_of_issue hruns hb₂.own).run hc
  · cases hr
    obtain ⟨hsound, hrev, hwin⟩ := AccountProc.sound_of_run hruns hb₂.own hb.store
    refine ⟨hsound, fun q hq => ⟨fun y hy => ?_, fun _ _ z hz => ?_⟩⟩
    · nomatch hrev.symm.trans hy
    · nomatch hwin.symm.trans hz
  · exact (hb₂.others q hq).row.run hruns hb.store hq (hb.pair q hq)
  · refine ((hb₂.others q hq).revoked y hy).run fun hkey => ?_
    obtain ⟨z, hz, he⟩ := hruns.window_of_insertKey hkey
    exact (hb₂.pair q hq).2 y hy z hz he
  · obtain ⟨hi, he⟩ := (hb₂.others q hq).window y hy
    refine ⟨Nat.lt_of_lt_of_le hi (AccountCommand.nextId_le c s), he.run hi ?_⟩
    intro w burned revoked hw
    rcases hretires y.1 w burned revoked hw with hkeep | ⟨-, hclear⟩
    · exact hkeep
    · exact absurd rfl (hclear q hq y hy)
  · exact ((hb₂.others q hq).minting y hy).run hc

/-! ## The result -/

def loginSystem : Machine := accountRequests.pool.machine fun s => s.Fresh ∧ s.Sound

/-- **A replaced address cannot log in**: a token of an email login is accepted only while its
address is the confirmed one of its organization. -/
theorem accepted_token_has_current_address {x : Pool Registry AccountProc}
    {h : List (Pool Registry AccountProc × PoolLabel AccountAsk)} (hr : loginSystem.Run x h)
    (hC : loginSystem.Steps revocationsInTurn.step h) {t : EmailToken} (ht : t ∈ x.store.tokens)
    (hadmits : x.store.admits t = true) :
    ∃ o, x.store.orgs.find t.orgId = some o ∧ o.loginEmail = some t.email := by
  have hbacks := (email_logins_kept.invariant (fun _ hs => hs) hr hC).store.2.tokens t ht
  simp only [Registry.admits, Bool.and_eq_true, Option.any_eq_true] at hadmits
  obtain ⟨⟨key, hkey, hact⟩, o, ho, hlive⟩ := hadmits
  obtain ⟨-, -, haddr⟩ := hbacks.key key hkey
  obtain ⟨hver, hbill⟩ := Organization.address_eq_some.1 (haddr hact o ho)
  refine ⟨o, ho, ?_⟩
  simp only [Organization.loginEmail, hlive, hver, Bool.and_self, if_true, hbill]

/-! ## An admin replaces an address -/

def addressed : Pool Registry AccountProc :=
  ⟨{ orgs := ⟨[⟨1, .free, some ['a'], some 0, none⟩], by decide⟩, nextId := 2 }, []⟩

theorem addressed_init : addressed.store.Fresh ∧ addressed.store.Sound := by
  refine ⟨⟨fun o ho => ?_, nofun⟩, ⟨nofun⟩⟩
  rw [mem_singleton.1 ho]
  decide

def beginLogin : List (PoolLabel AccountAsk) :=
  [.ask (.startLogin ['a'] ['1']), .run 0, .run 0, .ask (.login ['a'] ['1'] (some true) []), .run 0,
    .run 0, .run 0, .run 0]

def endLogin : List (PoolLabel AccountAsk) := List.replicate 3 (.run 0)

def replaceAddress : List (PoolLabel AccountAsk) :=
  .ask (.patch 1 none (some ['b'])) :: List.replicate 7 (.run 0)

theorem accepted_token_has_current_address_replaced : ∃ x h, loginSystem.Run x h ∧
    loginSystem.Steps revocationsInTurn.step h ∧ ⟨3, 1, ['a']⟩ ∈ x.store.tokens ∧
    x.store.admits ⟨3, 1, ['a']⟩ = false := by
  obtain ⟨x, h, hr, hC, hp⟩ := revocationsInTurn.run_of_exec (fun s => s.Fresh ∧ s.Sound)
    (beginLogin ++ endLogin ++ replaceAddress) addressed
    (fun x => x.1.store.tokens == [⟨3, 1, ['a']⟩] && (x.1.store.orgs.find 1).all (·.loginEmail == some ['b']))
    ⟨addressed_init, rfl⟩ (by decide +kernel)
  simp only [Bool.and_eq_true, beq_iff_eq, Option.all_eq_true] at hp
  obtain ⟨htokens, hemail⟩ := hp
  have hmem : (⟨3, 1, ['a']⟩ : EmailToken) ∈ x.store.tokens := by
    rw [htokens]
    exact mem_cons_self
  refine ⟨x, h, hr, hC, hmem, Bool.eq_false_iff.2 fun hadmits => ?_⟩
  obtain ⟨o, ho, he⟩ := accepted_token_has_current_address hr hC hmem hadmits
  exact absurd ((hemail o ho).symm.trans he) (by decide)

/-- The login has checked the address; the admin replaces it, and the keys are deactivated; then
the login creates a key. Its token is accepted after the answer to the admin. -/
theorem old_address_logs_in : ∃ x h, loginSystem.Run x h ∧ x.procs = [] ∧
    ⟨3, 1, ['a']⟩ ∈ x.store.tokens ∧ x.store.admits ⟨3, 1, ['a']⟩ = true ∧
    ∃ o, x.store.orgs.find 1 = some o ∧ o.loginEmail = some ['b'] := by
  obtain ⟨x, h, hr, hp⟩ := Machine.Run.of_exec loginSystem
    (beginLogin ++ replaceAddress ++ endLogin) addressed
    (fun x => x.1.procs.isEmpty && x.1.store.tokens == [⟨3, 1, ['a']⟩] &&
      x.1.store.admits ⟨3, 1, ['a']⟩ && (x.1.store.orgs.find 1).any (·.loginEmail == some ['b']))
    ⟨addressed_init, rfl⟩ (by decide +kernel)
  simp only [Bool.and_eq_true, beq_iff_eq, Option.any_eq_true, List.isEmpty_iff] at hp
  obtain ⟨⟨⟨hprocs, htokens⟩, hadmits⟩, hemail⟩ := hp
  refine ⟨x, h, hr, hprocs, ?_, hadmits, hemail⟩
  rw [htokens]
  exact mem_cons_self

end Spooled.Account
