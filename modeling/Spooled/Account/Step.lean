import Spooled.Account.Program

/-!
# Steps of the account requests

What one step does to the identifiers in use and to the rows that open
transactions have locked. While a transaction holds the row of an organization, no
other request changes it.
-/

namespace Spooled.Account

open Spooled.Auth (ApiKey KeyId)

variable {s : Registry} {os : List AccountProc} {p p' : AccountProc} {q : Option AccountProc}
  {c : AccountCommand} {i : OrgId}

/-! ## Commands -/

def AccountCommand.target : AccountCommand → Option OrgId
  | writeOrg i .. | deleteOrg i => some i
  | _ => none

structure Registry.Fresh (s : Registry) : Prop where
  orgs : ∀ o ∈ s.orgs.rows, o.id < s.nextId
  keys : ∀ k ∈ s.keys.rows, k.id < s.nextId

namespace Registry.Fresh

variable (hs : s.Fresh)
include hs

theorem lt_of_find {o : Organization} (h : s.orgs.find i = some o) : i < s.nextId := by
  rw [← Table.key_of_find h]
  exact hs.orgs o (Table.mem_of_find h)

theorem key_next {n : Nat} (hn : s.nextId ≤ n) : s.keys.find n = none :=
  Table.find_eq_none.2 fun k hk he =>
    Nat.lt_irrefl _ (Nat.lt_of_lt_of_le (he ▸ hs.keys k hk) hn)

end Registry.Fresh

theorem Registry.mem_write {o : Organization} {w : OrgWrite} :
    o ∈ (s.write i w).rows ↔ ∃ o₀ ∈ s.orgs.rows, (if o₀.id == i then w.apply o₀ else o₀) = o := by
  unfold Registry.write
  exact Table.mem_update

theorem Registry.mem_deactivate {k : ApiKey} {revoked : List KeyId} :
    k ∈ (s.deactivate revoked).rows ↔
      ∃ k₀ ∈ s.keys.rows, (if k₀.id ∈ revoked then deactivated k₀ else k₀) = k := by
  unfold Registry.deactivate
  simp only [Table.mem_update, decide_eq_true_eq]

theorem Registry.find_write (j : OrgId) (w : OrgWrite) (i : OrgId) :
    (s.write j w).find i = if i = j then (s.orgs.find i).map w.apply else s.orgs.find i := by
  unfold Registry.write
  rw [Table.find_update]
  cases ho : s.orgs.find i with
  | none => simp
  | some o =>
    have hid : o.id = i := Table.key_of_find ho
    simp only [Option.map_some, hid, beq_iff_eq]
    split <;> rfl

namespace AccountCommand

theorem nextId_le (c : AccountCommand) (s : Registry) : s.nextId ≤ (c.run s).nextId := by
  cases c with
  | insertOrg | insertCode | insertKey => exact Nat.le_add_right _ _
  | writeOrg | deleteOrg | chargeCode | useCode | issue | advance =>
    exact Nat.le_refl _

theorem fresh_run (hs : s.Fresh) (c : AccountCommand) : (c.run s).Fresh := by
  have hle := c.nextId_le s
  cases c with
  | insertOrg tier email verifiedAt code =>
    refine ⟨fun o ho => ?_, fun k hk => ?_⟩
    · rcases Table.mem_insert.1 ho with ho | ⟨-, rfl⟩
      · exact Nat.lt_of_lt_of_le (hs.orgs o ho) hle
      · exact Nat.lt_add_of_pos_right (by decide)
    · rcases Table.mem_insert.1 hk with hk | ⟨-, rfl⟩
      · exact Nat.lt_of_lt_of_le (hs.keys k hk) hle
      · exact Nat.lt_succ_self _
  | writeOrg j w burned revoked =>
    refine ⟨fun o ho => ?_, fun k hk => ?_⟩
    · obtain ⟨o₀, ho₀, rfl⟩ := Registry.mem_write.1 ho
      split
      · rw [w.apply_id]
        exact hs.orgs o₀ ho₀
      · exact hs.orgs o₀ ho₀
    · obtain ⟨k₀, hk₀, rfl⟩ := Registry.mem_deactivate.1 hk
      split <;> exact hs.keys k₀ hk₀
  | deleteOrg j =>
    exact ⟨fun o ho => hs.orgs o (Table.mem_delete.1 ho).1,
      fun k hk => hs.keys k (Table.mem_delete.1 hk).1⟩
  | insertCode => exact ⟨fun o ho => Nat.lt_of_lt_of_le (hs.orgs o ho) hle,
      fun k hk => Nat.lt_of_lt_of_le (hs.keys k hk) hle⟩
  | insertKey j =>
    refine ⟨fun o ho => Nat.lt_of_lt_of_le (hs.orgs o ho) hle, fun k hk => ?_⟩
    rcases Table.mem_insert.1 hk with hk | ⟨-, rfl⟩
    · exact Nat.lt_of_lt_of_le (hs.keys k hk) hle
    · exact Nat.lt_succ_self _
  | chargeCode | useCode | issue | advance => exact ⟨hs.orgs, hs.keys⟩

/-- Other rows of `organizations` are left alone. -/
theorem find_run (hi : i < s.nextId) (ht : c.target ≠ some i) :
    (c.run s).orgs.find i = s.orgs.find i := by
  cases c with
  | insertOrg =>
    show (s.orgs.insert _).find i = _
    rw [Table.find_insert, if_neg]
    rintro ⟨he, -⟩
    exact Nat.ne_of_lt hi he
  | writeOrg j w =>
    show (s.write j w).find i = _
    rw [Registry.find_write, if_neg fun h => ht (congrArg some h.symm)]
  | deleteOrg j =>
    show (s.orgs.delete _).find i = _
    rw [Table.find_delete]
    cases ho : s.orgs.find i with
    | none => rfl
    | some o =>
      have hid : (o.id == j) = false := by
        rw [Table.key_of_find ho]
        exact beq_false_of_ne fun h => ht (congrArg some h.symm)
      rw [Option.filter_some, hid]
      rfl
  | insertCode | chargeCode | useCode | insertKey | issue | advance => rfl

end AccountCommand

/-! ## Steps that run a command -/

def AccountCommand.isAside : AccountCommand → Bool
  | insertCode .. | chargeCode _ | useCode _ | advance _ => true
  | _ => false

def AccountProc.onCode : AccountProc → Bool
  | confirm ⟨_, _, _, .spend ..⟩ | confirm ⟨_, _, _, .checkTaken _⟩ | login ⟨_, _, _, _, .spend ..⟩
  | login ⟨_, _, _, _, .address _⟩ | login ⟨_, _, _, _, .signupToken⟩ => true
  | _ => false

inductive AccountProc.Runs (s : Registry) (os : List AccountProc) :
    AccountProc → AccountCommand → Option AccountProc → Prop
  | signup {p : Signup} {c : CodeId} {e : Email} {t : Time} (h : p.phase = .commit c e t) :
      Runs s os (.signup p) (.insertOrg .free (some e) (some t) (some c)) none
  | create {p : Create} {t : Time} (h : p.phase = .commit t) :
      Runs s os (.create p) (.insertOrg p.newTier p.email (p.verifiedAt t) none) none
  | confirm {p : Confirm} {e : Email} {previous : Option Email} {t : Time} {burned : List CodeId}
      {revoked : List KeyId} (h : p.phase = .commit e previous t burned revoked) :
      Runs s os (.confirm p) (.writeOrg p.org (.verify e t) burned revoked)
        (some (.confirm { p with phase := .answered }))
  | patch {p : Patch} {o : Organization} {dropped : Bool} {t : Time} {burned : List CodeId}
      {revoked : List KeyId} (h : p.phase = .commit o dropped t burned revoked) :
      Runs s os (.patch p) (.writeOrg p.org
        (.admin (p.newTier o) (p.newEmail o dropped) p.email.isSome dropped t) burned revoked)
        (some (.patch { p with phase := .answered }))
  | update {p : Update} (h : p.phase = .update) (hfree : orgLocked os p.org = false) :
      Runs s os (.update p) (.writeOrg p.org (.user p.email) [] []) none
  | hardDelete {p : Delete} (h : p.phase = .hard) (hfree : orgLocked os p.org = false) :
      Runs s os (.delete p) (.deleteOrg p.org) none
  | softDelete {p : Delete} {revoked : List KeyId} (h : p.phase = .commit revoked) :
      Runs s os (.delete p) (.writeOrg p.org .softDelete [] revoked) none
  | insertKey {p : Login} {i : OrgId} (h : p.phase = .keyInsert i)
      (ho : (s.orgs.find i).isSome = true) :
      Runs s os (.login p) (.insertKey i) (some (.login { p with phase := .mint i s.nextId }))
  | issue {p : Login} {i : OrgId} {k : KeyId} (h : p.phase = .mint i k) :
      Runs s os (.login p) (.issue ⟨k, i, p.email⟩) none
  | aside {p : AccountProc} {c : AccountCommand} {q : Option AccountProc} (hc : c.isAside = true)
      (hq : ∀ r ∈ q, r.onCode = true) : Runs s os p c q

theorem AccountProc.Runs.last (hc : c.isAside = true) : Runs s os p c none :=
  .aside hc fun _ h => absurd h (Option.not_mem_none _)

theorem AccountProc.Runs.charged {r : AccountProc} {k : CodeId} {matched : Bool}
    (hr : r.onCode = true) : Runs s os p (.chargeCode k) (if matched then some r else none) := by
  refine .aside rfl fun r' hr' => ?_
  split at hr'
  · cases hr'
    exact hr
  · nomatch hr'

/-! ## Steps on a request alone, and all its steps -/

inductive Signup.Goes (s : Registry) (p : Signup) : SignupPhase → Prop
  | found {c : CodeId} {e : Email} (h : p.phase = .find) : Goes s p (.checkEmail c e)
  | free {c : CodeId} {e : Email} (h : p.phase = .checkEmail c e)
      (hf : s.verifiedOrgByEmail e = none) : Goes s p (.checkSlug c e)
  | slug {c : CodeId} {e : Email} (h : p.phase = .checkSlug c e) : Goes s p (.insert c e)
  | insert {c : CodeId} {e : Email} (h : p.phase = .insert c e) : Goes s p (.insertKey c e s.now)
  | insertKey {c : CodeId} {e : Email} {t : Time} (h : p.phase = .insertKey c e t) :
      Goes s p (.consume c e t)
  | consume {c : CodeId} {e : Email} {t : Time} (h : p.phase = .consume c e t) :
      Goes s p (.commit c e t)

inductive Create.Goes (s : Registry) (p : Create) : CreatePhase → Prop
  | free (h : p.phase = .checkEmail) (hf : ∀ e ∈ p.email, s.billingEmailTaken e none = false) :
      Goes s p .insert
  | insert (h : p.phase = .insert) : Goes s p (.insertKey s.now)
  | insertKey {t : Time} (h : p.phase = .insertKey t) : Goes s p (.commit t)

/-- Steps of `verify_billing_email` that only look. -/
inductive Confirm.Goes (s : Registry) (os : List AccountProc) (p : Confirm) : ConfirmPhase → Prop
  | begins {phase : ConfirmPhase} (hphase : phase = .answered ∨ (∃ e, phase = .look e) ∨
      (∃ e c m, phase = .charge e c m) ∨ ∃ c, phase = .burn c) : Goes s os p phase
  | free {e : Email} (h : p.phase = .checkTaken e)
      (hf : s.billingEmailTaken e (some p.org) = false) : Goes s os p (.previous e)
  | previous {e : Email} {previous : Option Email} (h : p.phase = .previous e) :
      Goes s os p (.update e previous s.now)
  | updated {e : Email} {previous : Option Email} {t : Time} (h : p.phase = .update e previous t)
      (hfree : orgLocked os p.org = false) (ho : (s.orgs.find p.org).any (·.awaits e) = true) :
      Goes s os p (.revokeCodes e previous t)
  | same {e : Email} {previous : Option Email} {t : Time} (h : p.phase = .revokeCodes e previous t)
      (he : ∀ old ∈ previous, old = e) : Goes s os p (.commit e previous t [] [])
  | replaces {e old : Email} {t : Time} (h : p.phase = .revokeCodes e (some old) t) (he : old ≠ e) :
      Goes s os p (.revokeKeys e (some old) t (s.codesOf p.org old))
  | revoked {e : Email} {previous : Option Email} {t : Time} {burned : List CodeId}
      (h : p.phase = .revokeKeys e previous t burned) :
      Goes s os p (.commit e previous t burned (s.systemKeysOf p.org))

inductive Patch.Goes (s : Registry) (os : List AccountProc) (p : Patch) : PatchPhase → Prop
  | read {o : Organization} (h : p.phase = .read) : Goes s os p (.check o)
  | free {o : Organization} {e : Email} (h : p.phase = .check o) (he : p.email = some e)
      (hf : s.billingEmailTaken e (some p.org) = false) : Goes s os p (.update o false)
  | restores {o : Organization} {dropped : Bool} (h : p.phase = .check o) (he : p.email = none)
      (hd : dropped = (p.restoring o && o.verifiedAt.isSome &&
        o.billingEmail.any (s.billingEmailTaken · (some p.org)))) : Goes s os p (.update o dropped)
  | updated {o : Organization} {dropped : Bool} (h : p.phase = .update o dropped)
      (hfree : orgLocked os p.org = false) (ho : (s.orgs.find p.org).isSome = true) :
      Goes s os p (.revokeCodes o dropped s.now)
  | same {o : Organization} {dropped : Bool} {t : Time} (h : p.phase = .revokeCodes o dropped t)
      (he : p.replaces o = false) : Goes s os p (.commit o dropped t [] [])
  | replaces {o : Organization} {dropped : Bool} {t : Time} {burned : List CodeId}
      (h : p.phase = .revokeCodes o dropped t) (he : p.replaces o = true) :
      Goes s os p (.revokeKeys o dropped t burned)
  | revoked {o : Organization} {dropped : Bool} {t : Time} {burned : List CodeId}
      (h : p.phase = .revokeKeys o dropped t burned) :
      Goes s os p (.commit o dropped t burned (s.systemKeysOf p.org))

inductive Login.Goes (s : Registry) (p : Login) : LoginPhase → Prop
  | begins {phase : LoginPhase} (hphase : (∃ c m org, phase = .charge c m org) ∨
      ∃ c, phase = .burn c) : Goes s p phase
  | address {i : OrgId} (h : p.phase = .address i)
      (ho : (s.orgs.find i).any (·.loginEmail == some p.email) = true) : Goes s p (.keyLookup i)
  | found {i : OrgId} {k : KeyId} (h : p.phase = .keyLookup i) (hk : s.emailKey i = some k) :
      Goes s p (.mint i k)
  | none {i : OrgId} (h : p.phase = .keyLookup i) : Goes s p (.keyInsert i)

inductive AccountProc.Stays (s : Registry) (os : List AccountProc) : AccountProc → AccountProc → Prop
  | signup {p phase} (h : Signup.Goes s p phase) :
      Stays s os (.signup p) (.signup { p with phase })
  | create {p phase} (h : Create.Goes s p phase) :
      Stays s os (.create p) (.create { p with phase })
  | confirm {p phase} (h : Confirm.Goes s os p phase) :
      Stays s os (.confirm p) (.confirm { p with phase })
  | patch {p phase} (h : Patch.Goes s os p phase) :
      Stays s os (.patch p) (.patch { p with phase })
  | update {p : Update} {phase} : Stays s os (.update p) (.update { p with phase })
  | delete {p : Delete} {phase : DeletePhase}
      (h : phase.isOpen = true → orgLocked os p.org = false) :
      Stays s os (.delete p) (.delete { p with phase })
  | sendCode {p : SendCode} {phase} : Stays s os (.sendCode p) (.sendCode { p with phase })
  | login {p phase} (h : Login.Goes s p phase) :
      Stays s os (.login p) (.login { p with phase })

theorem Signup.turns (p : Signup) : Turn.Allowed (AccountProc.Stays s os (.signup p))
    (AccountProc.Runs s os (.signup p)) (p.act s os) := by
  cases hphase : p.phase <;> simp only [act, hphase, goTo]
  case find =>
    split
    · exact .stay (.signup (.found hphase))
    · exact .quit
  case checkEmail c e =>
    split
    · exact .quit
    · next hf => exact .stay (.signup (.free hphase (by simpa using hf)))
  case checkSlug c e =>
    split
    · exact .quit
    · exact .stay (.signup (.slug hphase))
  case insert c e =>
    split
    · exact .quit
    · exact .stay (.signup (.insert hphase))
  case insertKey c e t => exact .stay (.signup (.insertKey hphase))
  case consume c e t =>
    split
    · exact .wait
    · split
      · exact .stay (.signup (.consume hphase))
      · exact .quit
  case commit => exact .run (.signup hphase)

theorem Create.turns (os : List AccountProc) (p : Create) : Turn.Allowed (AccountProc.Stays s os (.create p))
    (AccountProc.Runs s os (.create p)) (AccountProc.act s os (.create p)) := by
  show Turn.Allowed _ _ (some (p.act s))
  cases hphase : p.phase <;> simp only [act, hphase, goTo]
  case checkEmail =>
    split
    · exact .quit
    · next hf =>
      refine .stay (.create (.free hphase fun e he => ?_))
      rw [Option.mem_def.1 he, Bool.not_eq_true, Bool.or_eq_false_iff] at hf
      exact hf.1
  case insert =>
    split
    · exact .quit
    · exact .stay (.create (.insert hphase))
  case insertKey t => exact .stay (.create (.insertKey hphase))
  case commit => exact .run (.create hphase)

theorem Update.turns (p : Update) : Turn.Allowed (AccountProc.Stays s os (.update p))
    (AccountProc.Runs s os (.update p)) (p.act s os) := by
  cases hphase : p.phase with
  | read | checkTaken =>
    simp only [act, hphase, goTo]
    split
    · first | exact .quit | exact .stay .update
    · first | exact .quit | exact .stay .update
  | update =>
    simp only [act, hphase]
    split
    · exact .wait
    · next hfree => exact .run (.update hphase (Bool.eq_false_iff.2 hfree))

theorem SendCode.turns (os : List AccountProc) (p : SendCode) :
    Turn.Allowed (AccountProc.Stays s os (.sendCode p))
    (AccountProc.Runs s os (.sendCode p)) (AccountProc.act s os (.sendCode p)) := by
  show Turn.Allowed _ _ (some (p.act s))
  cases hphase : p.phase <;> simp only [act, hphase, goTo]
  case lookup => exact .stay .sendCode
  case read i =>
    split
    · exact .quit
    · split
      · exact .quit
      · exact .stay .sendCode
  case checkTaken i e =>
    split
    · exact .quit
    · exact .stay .sendCode
  case insertLogin | insertVerify => exact .run (.last rfl)

theorem Delete.turns (p : Delete) : Turn.Allowed (AccountProc.Stays s os (.delete p))
    (AccountProc.Runs s os (.delete p)) (p.act s os) := by
  cases hphase : p.phase with
  | keys =>
    simp only [act, hphase, goTo]
    exact .stay (.delete nofun)
  | org =>
    simp only [act, hphase, goTo]
    split
    · exact .wait
    · next hfree => exact .stay (.delete (fun _ => Bool.eq_false_iff.2 hfree))
  | hard =>
    simp only [act, hphase]
    split
    · exact .wait
    · next hfree => exact .run (.hardDelete hphase (Bool.eq_false_iff.2 hfree))
  | commit =>
    simp only [act, hphase]
    exact .run (.softDelete hphase)

theorem Confirm.turns (p : Confirm) : Turn.Allowed (AccountProc.Stays s os (.confirm p))
    (AccountProc.Runs s os (.confirm p)) (p.act s os) := by
  cases hphase : p.phase <;> simp only [act, hphase, goTo]
  case read =>
    split
    · exact .quit
    · next e verified _ =>
      refine .stay (.confirm (.begins ?_))
      cases verified with
      | false => exact .inr (.inl ⟨e, rfl⟩)
      | true => exact .inl rfl
  case look e =>
    split
    · next c m _ _ =>
      split
      · exact .stay (.confirm (.begins (.inr (.inr (.inl ⟨e, c, m, rfl⟩)))))
      · exact .quit
    · exact .quit
  case charge e c m =>
    split
    · exact .wait
    · split
      · exact .run (.charged rfl)
      · exact .stay (.confirm (.begins (.inr (.inr (.inr ⟨c, rfl⟩)))))
  case burn | spend =>
    split
    · exact .wait
    · exact .run (.aside rfl fun r hr => by cases hr <;> rfl)
  case checkTaken e =>
    split
    · exact .quit
    · next hf => exact .stay (.confirm (.free hphase (Bool.eq_false_iff.2 hf)))
  case previous e => exact .stay (.confirm (.previous hphase))
  case update e previous t =>
    split
    · exact .wait
    · next hfree =>
      split
      · next ho => exact .stay (.confirm (.updated hphase (Bool.eq_false_iff.2 hfree) ho))
      · exact .quit
  case revokeCodes e previous t =>
    cases previous with
    | none => exact .stay (.confirm (.same hphase fun _ h => by cases h))
    | some old =>
      refine .stay (.confirm ?_)
      split
      · next he => exact .same hphase fun o ho => by cases ho; exact he
      · next he => exact .replaces hphase he
  case revokeKeys e previous t burned => exact .stay (.confirm (.revoked hphase))
  case commit => exact .run (.confirm hphase)
  case answered => exact .quit

theorem Patch.turns (p : Patch) : Turn.Allowed (AccountProc.Stays s os (.patch p))
    (AccountProc.Runs s os (.patch p)) (p.act s os) := by
  cases hphase : p.phase <;> simp only [act, hphase, goTo]
  case read =>
    split
    · exact .quit
    · split
      · exact .quit
      · exact .stay (.patch (.read hphase))
  case check o =>
    split
    · next e he =>
      split
      · exact .quit
      · next hf => exact .stay (.patch (.free hphase he (Bool.eq_false_iff.2 hf)))
    · next he => exact .stay (.patch (.restores hphase he rfl))
  case update o dropped =>
    split
    · exact .wait
    · next hfree =>
      split
      · next ho => exact .stay (.patch (.updated hphase (Bool.eq_false_iff.2 hfree) ho))
      · exact .quit
  case revokeCodes o dropped t =>
    refine .stay (.patch ?_)
    split
    · next he => exact .replaces hphase he
    · next he => exact .same hphase (Bool.eq_false_iff.2 he)
  case revokeKeys o dropped t burned => exact .stay (.patch (.revoked hphase))
  case commit => exact .run (.patch hphase)
  case answered => exact .quit

theorem Login.turns (p : Login) : Turn.Allowed (AccountProc.Stays s os (.login p))
    (AccountProc.Runs s os (.login p)) (p.act s os) := by
  cases hphase : p.phase <;> simp only [act, hphase, goTo]
  case look =>
    split
    · split
      · exact .stay (.login (.begins (.inl ⟨_, _, _, rfl⟩)))
      · exact .quit
    · exact .quit
  case charge =>
    split
    · exact .wait
    · split
      · exact .run (.charged rfl)
      · exact .stay (.login (.begins (.inr ⟨_, rfl⟩)))
  case burn =>
    split
    · exact .wait
    · exact .run (.last rfl)
  case spend code org =>
    split
    · exact .wait
    · split
      · refine .run (.aside rfl fun r hr => ?_)
        cases hr
        cases org <;> rfl
      · exact .quit
  case address i =>
    split
    · next ho => exact .stay (.login (.address hphase ho))
    · exact .quit
  case keyLookup i =>
    split
    · next k hk => exact .stay (.login (.found hphase hk))
    · exact .stay (.login (.none hphase))
  case keyInsert =>
    split
    · next ho => exact .run (.insertKey hphase ho)
    · exact .quit
  case mint => exact .run (.issue hphase)
  case signupToken => exact .run (.last rfl)

/-- **Every step of a request.** -/
theorem AccountProc.turns (p : AccountProc) :
    Turn.Allowed (p.Stays s os) (p.Runs s os) (p.act s os) := by
  cases p with
  | signup p | confirm p | patch p | update p | delete p | login p => exact p.turns
  | create p | sendCode p => exact p.turns os
  | clock d => exact .run (.last rfl)

theorem AccountProc.runs (h : p.act s os = some (.run c q)) : p.Runs s os c q := p.turns.of_run h

/-! ## Locks -/

theorem AccountProc.orgLock_of_stay (h : p.act s os = some (.stay p')) (hl : p'.orgLock = some i) :
    p.orgLock = some i ∨ orgLocked os i = false := by
  cases p.turns.of_stay h with
  | signup | create | update | sendCode | login => nomatch hl
  | confirm hgoes =>
    clear h
    simp only [orgLock] at hl ⊢
    split at hl
    · next hopen =>
      cases hl
      cases hgoes with
      | begins hphase => obtain rfl | ⟨e, rfl⟩ | ⟨e, c, m, rfl⟩ | ⟨c, rfl⟩ := hphase <;> nomatch hopen
      | free | previous => nomatch hopen
      | updated h hfree => exact .inr hfree
      | same h | replaces h | revoked h =>
        rw [h]
        exact .inl rfl
    · nomatch hl
  | patch hgoes =>
    clear h
    simp only [orgLock] at hl ⊢
    split at hl
    · next hopen =>
      cases hl
      cases hgoes with
      | read | free | restores => nomatch hopen
      | updated h hfree => exact .inr hfree
      | same h | replaces h | revoked h =>
        rw [h]
        exact .inl rfl
    · nomatch hl
  | delete hfree =>
    simp only [orgLock] at hl
    split at hl
    · next hopen =>
      cases hl
      exact .inr (hfree hopen)
    · nomatch hl

theorem AccountProc.Runs.orgLock (h : p.Runs s os c q) (ht : c.target = some i) :
    p.orgLock = some i ∨ orgLocked os i = false := by
  cases h with
  | signup | create | insertKey | issue => nomatch ht
  | confirm h | patch h | softDelete h =>
    left
    rw [← ht]
    simp only [AccountProc.orgLock, h]
    rfl
  | update h hfree | hardDelete h hfree =>
    cases ht
    exact .inr hfree
  | aside hc =>
    cases c with
    | insertCode | chargeCode | useCode | advance => nomatch ht
    | _ => nomatch hc

theorem AccountProc.Runs.unlocks (h : p.Runs s os c (some p')) : p'.orgLock = none := by
  cases h with
  | confirm | patch | insertKey => rfl
  | aside hc hq =>
    have hq := hq p' rfl
    unfold onCode at hq
    split at hq <;> first | rfl | cases hq

def AccountProc.Apart (p q : AccountProc) : Prop := ∀ i, p.orgLock = some i → q.orgLock ≠ some i

theorem orgLocked_of_mem (hp : p ∈ os) (hl : p.orgLock = some i) : orgLocked os i = true :=
  List.any_eq_true.2 ⟨p, hp, by rw [hl]; exact beq_self_eq_true _⟩

/-- **The base invariant.** -/
theorem accountRequests_kept (A : PoolSpec.Allow accountRequests.pool) :
    PoolSpec.Kept accountRequests.pool A Registry.Fresh (fun _ _ => True)
      fun _ => AccountProc.Apart := by
  refine @CommandSpec.Keeps.kept accountRequests A _ _ _ ?_
  refine ⟨fun h i hq hp => h i hp hq, fun _ hs => ⟨hs, trivial⟩, fun {s a q} _ _ _ => ⟨trivial, ?_⟩,
    id, fun {s os p p'} h _ hb => ⟨trivial, fun q hq i hp' hl => ?_⟩,
    fun {s os p c p'} h _ hb => ⟨AccountCommand.fresh_run hb.store c, ?_, fun _ _ => trivial,
      fun _ _ _ _ h => h⟩⟩
  · intro i hi
    cases a with
    | delete org soft => cases soft <;> nomatch hi
    | _ => nomatch hi
  · rcases AccountProc.orgLock_of_stay h hp' with hp | hfree
    · exact hb.pair q hq i hp hl
    · exact Bool.noConfusion (hfree.symm.trans (orgLocked_of_mem hq hl))
  · rintro r rfl
    refine ⟨trivial, fun q _ i hr => ?_⟩
    rw [(AccountProc.runs h).unlocks] at hr
    nomatch hr

/-- **A row is safe under its lock.** -/
theorem AccountProc.Runs.find_of_lock {q : AccountProc} {r : Option AccountProc}
    (h : p.Runs s os c r) (hs : s.Fresh) (hq : q ∈ os) (hl : q.orgLock = some i)
    (hapart : p.Apart q) {o : Organization} (ho : s.orgs.find i = some o) :
    (c.run s).orgs.find i = some o := by
  rw [AccountCommand.find_run (hs.lt_of_find ho), ho]
  intro ht
  rcases h.orgLock ht with hp | hfree
  · exact hapart i hp hl
  · exact Bool.noConfusion (hfree.symm.trans (orgLocked_of_mem hq hl))

end Spooled.Account
