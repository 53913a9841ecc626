import Spooled.Auth.KeyProgram
import Spooled.Lib.Commands

/-!
# Organizations and their billing addresses

The requests that write an organization's billing address, and those that log in
by it, side by side: signup, creation, `verify_billing_email`, the update by the
organization and by an admin (who may also restore a deleted one), deletion, and
email login from the code to the token. Every SQL statement is one step, under
READ COMMITTED: the writes of a transaction take effect when it commits, and it
holds the locks of the rows it has updated until then.

Addresses are trimmed and in lower case, as every handler stores and compares
them. What a request does not decide itself (slugs, attempt budgets, the code it
draws) comes with it.
-/

namespace Spooled.Account

open Spooled.Auth (ApiKey KeyId)

abbrev Email := Text

abbrev CodeId := Nat

/-! ## Tables -/

inductive PlanTier
  | free | starter | pro | enterprise | deleted
deriving DecidableEq, Repr

structure Organization where
  id : OrgId
  planTier : PlanTier := .free
  billingEmail : Option Email := none
  /-- `billing_email_verified_at`. -/
  verifiedAt : Option Time := none
  pendingEmail : Option Email := none
deriving DecidableEq, Repr

namespace Organization

variable (o : Organization)

def isLive : Bool := o.planTier != .deleted

/-- The address an email login resolves the organization by. -/
def loginEmail : Option Email := if o.isLive && o.verifiedAt.isSome then o.billingEmail else none

/-- The condition of the `UPDATE` in `verify_billing_email`. -/
def awaits (e : Email) : Bool :=
  o.pendingEmail == some e ||
    (o.pendingEmail.isNone && o.billingEmail == some e && o.verifiedAt.isNone)

/-- `billing_email_to_verify`: the address to confirm, and is it confirmed already? -/
def toVerify : Option (Email × Bool) :=
  match o.pendingEmail with
  | some e => some (e, false)
  | none => o.billingEmail.map (·, o.verifiedAt.isSome)

end Organization

/-- What the text in `email_login_codes.code` begins with. -/
inductive CodeKind
  | login | verify | signup
deriving DecidableEq, Repr

/-- A row of `email_login_codes`. -/
structure LoginCode where
  id : CodeId
  email : Email
  kind : CodeKind
  secret : Text
  organizationId : Option OrgId
  expiresAt : Time
  attempts : Nat := 0
  /-- `used_at IS NOT NULL`. -/
  used : Bool := false
deriving DecidableEq, Repr

structure EmailToken where
  apiKeyId : KeyId
  orgId : OrgId
  email : Email
deriving DecidableEq, Repr

structure Registry where
  now : Time := 0
  orgs : Table OrgId Organization Organization.id
  keys : Table KeyId ApiKey ApiKey.id := .empty
  codes : Table CodeId LoginCode LoginCode.id := .empty
  /-- Every token signed so far. -/
  tokens : List EmailToken := []
  nextId : Uuid

namespace Registry

variable (s : Registry)

/-- `billing_email_taken`. -/
def billingEmailTaken (e : Email) (exclude : Option OrgId) : Bool :=
  s.orgs.rows.any fun o => o.loginEmail == some e && exclude.all (o.id != ·)

/-- The organization verified first. -/
def earliest : List Organization → Option Organization
  | [] => none
  | o :: os =>
    match earliest os with
    | none => some o
    | some b => if b.verifiedAt.getD 0 < o.verifiedAt.getD 0 then some b else some o

/-- `VERIFIED_ORG_BY_EMAIL`. -/
def verifiedOrgByEmail (e : Email) : Option OrgId :=
  (earliest (s.orgs.rows.filter (·.loginEmail == some e))).map (·.id)

/-- `MAX_CODES_PER_HOUR`. -/
def maxCodes : Nat := 5

def candidates (p : LoginCode → Bool) : List LoginCode :=
  (s.codes.rows.filter fun c => p c && decide (s.now < c.expiresAt) && !c.used).reverse.take maxCodes

/-- The code that is charged for a guess, and does the guess match it? -/
def pick (cs : List LoginCode) (secret : Text) : Option (CodeId × Bool × Option OrgId) :=
  match cs.find? (·.secret == secret), cs.head? with
  | some c, _ => some (c.id, true, c.organizationId)
  | none, some c => some (c.id, false, c.organizationId)
  | none, none => none

def emailKey (i : OrgId) : Option KeyId :=
  (s.keys.rows.find? fun k => k.organizationId == i && k.isSystem && k.isActive).map (·.id)

/-- Login codes that `revoke_email_login_identity` burns. -/
def codesOf (i : OrgId) (old : Email) : List CodeId :=
  (s.codes.rows.filter fun c =>
    c.organizationId == some i && c.email == old && !c.used && c.kind == .login).map (·.id)

def systemKeysOf (i : OrgId) : List KeyId :=
  (s.keys.rows.filter fun k => k.organizationId == i && k.isSystem && k.isActive).map (·.id)

def keysOf (i : OrgId) : List KeyId := (s.keys.rows.filter (·.organizationId == i)).map (·.id)

def toVerify (i : OrgId) : Option (Email × Bool) :=
  ((s.orgs.find i).filter (·.isLive)).bind (·.toVerify)

/-- The middleware, as far as the key and the organization decide. -/
def admits (t : EmailToken) : Bool :=
  (s.keys.find t.apiKeyId).any (·.isActive) && (s.orgs.find t.orgId).any (·.isLive)

end Registry

/-! ## Writes -/

/-- An `UPDATE` of an organization. -/
inductive OrgWrite
  /-- `verify_billing_email`. -/
  | verify (e : Email) (began : Time)
  /-- The admin's; `vouched`: the request names the address. -/
  | admin (tier : PlanTier) (email : Option Email) (vouched dropped : Bool) (began : Time)
  /-- The organization's own. -/
  | user (email : Option Email)
  | softDelete
deriving DecidableEq, Repr

def OrgWrite.apply (o : Organization) : OrgWrite → Organization
  | verify e began => { o with billingEmail := some e, verifiedAt := some began, pendingEmail := none }
  | admin tier email vouched dropped began =>
    { o with
      planTier := tier
      billingEmail := email
      verifiedAt := if dropped then none else if vouched then some began else o.verifiedAt
      pendingEmail := if vouched || dropped then none else o.pendingEmail }
  | user none => o
  | user (some e) =>
    if o.billingEmail = some e then { o with pendingEmail := none }
    else if o.billingEmail.isSome && o.verifiedAt.isSome then { o with pendingEmail := some e }
    else { o with billingEmail := some e, verifiedAt := none, pendingEmail := none }
  | softDelete => { o with planTier := .deleted }

theorem OrgWrite.apply_id (w : OrgWrite) (o : Organization) : (w.apply o).id = o.id := by
  cases w with
  | verify | admin | softDelete => rfl
  | user email =>
    cases email with
    | none => rfl
    | some e =>
      simp only [OrgWrite.apply]
      split
      · rfl
      · split <;> rfl

inductive AccountCommand
  /-- The commit of a creation: the organization and its first key; a signup also spends its code. -/
  | insertOrg (tier : PlanTier) (email : Option Email) (verifiedAt : Option Time)
      (code : Option CodeId)
  /-- The commit of an update, with the codes it burns and the keys it deactivates. -/
  | writeOrg (i : OrgId) (w : OrgWrite) (burned : List CodeId) (revoked : List KeyId)
  | deleteOrg (i : OrgId)
  | insertCode (email : Email) (kind : CodeKind) (secret : Text) (org : Option OrgId) (ttl : Time)
  | chargeCode (c : CodeId)
  | useCode (c : CodeId)
  | insertKey (i : OrgId)
  | issue (t : EmailToken)
  | advance (d : Nat)

namespace Registry

variable (s : Registry)

/-- `SET is_active = FALSE`. -/
def deactivated (k : ApiKey) : ApiKey := { k with isActive := false }

theorem deactivated_id (k : ApiKey) : (deactivated k).id = k.id := rfl

def deactivate (revoked : List KeyId) : Table KeyId ApiKey ApiKey.id :=
  s.keys.update (fun k => decide (k.id ∈ revoked)) deactivated deactivated_id

def burn (burned : List CodeId) : Table CodeId LoginCode LoginCode.id :=
  s.codes.update (fun c => decide (c.id ∈ burned)) (fun c => { c with used := true }) fun _ => rfl

def write (i : OrgId) (w : OrgWrite) : Table OrgId Organization Organization.id :=
  s.orgs.update (·.id == i) w.apply w.apply_id

end Registry

def AccountCommand.run (s : Registry) : AccountCommand → Registry
  | insertOrg tier email verifiedAt code =>
    { s with
      orgs := s.orgs.insert
        { id := s.nextId, planTier := tier, billingEmail := email, verifiedAt := verifiedAt }
      keys := s.keys.insert { id := s.nextId + 1, organizationId := s.nextId, keyHash := [] }
      codes := s.burn code.toList
      nextId := s.nextId + 2 }
  | writeOrg i w burned revoked =>
    { s with orgs := s.write i w, keys := s.deactivate revoked, codes := s.burn burned }
  | deleteOrg i =>
    { s with
      orgs := s.orgs.delete (·.id == i)
      keys := s.keys.delete (·.organizationId == i) }
  | insertCode email kind secret org ttl =>
    { s with
      codes := s.codes.insert
        { id := s.nextId, email, kind, secret, organizationId := org, expiresAt := s.now + ttl }
      nextId := s.nextId + 1 }
  | chargeCode c =>
    { s with
      codes := s.codes.update (·.id == c) (fun c => { c with attempts := c.attempts + 1 })
        fun _ => rfl }
  | useCode c => { s with codes := s.burn [c] }
  | insertKey i =>
    { s with
      keys := s.keys.insert
        { id := s.nextId, organizationId := i, keyHash := [], isSystem := true }
      nextId := s.nextId + 1 }
  | issue t => { s with tokens := t :: s.tokens }
  | advance d => { s with now := s.now + d }

/-! ## Requests -/

/-- `complete_signup`, with the code and the address once it knows them. -/
inductive SignupPhase
  | find
  | checkEmail (c : CodeId) (e : Email)
  | checkSlug (c : CodeId) (e : Email)
  | insert (c : CodeId) (e : Email)
  | insertKey (c : CodeId) (e : Email) (began : Time)
  | consume (c : CodeId) (e : Email) (began : Time)
  | commit (c : CodeId) (e : Email) (began : Time)

structure Signup where
  secret : Text
  slugTaken : Bool := false
  /-- Another organization took the slug after the check. -/
  slugConflict : Bool := false
  phase : SignupPhase := .find

inductive CreatePhase
  | checkEmail
  | insert
  | insertKey (began : Time)
  | commit (began : Time)

/-- `POST /organizations`, by anyone or by an admin. -/
structure Create where
  email : Option Email
  byAdmin : Bool
  tier : PlanTier := .free
  slugConflict : Bool := false
  phase : CreatePhase := .checkEmail

/-- `verify_billing_email`; `previous` is the address the transaction read first. -/
inductive ConfirmPhase
  | read
  | look (e : Email)
  | charge (e : Email) (c : CodeId) (matched : Bool)
  | burn (c : CodeId)
  | spend (e : Email) (c : CodeId)
  | checkTaken (e : Email)
  | previous (e : Email)
  | update (e : Email) (previous : Option Email) (began : Time)
  | revokeCodes (e : Email) (previous : Option Email) (began : Time)
  | revokeKeys (e : Email) (previous : Option Email) (began : Time) (burned : List CodeId)
  | commit (e : Email) (previous : Option Email) (began : Time) (burned : List CodeId)
      (revoked : List KeyId)
  | answered

structure Confirm where
  org : OrgId
  secret : Text
  budgetLeft : Bool := true
  phase : ConfirmPhase := .read

/-- The admin's update; `existing` is the row it read, `dropped` whether it drops the address. -/
inductive PatchPhase
  | read
  | check (existing : Organization)
  | update (existing : Organization) (dropped : Bool)
  | revokeCodes (existing : Organization) (dropped : Bool) (began : Time)
  | revokeKeys (existing : Organization) (dropped : Bool) (began : Time) (burned : List CodeId)
  | commit (existing : Organization) (dropped : Bool) (began : Time) (burned : List CodeId)
      (revoked : List KeyId)
  | answered

structure Patch where
  org : OrgId
  tier : Option PlanTier
  email : Option Email
  phase : PatchPhase := .read

inductive UpdatePhase
  | read | checkTaken | update

structure Update where
  org : OrgId
  email : Option Email
  phase : UpdatePhase := .read

inductive DeletePhase
  | hard
  | keys
  | org (revoked : List KeyId)
  | commit (revoked : List KeyId)

structure Delete where
  org : OrgId
  phase : DeletePhase

/-- `POST /auth/email/start` and the start of a billing address verification. -/
inductive SendPhase
  | lookup
  | insertLogin (org : Option OrgId)
  | read (org : OrgId)
  | checkTaken (org : OrgId) (e : Email)
  | insertVerify (org : OrgId) (e : Email)

structure SendCode where
  email : Email
  secret : Text
  phase : SendPhase

/-- `verify`: email login. -/
inductive LoginPhase
  | look
  | charge (c : CodeId) (matched : Bool) (org : Option OrgId)
  | burn (c : CodeId)
  | spend (c : CodeId) (org : Option OrgId)
  | address (org : OrgId)
  | keyLookup (org : OrgId)
  | keyInsert (org : OrgId)
  | mint (org : OrgId) (key : KeyId)
  | signupToken

structure Login where
  email : Email
  secret : Text
  /-- `none`: a budget is spent; else, are the budgets enforced? -/
  budget : Option Bool := some true
  /-- The signup token it would draw. -/
  signupSecret : Text := []
  phase : LoginPhase := .look

inductive AccountProc
  | signup (p : Signup)
  | create (p : Create)
  | confirm (p : Confirm)
  | patch (p : Patch)
  | update (p : Update)
  | delete (p : Delete)
  | sendCode (p : SendCode)
  | login (p : Login)
  | clock (d : Nat)

/-! ## Locks -/

/-- The transaction has updated the row of the organization. -/
def ConfirmPhase.isOpen : ConfirmPhase → Bool
  | revokeCodes .. | revokeKeys .. | commit .. => true
  | _ => false

def PatchPhase.isOpen : PatchPhase → Bool
  | revokeCodes .. | revokeKeys .. | commit .. => true
  | _ => false

def DeletePhase.isOpen : DeletePhase → Bool
  | commit _ => true
  | _ => false

def ConfirmPhase.burned : ConfirmPhase → List CodeId
  | revokeKeys _ _ _ burned | commit _ _ _ burned _ => burned
  | _ => []

def PatchPhase.burned : PatchPhase → List CodeId
  | revokeKeys _ _ _ burned | commit _ _ _ burned _ => burned
  | _ => []

namespace AccountProc

/-- The row of `organizations` an open transaction has updated. -/
def orgLock : AccountProc → Option OrgId
  | confirm p => if p.phase.isOpen then some p.org else none
  | patch p => if p.phase.isOpen then some p.org else none
  | delete p => if p.phase.isOpen then some p.org else none
  | _ => none

/-- The rows of `email_login_codes`. -/
def codeLocks : AccountProc → List CodeId
  | signup ⟨_, _, _, .commit c _ _⟩ => [c]
  | confirm p => p.phase.burned
  | patch p => p.phase.burned
  | _ => []

end AccountProc

def orgLocked (os : List AccountProc) (i : OrgId) : Bool := os.any (·.orgLock == some i)

def codeLocked (os : List AccountProc) (c : CodeId) : Bool := os.any fun q => decide (c ∈ q.codeLocks)

/-! ## Steps -/

abbrev AccountTurn := Turn AccountCommand AccountProc

def mins (n : Nat) : Time := secs (60 * n)

namespace Signup

def goTo (p : Signup) (phase : SignupPhase) : AccountTurn := .stay (.signup { p with phase })

def act (s : Registry) (os : List AccountProc) (p : Signup) : Option AccountTurn :=
  match p.phase with
  | .find =>
    match s.codes.rows.find? fun c =>
        c.kind == .signup && c.secret == p.secret && decide (s.now < c.expiresAt) && !c.used with
    | some c => some (p.goTo (.checkEmail c.id c.email))
    | none => some .quit
  | .checkEmail c e =>
    some (if (s.verifiedOrgByEmail e).isSome then .quit else p.goTo (.checkSlug c e))
  | .checkSlug c e => some (if p.slugTaken then .quit else p.goTo (.insert c e))
  | .insert c e => some (if p.slugConflict then .quit else p.goTo (.insertKey c e s.now))
  | .insertKey c e t => some (p.goTo (.consume c e t))
  | .consume c e t =>
    if codeLocked os c then none
    else some (if (s.codes.find c).any (!·.used) then p.goTo (.commit c e t) else .quit)
  | .commit c e t => some (.run (.insertOrg .free (some e) (some t) (some c)) none)

end Signup

namespace Create

def goTo (p : Create) (phase : CreatePhase) : AccountTurn := .stay (.create { p with phase })

/-- Only an admin chooses the plan, and not `deleted`. -/
def newTier (p : Create) : PlanTier := if p.byAdmin then p.tier else .free

def verifiedAt (p : Create) (began : Time) : Option Time :=
  if p.byAdmin && p.email.isSome then some began else none

def act (s : Registry) (p : Create) : AccountTurn :=
  match p.phase with
  | .checkEmail =>
    if p.email.any (s.billingEmailTaken · none) || p.newTier == .deleted then .quit
    else p.goTo .insert
  | .insert => if p.slugConflict then .quit else p.goTo (.insertKey s.now)
  | .insertKey t => p.goTo (.commit t)
  | .commit t => .run (.insertOrg p.newTier p.email (p.verifiedAt t) none) none

end Create

/-- `UPDATE … SET attempts = attempts + 1 WHERE attempts < cap`: is there an attempt left? -/
def Registry.attemptLeft (s : Registry) (c : CodeId) (cap : Nat) : Bool :=
  (s.codes.find c).any (·.attempts < cap)

namespace Confirm

def goTo (p : Confirm) (phase : ConfirmPhase) : AccountTurn := .stay (.confirm { p with phase })

def act (s : Registry) (os : List AccountProc) (p : Confirm) : Option AccountTurn :=
  match p.phase with
  | .read =>
    match s.toVerify p.org with
    | none => some .quit
    | some (e, verified) => some (p.goTo (if verified then .answered else .look e))
  | .look e =>
    match Registry.pick (s.candidates fun c =>
        c.email == e && c.organizationId == some p.org && c.kind == .verify) p.secret with
    | some (c, matched, _) =>
      some (if p.budgetLeft then p.goTo (.charge e c matched) else .quit)
    | none => some .quit
  | .charge e c matched =>
    if codeLocked os c then none
    else if s.attemptLeft c 5 then
      some (.run (.chargeCode c)
        (if matched then some (.confirm { p with phase := .spend e c }) else none))
    else some (p.goTo (.burn c))
  | .burn c => if codeLocked os c then none else some (.run (.useCode c) none)
  | .spend e c =>
    if codeLocked os c then none
    else some (.run (.useCode c) (some (.confirm { p with phase := .checkTaken e })))
  | .checkTaken e =>
    some (if s.billingEmailTaken e (some p.org) then .quit else p.goTo (.previous e))
  | .previous e => some (p.goTo (.update e ((s.orgs.find p.org).bind (·.billingEmail)) s.now))
  | .update e previous t =>
    if orgLocked os p.org then none
    else some (if (s.orgs.find p.org).any (·.awaits e) then p.goTo (.revokeCodes e previous t)
      else .quit)
  | .revokeCodes e previous t =>
    -- `revoke_email_login_identity`, when the address changes
    match previous with
    | some old =>
      some (p.goTo (if old = e then .commit e previous t [] []
        else .revokeKeys e previous t (s.codesOf p.org old)))
    | none => some (p.goTo (.commit e previous t [] []))
  | .revokeKeys e previous t burned =>
    some (p.goTo (.commit e previous t burned (s.systemKeysOf p.org)))
  | .commit e _ t burned revoked =>
    some (.run (.writeOrg p.org (.verify e t) burned revoked)
      (some (.confirm { p with phase := .answered })))
  | .answered => some .quit

end Confirm

namespace Patch

variable (p : Patch) (existing : Organization)

def goTo (phase : PatchPhase) : AccountTurn := .stay (.patch { p with phase })

def newTier : PlanTier := p.tier.getD existing.planTier

def newEmail (dropped : Bool) : Option Email :=
  if dropped then none else p.email.or existing.billingEmail

/-- `email_changed`, with an old address to revoke. -/
def replaces : Bool :=
  p.email.isSome && existing.verifiedAt.isSome && existing.billingEmail.isSome &&
    existing.billingEmail != p.newEmail existing false

def restoring : Bool :=
  !existing.isLive && p.newTier existing != .deleted

def act (s : Registry) (os : List AccountProc) (p : Patch) : Option AccountTurn :=
  match p.phase with
  | .read =>
    match s.orgs.find p.org with
    | none => some .quit
    | some o =>
      some (if p.tier == some .deleted then .quit else p.goTo (.check o))
  | .check o =>
    match p.email with
    | some e =>
      some (if s.billingEmailTaken e (some p.org) then .quit else p.goTo (.update o false))
    -- a restored organization loses an address that was taken meanwhile
    | none =>
      some (p.goTo (.update o (p.restoring o && o.verifiedAt.isSome &&
        o.billingEmail.any (s.billingEmailTaken · (some p.org)))))
  | .update o dropped =>
    if orgLocked os p.org then none
    else some (if (s.orgs.find p.org).isSome then p.goTo (.revokeCodes o dropped s.now) else .quit)
  | .revokeCodes o dropped t =>
    some (p.goTo (if p.replaces o then
        .revokeKeys o dropped t (o.billingEmail.elim [] (s.codesOf p.org))
      else .commit o dropped t [] []))
  | .revokeKeys o dropped t burned =>
    some (p.goTo (.commit o dropped t burned (s.systemKeysOf p.org)))
  | .commit o dropped t burned revoked =>
    some (.run (.writeOrg p.org (.admin (p.newTier o) (p.newEmail o dropped) p.email.isSome dropped t)
      burned revoked) (some (.patch { p with phase := .answered })))
  | .answered => some .quit

end Patch

namespace Update

def goTo (p : Update) (phase : UpdatePhase) : AccountTurn := .stay (.update { p with phase })

def act (s : Registry) (os : List AccountProc) (p : Update) : Option AccountTurn :=
  match p.phase with
  | .read =>
    some (if (s.orgs.find p.org).isSome then p.goTo (if p.email.isSome then .checkTaken else .update)
      else .quit)
  | .checkTaken =>
    some (if p.email.any (s.billingEmailTaken · (some p.org)) then .quit else p.goTo .update)
  | .update =>
    if orgLocked os p.org then none
    else some (.run (.writeOrg p.org (.user p.email) [] []) none)

end Update

namespace Delete

def goTo (p : Delete) (phase : DeletePhase) : AccountTurn := .stay (.delete { p with phase })

def act (s : Registry) (os : List AccountProc) (p : Delete) : Option AccountTurn :=
  match p.phase with
  | .hard => if orgLocked os p.org then none else some (.run (.deleteOrg p.org) none)
  | .keys => some (p.goTo (.org (s.keysOf p.org)))
  | .org revoked => if orgLocked os p.org then none else some (p.goTo (.commit revoked))
  | .commit revoked => some (.run (.writeOrg p.org .softDelete [] revoked) none)

end Delete

namespace SendCode

def goTo (p : SendCode) (phase : SendPhase) : AccountTurn := .stay (.sendCode { p with phase })

def act (s : Registry) (p : SendCode) : AccountTurn :=
  match p.phase with
  | .lookup => p.goTo (.insertLogin (s.verifiedOrgByEmail p.email))
  | .insertLogin org => .run (.insertCode p.email .login p.secret org (mins 10)) none
  | .read i =>
    match s.toVerify i with
    | none => .quit
    | some (e, verified) => if verified then .quit else p.goTo (.checkTaken i e)
  | .checkTaken i e =>
    if s.billingEmailTaken e (some i) then .quit else p.goTo (.insertVerify i e)
  | .insertVerify i e => .run (.insertCode e .verify p.secret (some i) (mins 10)) none

end SendCode

namespace Login

def goTo (p : Login) (phase : LoginPhase) : AccountTurn := .stay (.login { p with phase })

/-- `per_code_cap`. -/
def codeCap (p : Login) : Nat := if p.budget == some true then 40 else 5

def act (s : Registry) (os : List AccountProc) (p : Login) : Option AccountTurn :=
  match p.phase with
  | .look =>
    match Registry.pick (s.candidates fun c => c.email == p.email && c.kind == .login) p.secret with
    | some (c, matched, org) =>
      some (if p.budget.isSome then p.goTo (.charge c matched org) else .quit)
    | none => some .quit
  | .charge c matched org =>
    if codeLocked os c then none
    else if s.attemptLeft c p.codeCap then
      some (.run (.chargeCode c)
        (if matched then some (.login { p with phase := .spend c org }) else none))
    else some (p.goTo (.burn c))
  | .burn c => if codeLocked os c then none else some (.run (.useCode c) none)
  | .spend c org =>
    if codeLocked os c then none
    else if (s.codes.find c).any (!·.used) then
      some (.run (.useCode c)
        (some (.login { p with phase := org.elim .signupToken .address })))
    else some .quit
  | .address i =>
    some (if (s.orgs.find i).any (·.loginEmail == some p.email) then p.goTo (.keyLookup i) else .quit)
  | .keyLookup i =>
    match s.emailKey i with
    | some k => some (p.goTo (.mint i k))
    | none => some (p.goTo (.keyInsert i))
  | .keyInsert i =>
    -- the foreign key
    if (s.orgs.find i).isSome then
      some (.run (.insertKey i) (some (.login { p with phase := .mint i s.nextId })))
    else some .quit
  | .mint i k => some (.run (.issue ⟨k, i, p.email⟩) none)
  | .signupToken => some (.run (.insertCode p.email .signup p.signupSecret none (mins 15)) none)

end Login

/-! ## The system -/

def AccountProc.act (s : Registry) (os : List AccountProc) : AccountProc → Option AccountTurn
  | signup p => p.act s os
  | create p => some (p.act s)
  | confirm p => p.act s os
  | patch p => p.act s os
  | update p => p.act s os
  | delete p => p.act s os
  | sendCode p => some (p.act s)
  | login p => p.act s os
  | clock d => some (.run (.advance d) none)

inductive AccountAsk
  | signup (secret : Text) (slugTaken slugConflict : Bool)
  | create (email : Option Email) (byAdmin : Bool) (tier : PlanTier) (slugConflict : Bool)
  | confirm (org : OrgId) (secret : Text) (budgetLeft : Bool)
  | patch (org : OrgId) (tier : Option PlanTier) (email : Option Email)
  | update (org : OrgId) (email : Option Email)
  | delete (org : OrgId) (soft : Bool)
  | startLogin (email : Email) (secret : Text)
  | startConfirm (org : OrgId) (secret : Text)
  | login (email : Email) (secret : Text) (budget : Option Bool) (signupSecret : Text)
  | clock (d : Nat)

def AccountAsk.proc : AccountAsk → AccountProc
  | signup secret slugTaken slugConflict => .signup { secret, slugTaken, slugConflict }
  | create email byAdmin tier slugConflict => .create { email, byAdmin, tier, slugConflict }
  | confirm org secret budgetLeft => .confirm { org, secret, budgetLeft }
  | patch org tier email => .patch { org, tier, email }
  | update org email => .update { org, email }
  | delete org soft => .delete { org, phase := if soft then .keys else .hard }
  | startLogin email secret => .sendCode { email, secret, phase := .lookup }
  | startConfirm org secret => .sendCode { email := [], secret, phase := .read org }
  | login email secret budget signupSecret => .login { email, secret, budget, signupSecret }
  | clock d => .clock d

def accountRequests : CommandSpec where
  Store := Registry
  Proc := AccountProc
  Ask := AccountAsk
  Command := AccountCommand
  start s a := (s, a.proc)
  run := AccountCommand.run
  act := AccountProc.act

end Spooled.Account
