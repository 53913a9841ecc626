import Spooled.Account.Program
import Spooled.Lib.Window

/-!
# Login codes of one address

Requests for a login code and requests that present one, for one address, from any
clients: `start` counts the codes of the last hour, mails one and then stores it;
`verify` selects the live codes, spends its two attempt budgets in Redis, charges an
attempt to one code, and consumes the code. Every statement and every Redis script
is a step of its own. The drawn codes come with the requests, and a `start` may be
refused before it counts.

The store also keeps the codes mailed so far, the uses of the address's budget that
passed, and the codes that a session or a signup token was minted for.
-/

namespace Spooled.Account

/-! ## The table -/

/-- A row of `email_login_codes` of the address. -/
structure MailedCode where
  id : CodeId
  kind : CodeKind
  secret : Text
  organizationId : Option OrgId
  createdAt : Time
  expiresAt : Time
  attempts : Nat := 0
  /-- `used_at IS NOT NULL`. -/
  used : Bool := false
deriving DecidableEq, Repr

def MailedCode.isLogin (c : MailedCode) : Bool := c.kind == .login

abbrev ClientIp := Nat

/-- `email_verify_attempts:<email>:<ip>` and `email_verify_ceiling:<email>`. -/
inductive BudgetKey
  | client (ip : ClientIp)
  | ceiling
deriving DecidableEq, Repr

/-- `MAX_CODE_ATTEMPTS`. -/
def maxCodeAttempts : Nat := 5

/-- `MAX_VERIFY_ATTEMPTS_PER_EMAIL`. -/
def maxVerifyAttempts : Nat := 20

/-- `MAX_ATTEMPTS_PER_LOGIN_CODE`: the budgets are enforced. -/
def maxAttemptsPerCode : Nat := 2 * maxVerifyAttempts

def BudgetKey.limit : BudgetKey → Nat
  | client _ => maxCodeAttempts
  | ceiling => maxVerifyAttempts

/-- `CODE_VALIDITY_MINUTES`, also the window of the budgets. -/
def codeValidity : Time := mins 10

def signupValidity : Time := mins 15

structure CodeDesk where
  now : Time := 0
  codes : Table CodeId MailedCode MailedCode.id := .empty
  budgets : Expiring BudgetKey Nat := .empty
  /-- The live organizations whose verified billing email is the address, the first verified
  first. -/
  orgs : List OrgId := []
  nextId : CodeId := 0
  mailed : List Text := []
  passes : List Pass := []
  minted : List CodeId := []

namespace CodeDesk

variable (s : CodeDesk)

/-- `SELECT COUNT(*) … created_at > NOW() - INTERVAL '1 hour'`. -/
def recentCodes : Nat := s.codes.rows.countP fun c => decide (s.now < c.createdAt + mins 60)

/-- Selected by `verify`. -/
def isLive (c : MailedCode) : Bool := c.isLogin && decide (s.now < c.expiresAt) && !c.used

def candidates : List MailedCode := (s.codes.rows.filter s.isLive).reverse.take Registry.maxCodes

end CodeDesk

/-- The code that is charged for a guess; `hit`: the guess matches it. -/
structure Pick where
  id : CodeId
  hit : Bool
  org : Option OrgId
deriving DecidableEq, Repr

def MailedCode.picked (c : MailedCode) (hit : Bool) : Pick := ⟨c.id, hit, c.organizationId⟩

def CodeDesk.pick (s : CodeDesk) (secret : Text) : Option Pick :=
  match s.candidates.find? (·.secret == secret) with
  | some c => some (c.picked true)
  | none => s.candidates.head?.map (·.picked false)

/-! ## Commands -/

inductive DeskCommand
  | send (secret : Text)
  | insert (kind : CodeKind) (secret : Text) (org : Option OrgId) (expiresAt : Time)
  | spend (key : BudgetKey)
  | attempt (id : CodeId)
  | use (id : CodeId)
  /-- The tokens are signed, or the signup token is stored. -/
  | login (id : CodeId)
  | signup (id : CodeId) (secret : Text)
  | advance (d : Nat)

namespace CodeDesk

variable (s : CodeDesk)

def insert (kind : CodeKind) (secret : Text) (org : Option OrgId) (expiresAt : Time) : CodeDesk :=
  { s with
    codes := s.codes.insert ⟨s.nextId, kind, secret, org, s.now, expiresAt, 0, false⟩
    nextId := s.nextId + 1 }

def setCode (id : CodeId) (f : MailedCode → MailedCode) (hf : ∀ c, (f c).id = c.id) : CodeDesk :=
  { s with codes := s.codes.update (·.id == id) f hf }

/-- `check_rate_limit`. -/
def spend (key : BudgetKey) : CodeDesk :=
  let e := s.budgets.counted codeValidity s.now key
  { s with
    budgets := s.budgets.count codeValidity s.now key
    passes := if key = .ceiling ∧ e.1 ≤ maxVerifyAttempts then ⟨s.now, e.2 - codeValidity⟩ :: s.passes
      else s.passes }

end CodeDesk

def MailedCode.charge (c : MailedCode) : MailedCode := { c with attempts := c.attempts + 1 }

def MailedCode.use (c : MailedCode) : MailedCode := { c with used := true }

def DeskCommand.run (s : CodeDesk) : DeskCommand → CodeDesk
  | send secret => { s with mailed := secret :: s.mailed }
  | insert kind secret org expiresAt => s.insert kind secret org expiresAt
  | spend key => s.spend key
  | attempt id => s.setCode id MailedCode.charge fun _ => rfl
  | use id => s.setCode id MailedCode.use fun _ => rfl
  | login id => { s with minted := id :: s.minted }
  | signup id secret =>
    { s.insert .signup secret none (s.now + signupValidity) with minted := id :: s.minted }
  | advance d => { s with now := s.now + d }

/-! ## Requests -/

inductive StartPhase
  | count
  | lookup
  | send (org : Option OrgId)
  | insert (org : Option OrgId) (expiresAt : Time)
deriving DecidableEq, Repr

structure StartReq where
  /-- The code it draws. -/
  secret : Text
  sendFails : Bool := false
  phase : StartPhase := .count
deriving DecidableEq, Repr

inductive VerifyPhase
  | select
  | client (k : Pick)
  | ceiling (k : Pick)
  | attempt (k : Pick)
  | invalidate (k : Pick)
  | consume (k : Pick)
  | mint (k : Pick)
  | accepted
deriving DecidableEq, Repr

structure VerifyReq where
  client : ClientIp
  secret : Text
  signupSecret : Text := []
  phase : VerifyPhase := .select
deriving DecidableEq, Repr

inductive DeskProc
  | start (p : StartReq)
  | verify (p : VerifyReq)
  | clock (d : Nat)
deriving DecidableEq, Repr

abbrev DeskTurn := Turn DeskCommand DeskProc

/-- `start`. -/
def StartReq.act (s : CodeDesk) (p : StartReq) : DeskTurn :=
  match p.phase with
  | .count =>
    if Registry.maxCodes ≤ s.recentCodes then .quit else .stay (.start { p with phase := .lookup })
  | .lookup => .stay (.start { p with phase := .send s.orgs.head? })
  | .send org =>
    if p.sendFails then .quit
    else .run (.send p.secret) (some (.start { p with phase := .insert org (s.now + codeValidity) }))
  | .insert org expiresAt => .run (.insert .login p.secret org expiresAt) none

namespace VerifyReq

variable (s : CodeDesk) (p : VerifyReq)

def goTo (phase : VerifyPhase) : DeskTurn := .stay (.verify { p with phase })

def runs (c : DeskCommand) (phase : VerifyPhase) : DeskTurn := .run c (some (.verify { p with phase }))

/-- `spend_budget`; an exhausted budget is answered 429. -/
def spend (key : BudgetKey) (phase : VerifyPhase) : DeskTurn :=
  if (s.budgets.counted codeValidity s.now key).1 ≤ key.limit then p.runs (.spend key) phase
  else .run (.spend key) none

/-- `verify`. -/
def act : DeskTurn :=
  match p.phase with
  | .select =>
    match s.pick p.secret with
    | some k => p.goTo (.client k)
    | none => .quit
  | .client k => p.spend s (.client p.client) (.ceiling k)
  | .ceiling k => p.spend s .ceiling (.attempt k)
  | .attempt k =>
    if (s.codes.find k.id).any fun c => decide (c.attempts < maxAttemptsPerCode) then
      if k.hit then p.runs (.attempt k.id) (.consume k) else .run (.attempt k.id) none
    else p.goTo (.invalidate k)
  | .invalidate k => .run (.use k.id) none
  | .consume k =>
    if (s.codes.find k.id).any (!·.used) then p.runs (.use k.id) (.mint k) else .quit
  | .mint k =>
    match k.org with
    | some org => if s.orgs.contains org then p.runs (.login k.id) .accepted else .quit
    | none => p.runs (.signup k.id p.signupSecret) .accepted
  | .accepted => .quit

end VerifyReq

def DeskProc.act (s : CodeDesk) : DeskProc → DeskTurn
  | start p => p.act s
  | verify p => p.act s
  | clock d => .run (.advance d) none

inductive DeskAsk
  | start (secret : Text) (sendFails : Bool)
  | verify (client : ClientIp) (secret signupSecret : Text)
  | clock (d : Nat)

def DeskAsk.proc : DeskAsk → DeskProc
  | start secret sendFails => .start { secret, sendFails }
  | verify client secret signupSecret => .verify { client, secret, signupSecret }
  | clock d => .clock d

def codeDesk : CommandSpec where
  Store := CodeDesk
  Proc := DeskProc
  Ask := DeskAsk
  Command := DeskCommand
  start s a := (s, a.proc)
  run := DeskCommand.run
  act s _ p := some (p.act s)

end Spooled.Account
