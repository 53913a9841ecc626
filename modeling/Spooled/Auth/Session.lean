import Spooled.Auth.KeyProgram
import Spooled.Lib.Commands

/-!
# Login sessions

A login signs an access and a refresh token of one session; the refresh token
buys further access tokens; a logout revokes the session. The requests run side
by side, every Redis command and SQL statement one step (`is_token_revoked`,
`refresh_token`, `logout`, `authenticate_jwt_token`), under the router's timeout
of 30 seconds. Beside them keys expire in Redis and are evicted, Redis goes away
and comes back, keys and organizations change, and time passes.

Clients cannot sign: a token decodes if it was issued. The store also keeps, for
the statements about it, when a session was first revoked and which requests came
after its logout was answered.
-/

namespace Spooled.Auth

/-! ## Tokens -/

inductive TokenType
  | access | refresh
deriving DecidableEq, Repr

/-- The claims of a token; `exp` in Unix seconds. -/
structure Claims where
  apiKeyId : KeyId
  orgId : OrgId
  exp : Nat
  jti : Uuid
  tokenType : TokenType
  /-- `none`: issued before there were sessions. -/
  sid : Option Uuid
deriving DecidableEq, Repr

structure JwtSettings where
  expirationHours : Nat
  pos : 0 < expirationHours
  /-- Redis is configured. -/
  cache : Bool := true

namespace JwtSettings

variable (cfg : JwtSettings)

def accessSecs : Nat := cfg.expirationHours * 3600

/-- The life of a refresh token, and of the revocation of a session. -/
def refreshSecs : Nat := cfg.expirationHours * 24 * 3600

end JwtSettings

/-- `timestamp()`. -/
def unixSeconds (t : Time) : Nat := t / 1000

/-- `Validation::default().leeway`. -/
def jwtLeeway : Nat := 60

def requestTimeout : Time := secs 30

/-! ## The store -/

structure SessionStore where
  now : Time := 0
  keys : Table KeyId ApiKey ApiKey.id
  /-- Organizations whose `plan_tier` is not 'deleted'. -/
  liveOrgs : List OrgId
  redisUp : Bool := true
  /-- `token_blacklist:{jti}`. -/
  blacklist : Expiring Uuid Unit := .empty
  /-- `session_revoked:{sid}`. -/
  sessionKeys : Expiring Uuid Unit := .empty
  /-- `revoked_sessions`: `expires_at` by `sid`. -/
  revokedSessions : Uuid → Option Time := fun _ => none
  /-- Every token signed so far. -/
  issued : List Claims := []
  nextUuid : Uuid := 0
  arrivals : Nat := 0
  /-- When a row of the session was first written. -/
  revokedFrom : Uuid → Option Time := fun _ => none
  /-- How many requests had arrived when its logout was first answered with 204. -/
  loggedOut : Uuid → Option Nat := fun _ => none

namespace SessionStore

variable (s : SessionStore)

/-- `decode` with the default validation. -/
def decodes (c : Claims) : Bool :=
  decide (c ∈ s.issued) && decide (unixSeconds s.now ≤ c.exp + jwtLeeway)

/-- `SELECT 1 FROM revoked_sessions WHERE sid = $1 AND expires_at > NOW()`. -/
def sessionRevoked (sid : Uuid) : Bool := (s.revokedSessions sid).any (s.now < ·)

end SessionStore

inductive Environment
  | advance (d : Nat)
  | evictToken (jti : Uuid)
  | evictSession (sid : Uuid)
  | redis (up : Bool)
  | admin (keys : Table KeyId ApiKey ApiKey.id) (liveOrgs : List OrgId)

inductive SessionCommand
  | login (key : ApiKeyRecord)
  | mint (c : Claims)
  | prune
  | revoke (sid : Uuid) (expiresAt : Time)
  | blacklist (jti : Uuid) (ttl : Nat)
  | cacheSession (sid : Uuid) (ttl : Nat)
  | answer (sid : Option Uuid)
  | environment (e : Environment)

namespace SessionStore

variable (cfg : JwtSettings) (s : SessionStore)

/-- The access token `POST /auth/refresh` signs. -/
def refreshed (c : Claims) : Claims :=
  { c with
    exp := unixSeconds s.now + cfg.accessSecs
    jti := s.nextUuid
    tokenType := .access }

def loginTokens (key : ApiKeyRecord) : List Claims :=
  [⟨key.id, key.organizationId, unixSeconds s.now + cfg.accessSecs, s.nextUuid + 1, .access,
    some s.nextUuid⟩,
   ⟨key.id, key.organizationId, unixSeconds s.now + cfg.refreshSecs, s.nextUuid + 2, .refresh,
    some s.nextUuid⟩]

end SessionStore

def Environment.run (s : SessionStore) : Environment → SessionStore
  | advance d => { s with now := s.now + d }
  | evictToken jti => { s with blacklist := s.blacklist.delete jti }
  | evictSession sid => { s with sessionKeys := s.sessionKeys.delete sid }
  | redis up => { s with redisUp := up }
  | admin keys liveOrgs => { s with keys, liveOrgs }

def SessionCommand.run (cfg : JwtSettings) (s : SessionStore) : SessionCommand → SessionStore
  | login key => { s with issued := s.loginTokens cfg key ++ s.issued, nextUuid := s.nextUuid + 3 }
  | mint c => { s with issued := s.refreshed cfg c :: s.issued, nextUuid := s.nextUuid + 1 }
  | prune =>
    { s with revokedSessions := fun sid => (s.revokedSessions sid).filter (s.now < ·) }
  | revoke sid expiresAt =>
    { s with
      revokedSessions := Function.update s.revokedSessions sid (some expiresAt)
      revokedFrom := Function.update s.revokedFrom sid (s.revokedFrom sid <|> some s.now) }
  | blacklist jti ttl => { s with blacklist := s.blacklist.set jti () (s.now + secs ttl) }
  | cacheSession sid ttl => { s with sessionKeys := s.sessionKeys.set sid () (s.now + secs ttl) }
  | answer (some sid) =>
    { s with
      loggedOut := Function.update s.loggedOut sid (s.loggedOut sid <|> some s.arrivals) }
  | answer none => s
  | environment e => e.run s

/-! ## Requests -/

inductive Purpose
  /-- Any route behind the middleware. -/
  | use
  | refresh
  /-- With the token of the body; does the pruning fail? -/
  | logout (refreshToken : Option Claims) (pruneFails : Bool)
deriving DecidableEq, Repr

inductive SessionAnswer
  | accepted
  | minted
  | noContent
  | unauthorized
  | unavailable
deriving DecidableEq, Repr

/-- The next statement of a request. -/
inductive SessionPhase
  | decode
  -- `is_token_revoked`
  | blacklist
  | sessionKey
  | sessionRow
  -- the key and the organization
  | key
  | keyExpiry
  | org
  | mint
  -- `logout`
  | expiresAt
  | prune (sid : Uuid) (expiresAt : Time)
  | insert (sid : Uuid) (expiresAt : Time)
  | setBlacklist
  | setSession (sid : Uuid)
  | setRefresh
  | finish
  | answered (a : SessionAnswer)
deriving DecidableEq, Repr

structure TokenRequest where
  purpose : Purpose
  claims : Claims
  started : Time
  /-- How many requests arrived before it. -/
  number : Nat
  phase : SessionPhase := .decode
deriving DecidableEq, Repr

inductive SessionProc
  | request (p : TokenRequest)
  /-- `resolve_api_key` has returned the key. -/
  | login (key : ApiKeyRecord)
  | environment (e : Environment)

def Purpose.tokenType : Purpose → TokenType
  | refresh => .refresh
  | use | logout _ _ => .access

namespace TokenRequest

def goTo (p : TokenRequest) (phase : SessionPhase) : TokenRequest := { p with phase }

/-- Past the revocation check: the token was accepted. -/
def passed (p : TokenRequest) : Bool :=
  match p.phase with
  | .decode | .blacklist | .sessionKey | .sessionRow | .answered .unauthorized
  | .answered .unavailable => false
  | _ => true

/-- What follows when Redis does not take a revocation: the row is enough, if there is one. -/
def redisFailed (p : TokenRequest) : SessionPhase :=
  if p.claims.sid.isSome then .finish else .answered .unavailable

variable (cfg : JwtSettings) (s : SessionStore)

variable (p : TokenRequest)

def look : SessionPhase :=
  match p.phase with
  | .decode =>
    if s.decodes p.claims ∧ p.claims.tokenType = p.purpose.tokenType then
      if cfg.cache then .blacklist else .sessionRow
    else .answered .unauthorized
  | .blacklist =>
    if !s.redisUp then if p.claims.sid.isSome then .sessionRow else .answered .unauthorized
    else if (s.blacklist.get s.now p.claims.jti).isSome then .answered .unauthorized
    else .sessionKey
  | .sessionKey =>
    if s.redisUp ∧ p.claims.sid.any fun sid => (s.sessionKeys.get s.now sid).isSome then
      .answered .unauthorized
    else .sessionRow
  | .sessionRow => if p.claims.sid.any s.sessionRevoked then .answered .unauthorized else .key
  | .key =>
    match s.keys.find p.claims.apiKeyId, p.purpose with
    | none, _ => .answered .unauthorized
    | some k, .refresh => if k.isActive then .keyExpiry else .answered .unauthorized
    | some k, _ =>
      if k.isActive ∧ ¬ k.expiresAt.any (· < s.now) then .org else .answered .unauthorized
  | .keyExpiry =>
    if (s.keys.find p.claims.apiKeyId).any fun k => k.expiresAt.any (· < s.now) then
      .answered .unauthorized
    else .mint
  | .org =>
    if p.claims.orgId ∈ s.liveOrgs then
      match p.purpose with
      | .logout _ _ => .expiresAt
      | _ => .answered .accepted
    else .answered .unauthorized
  | .expiresAt =>
    -- the handler decodes the token again
    if s.decodes p.claims then
      match p.claims.sid with
      | some sid => .prune sid (s.now + secs cfg.refreshSecs)
      | none => if cfg.cache then .setBlacklist else .answered .unavailable
    else .answered .unauthorized
  | .prune sid e => .insert sid e
  | .setRefresh => .finish
  | phase => phase

/-- `cache.set(token_blacklist:{jti}, 1, max(exp - now, 1))`. -/
def setBlacklist (c : Claims) : SessionCommand :=
  .blacklist c.jti (max (c.exp - unixSeconds s.now) 1)

def bodyToken : Option Claims :=
  match p.purpose with
  | .logout (some c) _ => if s.decodes c ∧ c.tokenType = .refresh then some c else none
  | _ => none

/-- The command of a step that changes the store, and where it leads. -/
def command : Option (SessionCommand × SessionPhase) :=
  match p.phase with
  | .mint => some (.mint p.claims, .answered .minted)
  | .prune sid e =>
    match p.purpose with
    | .logout _ true => none
    | _ => some (.prune, .insert sid e)
  | .insert sid e => some (.revoke sid e, if cfg.cache then .setBlacklist else .finish)
  | .setBlacklist =>
    if s.redisUp then some (setBlacklist s p.claims, p.claims.sid.elim .setRefresh .setSession)
    else none
  | .setSession sid =>
    if s.redisUp then some (.cacheSession sid cfg.refreshSecs, .setRefresh) else none
  | .setRefresh =>
    match p.bodyToken s with
    | some c => if s.redisUp then some (setBlacklist s c, .finish) else none
    | none => none
  | .finish => some (.answer p.claims.sid, .answered .noContent)
  | _ => none

def failing : Bool :=
  !s.redisUp && match p.phase with
    | .setBlacklist | .setSession _ => true
    | .setRefresh => (p.bodyToken s).isSome
    | _ => false

def timedOut : Bool := decide (p.started + requestTimeout < s.now)

def act : Turn SessionCommand SessionProc :=
  if p.timedOut s then .quit
  else match p.phase with
    | .answered _ => .quit
    | _ =>
      match p.command cfg s with
      | some (c, phase) => .run c (some (.request (p.goTo phase)))
      | none => .stay (.request (p.goTo (if p.failing s then p.redisFailed else p.look cfg s)))

end TokenRequest

inductive SessionAsk
  | request (purpose : Purpose) (claims : Claims)
  | login (key : ApiKeyRecord)
  | environment (e : Environment)

def SessionProc.act (cfg : JwtSettings) (s : SessionStore) :
    SessionProc → Turn SessionCommand SessionProc
  | request p => p.act cfg s
  | login key =>
    if key.isActive ∧ ¬ key.expiresAt.any (· < s.now) then .run (.login key) none else .quit
  | environment e => .run (.environment e) none

def SessionAsk.start (s : SessionStore) : SessionAsk → SessionProc
  | request purpose claims => .request { purpose, claims, started := s.now, number := s.arrivals }
  | login key => .login key
  | environment e => .environment e

def sessionRequests (cfg : JwtSettings) : CommandSpec where
  Store := SessionStore
  Proc := SessionProc
  Ask := SessionAsk
  Command := SessionCommand
  start s a := ({ s with arrivals := s.arrivals + 1 }, a.start s)
  run := SessionCommand.run cfg
  act s _ p := some (p.act cfg s)

end Spooled.Auth
