import Spooled.Auth.QueueGrant
import Spooled.Lib.Expiring
import Spooled.Lib.Pool
import Spooled.Store.Row

/-!
# API keys: authentication and administration

The requests that read or change one API key, side by side, statement by
statement: authentications (`resolve_api_key` with the record cache, the
negative cache, the indexed lookup and the scan of legacy keys), `PUT` and
`DELETE /api-keys/{id}` with the invalidation of the cache that follows, and the
passing of time. Every Redis command and every SQL statement is one step, and so
is every bcrypt check. PostgreSQL runs under READ COMMITTED: a `PUT` keeps its
new columns to itself until it commits, and holds the row's lock meanwhile.

What a request does not decide itself (whether the scan turn was free, whether a
cap has room) comes with the request. Redis and PostgreSQL answer every command.
-/

namespace Spooled.Auth

abbrev KeyId := Nat

/-! ## Tables and caches -/

/-- A row of `api_keys`. -/
structure ApiKey where
  id : KeyId
  organizationId : OrgId
  keyHash : Text
  keyPrefix : Option Text := none
  lookupHash : Option Text := none
  name : Text := []
  queues : List Text := []
  rateLimit : Option Nat := none
  isActive : Bool := true
  expiresAt : Option Time := none
  isSystem : Bool := false
deriving DecidableEq, Repr

structure ApiKeyRecord where
  id : KeyId
  organizationId : OrgId
  keyHash : Text
  queues : List Text
  rateLimit : Option Nat
  isActive : Bool
  expiresAt : Option Time
deriving DecidableEq, Repr

def ApiKey.record (k : ApiKey) : ApiKeyRecord :=
  ⟨k.id, k.organizationId, k.keyHash, k.queues, k.rateLimit, k.isActive, k.expiresAt⟩

/-- The record with the columns that `cache_api_key` reads again. -/
def ApiKeyRecord.refreshed (r : ApiKeyRecord) (k : ApiKey) : ApiKeyRecord :=
  { r with
    queues := k.queues
    rateLimit := k.rateLimit
    isActive := k.isActive
    expiresAt := k.expiresAt }

/-- SHA-256 and bcrypt: no two tokens share a digest, and none verifies another's hash. -/
structure Crypto where
  lookupHash : Text → Text
  verify : Text → Text → Bool
  lookupHash_inj : ∀ {t t'}, lookupHash t = lookupHash t' → t = t'
  verify_inj : ∀ {t t' h}, verify t h = true → verify t' h = true → t = t'

/-- Tokens in the clear, to run the model with. -/
def Crypto.plain : Crypto where
  lookupHash := id
  verify t h := t == h
  lookupHash_inj h := h
  verify_inj h h' := (eq_of_beq h).trans (eq_of_beq h').symm

/-- The part of the bcrypt hash that `api_key_reverse:` is keyed by. -/
def hashPrefix (keyHash : Text) : Text := keyHash.take 16

inductive FailedAuthBudget
  | clientIp (ip : Text)
  | grpc
deriving DecidableEq, Repr

inductive ScanLane
  | rest | grpc
deriving DecidableEq, Repr

namespace FailedAuthBudget

def limit : FailedAuthBudget → Int
  | clientIp _ => 20
  | grpc => 60

def lane : FailedAuthBudget → ScanLane
  | clientIp _ => .rest
  | grpc => .grpc

end FailedAuthBudget

/-- A cached record, with the time of the write and how many record writes came before it. -/
structure CachedRecord where
  record : ApiKeyRecord
  writtenAt : Time
  number : Nat
deriving DecidableEq, Repr

/-- A Redis integer; `none`: it has no TTL. -/
structure Counter where
  value : Int
  deadline : Option Time
deriving DecidableEq, Repr

structure Site where
  now : Time := 0
  keys : Table KeyId ApiKey ApiKey.id
  /-- The organizations with `plan_tier = 'deleted'`. -/
  deletedOrgs : List OrgId := []
  /-- `api_key:{sha256}`. -/
  records : Expiring Text CachedRecord := .empty
  /-- `api_key_reverse:{prefix}`. -/
  reverse : Expiring Text Text := .empty
  /-- `auth_miss:{sha256}`. -/
  misses : Expiring Text Unit := .empty
  counters : FailedAuthBudget → Option Counter := fun _ => none
  /-- How many records were ever written to the cache. -/
  recordWrites : Nat := 0
  /-- How many windows of a counter were ever started. -/
  windows : FailedAuthBudget → Nat := fun _ => 0

namespace Site

variable (s : Site)

def key (i : KeyId) : Option ApiKey := s.keys.find i

def usable (k : ApiKey) : Bool := k.isActive && !decide (k.organizationId ∈ s.deletedOrgs)

def counter (b : FailedAuthBudget) : Option Counter :=
  (s.counters b).filter fun c => c.deadline.all (s.now < ·)

end Site

/-! ## Commands that change something -/

structure Columns where
  name : Option Text := none
  queues : Option (List Text) := none
  rateLimit : Option (Option Nat) := none
  isActive : Option Bool := none
deriving DecidableEq, Repr

def Columns.assign (c : Columns) (k : ApiKey) : ApiKey :=
  { k with
    name := c.name.getD k.name
    queues := c.queues.getD k.queues
    rateLimit := c.rateLimit.getD k.rateLimit
    isActive := c.isActive.getD k.isActive }

inductive LegacyScan
  | found (r : ApiKeyRecord)
  | missed
  | busy
deriving DecidableEq, Repr

structure FlightKey where
  replica : Nat
  lane : ScanLane
  digest : Text
deriving DecidableEq, Repr

inductive Command
  | setRecord (digest : Text) (r : ApiKeyRecord)
  | setReverse (pre digest : Text)
  | setMiss (digest : Text)
  | charge (b : FailedAuthBudget)
  | decr (b : FailedAuthBudget)
  | del (b : FailedAuthBudget)
  | backfill (i : KeyId) (digest : Text)
  | assign (i : KeyId) (c : Columns)
  | delRecord (digest : Text)
  | delReverse (pre : Text)
  | publish (f : FlightKey) (scan : LegacyScan)
  | advance (d : Nat)
  | setOrg (org : OrgId) (deleted : Bool)

def cacheTtl : Time := secs 60

def missTtl : Time := secs 60

def budgetWindow : Time := secs 60

namespace Site

/-- `INCR` and, on the first charge, `EXPIRE`. -/
def chargeCounter (s : Site) (b : FailedAuthBudget) : Counter :=
  match s.counter b with
  | some c =>
    ⟨c.value + 1, if c.value + 1 = 1 then some (s.now + budgetWindow) else c.deadline⟩
  | none => ⟨1, some (s.now + budgetWindow)⟩

/-- `DECR`; a counter it creates has no TTL. -/
def decrCounter (s : Site) (b : FailedAuthBudget) : Counter :=
  match s.counter b with
  | some c => ⟨c.value - 1, c.deadline⟩
  | none => ⟨-1, none⟩

end Site

namespace Command

def run (s : Site) : Command → Site
  | setRecord digest r =>
    { s with
      records := s.records.set digest ⟨r, s.now, s.recordWrites⟩ (s.now + cacheTtl)
      recordWrites := s.recordWrites + 1 }
  | setReverse pre digest => { s with reverse := s.reverse.set pre digest (s.now + cacheTtl) }
  | setMiss digest => { s with misses := s.misses.set digest () (s.now + missTtl) }
  | charge b =>
    { s with
      counters := Function.update s.counters b (some (s.chargeCounter b))
      windows := Function.update s.windows b
        (if (s.chargeCounter b).value = 1 then s.windows b + 1 else s.windows b) }
  | decr b => { s with counters := Function.update s.counters b (some (s.decrCounter b)) }
  | del b => { s with counters := Function.update s.counters b none }
  | backfill i digest =>
    { s with
      keys := s.keys.update (fun k => k.id == i && k.lookupHash == none)
        (fun k => { k with lookupHash := some digest }) fun _ => rfl }
  | assign i c => { s with keys := s.keys.update (·.id == i) c.assign fun _ => rfl }
  | delRecord digest => { s with records := s.records.delete digest }
  | delReverse pre => { s with reverse := s.reverse.delete pre }
  | publish .. => s
  | advance d => { s with now := s.now + d }
  | setOrg org deleted =>
    { s with
      deletedOrgs := if deleted then org :: s.deletedOrgs else s.deletedOrgs.filter (· != org) }

end Command

/-! ## Requests at work -/

/-- Where `find_by_lookup_hash` is called from. -/
inductive Use
  | fast | waited | retry
deriving DecidableEq, Repr

inductive After
  | cache (r : ApiKeyRecord)
  | busy
deriving DecidableEq, Repr

inductive AuthAnswer
  | accepted (r : ApiKeyRecord)
  | invalidKey
  | inactive
  | expired
  /-- 503: the token was not checked. -/
  | unavailable
deriving DecidableEq, Repr

/-- The next statement of an authentication. -/
inductive AuthPhase
  | readCache
  | readMiss
  | find (u : Use)
  | verifyFound (u : Use) (r : ApiKeyRecord)
  -- `cache_api_key`
  | reread (r : ApiKeyRecord)
  | setRecord (r : ApiKeyRecord)
  | setReverse (r : ApiKeyRecord)
  -- `resolve_legacy`
  | join
  | await
  | charge
  -- `scan_legacy_keys`
  | candidates
  | turn (cs : List ApiKeyRecord)
  | recheckCache
  | recheckMiss
  | candidatesAgain
  | verifyNext (cs : List ApiKeyRecord)
  | backfill (r : ApiKeyRecord)
  | publish (scan : LegacyScan)
  | refundDecr (a : After)
  | refundDel (a : After)
  | setMiss
  -- the checks of `authenticate_api_key_token`
  | finish (r : ApiKeyRecord)
  | answered (a : AuthAnswer)
deriving DecidableEq, Repr

structure AuthProc where
  token : Text
  budget : FailedAuthBudget
  replica : Nat := 0
  /-- The scan turn was taken, and was it given in time? -/
  waits : Bool := false
  busy : Bool := false
  /-- Gives up on a flight another request leads. -/
  impatient : Bool := false
  phase : AuthPhase := .readCache
  /-- Inside a flight: its outcome, once there is one. -/
  ticket : Option (Option LegacyScan) := none
  /-- Charged, and in which window of the counter. -/
  charged : Option Nat := none
deriving DecidableEq, Repr

structure UpdateApiKeyRequest where
  name : Option Text := none
  queues : Option (List Text) := none
  rateLimit : Option Nat := none
  isActive : Option Bool := none
deriving DecidableEq, Repr

inductive Edit
  | put (r : UpdateApiKeyRequest)
  | revoke
deriving DecidableEq, Repr

/-- The next statement of a `PUT` or `DELETE`. -/
inductive EditPhase
  | read
  | lockCap (existing : ApiKey)
  | forUpdate (existing : ApiKey)
  | write (existing : ApiKey) (capped : Bool)
  | commit (existing : ApiKey) (capped : Bool)
  -- `invalidate_api_key_cache`; `since` is how many record writes came before it
  | readReverse (keyHash : Text)
  | delRecord (keyHash digest : Text) (since : Nat)
  | delReverse (keyHash : Text) (since : Nat)
  | finished (keyHash : Text) (since : Nat)
  | refused
deriving DecidableEq, Repr

structure EditProc where
  edit : Edit
  id : KeyId
  org : OrgId
  /-- `queues` of the caller's own key. -/
  scope : List Text := []
  /-- Does the plan have room for one more active key? -/
  capAllows : Bool := true
  phase : EditPhase := .read
deriving DecidableEq, Repr

inductive Proc
  | auth (p : AuthProc)
  | edit (p : EditProc)
  | clock (d : Nat)
  | organization (org : OrgId) (deleted : Bool)
deriving DecidableEq, Repr

/-- One step: on the request alone, its end, or a command. -/
inductive Move
  | stay (p : Proc)
  | quit
  | run (c : Command) (p : Option Proc)

/-! ## `PUT` and `DELETE` -/

namespace Edit

def asks : Edit → Columns
  | put r => ⟨r.name, r.queues, r.rateLimit.map some, r.isActive⟩
  | revoke => { isActive := some false }

/-- The columns its `UPDATE` assigns: a `PUT` writes back what it read. -/
def writes (existing : ApiKey) : Edit → Columns
  | put r =>
    ⟨some (r.name.getD existing.name), some (r.queues.getD existing.queues),
      some (r.rateLimit <|> existing.rateLimit), some (r.isActive.getD existing.isActive)⟩
  | revoke => { isActive := some false }

end Edit

def canUpdateWithQueues (scope : List Text) (requested : Option (List Text)) : Bool :=
  queueScopeIsUnrestricted scope || requested.any (canGrantQueues scope)

namespace EditProc

variable (p : EditProc)

def rowLock : Option KeyId :=
  match p.phase with
  | .write _ true | .commit _ _ => some p.id
  | _ => none

def capLock : Option OrgId :=
  match p.phase with
  | .forUpdate _ | .write _ true | .commit _ true => some p.org
  | _ => none

end EditProc

def rowLocked (os : List Proc) (i : KeyId) : Bool :=
  os.any fun
    | .edit q => q.rowLock == some i
    | _ => false

def capLocked (os : List Proc) (org : OrgId) : Bool :=
  os.any fun
    | .edit q => q.capLock == some org
    | _ => false

namespace EditProc

def goTo (p : EditProc) (phase : EditPhase) : Proc := .edit { p with phase }

def act (s : Site) (os : List Proc) (p : EditProc) : Option Move :=
  -- the row, in the caller's organization
  let row := (s.key p.id).filter (·.organizationId == p.org)
  match p.phase with
  | .read =>
    if !queueScopeIsUnrestricted p.scope then some (.stay (p.goTo .refused))
    else match row, p.edit with
      | none, _ => some (.stay (p.goTo .refused))
      | some k, .revoke => some (.stay (p.goTo (.write k false)))
      | some k, .put r =>
        if !canUpdateWithQueues p.scope r.queues then some (.stay (p.goTo .refused))
        else if r.isActive == some true && !k.isSystem then some (.stay (p.goTo (.lockCap k)))
        else some (.stay (p.goTo (.write k false)))
  | .lockCap existing =>
    if capLocked os p.org then none else some (.stay (p.goTo (.forUpdate existing)))
  | .forUpdate existing =>
    if rowLocked os p.id then none
    else match row with
      | some k =>
        some (.stay (p.goTo (if k.isActive || p.capAllows then .write existing true else .refused)))
      | none => some (.stay (p.goTo .refused))
  | .write existing capped =>
    if rowLocked os p.id then none
    else if row.isNone then some (.stay (p.goTo .refused))
    else match p.edit with
      | .put _ => some (.stay (p.goTo (.commit existing capped)))
      | .revoke => some (.run (.assign p.id (p.edit.writes existing))
          (some (p.goTo (.readReverse existing.keyHash))))
  | .commit existing _ => some (.run (.assign p.id (p.edit.writes existing))
      (some (p.goTo (.readReverse existing.keyHash))))
  | .readReverse keyHash =>
    match s.reverse.get s.now (hashPrefix keyHash) with
    | some digest => some (.stay (p.goTo (.delRecord keyHash digest s.recordWrites)))
    | none => some (.stay (p.goTo (.finished keyHash s.recordWrites)))
  | .delRecord keyHash digest since =>
    some (.run (.delRecord digest) (some (p.goTo (.delReverse keyHash since))))
  | .delReverse keyHash since =>
    some (.run (.delReverse (hashPrefix keyHash)) (some (p.goTo (.finished keyHash since))))
  | .finished _ _ | .refused => some .quit

end EditProc

/-! ## Authentication -/

namespace AuthProc

section

variable (crypto : Crypto) (p : AuthProc)

def digest : Text := crypto.lookupHash p.token

def flight : FlightKey := ⟨p.replica, p.budget.lane, p.digest crypto⟩

end

def leads (p : AuthProc) : Bool :=
  match p.phase with
  | .charge | .candidates | .turn _ | .recheckCache | .recheckMiss | .find .waited
  | .verifyFound .waited _ | .candidatesAgain | .verifyNext _ | .backfill _ | .publish _ => true
  | _ => false

def goTo (p : AuthProc) (phase : AuthPhase) : Proc := .auth { p with phase }

/-- Out of `resolve_legacy`: the ticket is given back. -/
def leave (p : AuthProc) (phase : AuthPhase) : Proc := .auth { p with phase, ticket := none }

/-- Where `find_by_lookup_hash` leads when it finds the key. -/
def found (p : AuthProc) (r : ApiKeyRecord) : Use → AuthPhase
  | .fast => .reread r
  | .waited => .publish (.found r)
  | .retry => if p.charged.isSome then .refundDecr (.cache r) else .reread r

end AuthProc

def Use.notFound : Use → AuthPhase
  | .fast => .join
  | .waited => .candidatesAgain
  | .retry => .setMiss

def After.phase : After → AuthPhase
  | .cache r => .reread r
  | .busy => .answered .unavailable

/-- The row `find_by_lookup_hash` selects. -/
def Site.byLookupHash (s : Site) (digest : Text) : Option ApiKey :=
  s.keys.rows.find? fun k => k.lookupHash == some digest && s.usable k

/-- The rows `legacy_candidates` may select. -/
def Site.isCandidate (s : Site) (token : Text) (k : ApiKey) : Bool :=
  s.usable k && k.lookupHash == none && k.keyPrefix.all (· == token.take 8)

/-- `LIMIT 100`. -/
def candidateLimit : Nat := 100

def Site.legacyCandidates (s : Site) (token : Text) : List ApiKeyRecord :=
  ((s.keys.rows.filter (s.isCandidate token)).take candidateLimit).map ApiKey.record

/-- Another request leads the flight. -/
def flightLed (crypto : Crypto) (os : List Proc) (f : FlightKey) : Bool :=
  os.any fun
    | .auth q => q.flight crypto == f && q.ticket.isSome && q.leads
    | _ => false

/-- The outcome of the flight, if a request inside it knows one. -/
def flightOutcome (crypto : Crypto) (os : List Proc) (f : FlightKey) : Option LegacyScan :=
  os.findSome? fun
    | .auth q => if q.flight crypto == f then q.ticket.join else none
    | _ => none

namespace AuthProc

variable (crypto : Crypto)

def act (s : Site) (os : List Proc) (p : AuthProc) : Option Move :=
  let digest := p.digest crypto
  match p.phase with
  | .readCache => match s.records.get s.now digest with
    | some c => some (.stay (p.goTo (.finish c.record)))
    | none => some (.stay (p.goTo .readMiss))
  | .readMiss =>
    some (.stay (p.goTo (if (s.misses.get s.now digest).isSome then .answered .invalidKey
      else .find .fast)))
  | .find u => match s.byLookupHash digest with
    | some k => some (.stay (p.goTo (.verifyFound u k.record)))
    | none => some (.stay (p.goTo u.notFound))
  | .verifyFound u r =>
    some (.stay (p.goTo (if crypto.verify p.token r.keyHash then p.found r u else u.notFound)))
  | .reread r => match s.key r.id with
    | some k =>
      some (.stay (p.goTo (if k.isActive then .setRecord (r.refreshed k) else .answered .inactive)))
    | none => some (.stay (p.goTo (.answered .inactive)))
  | .setRecord r => some (.run (.setRecord digest r) (some (p.goTo (.setReverse r))))
  | .setReverse r =>
    some (.run (.setReverse (hashPrefix r.keyHash) digest) (some (p.goTo (.finish r))))
  | .join => some (.stay (.auth { p with
      phase := .await, ticket := some (flightOutcome crypto os (p.flight crypto)) }))
  | .await =>
    if flightLed crypto os (p.flight crypto) then
      if p.impatient then some (.stay (p.leave (.answered .unavailable))) else none
    else match p.ticket.join with
      | some (.found r) => some (.stay (p.leave (.reread r)))
      | some .missed => some (.stay (p.leave (.find .retry)))
      | some .busy => some (.stay (p.leave (.answered .unavailable)))
      | none => some (.stay (p.goTo .charge))
  | .charge =>
    some (.run (.charge p.budget) (some (if (s.chargeCounter p.budget).value ≤ p.budget.limit then
        .auth { p with phase := .candidates, charged := some ((Command.charge p.budget).run s
          |>.windows p.budget) }
      else p.leave (.answered .invalidKey))))
  | .candidates => match s.legacyCandidates p.token with
    | [] => some (.stay (p.goTo (.publish .missed)))
    | cs => some (.stay (p.goTo (.turn cs)))
  | .turn cs =>
    some (.stay (p.goTo (if p.busy then .publish .busy
      else if p.waits then .recheckCache else .verifyNext cs)))
  | .recheckCache => match s.records.get s.now digest with
    | some c => some (.stay (p.goTo (.publish (.found c.record))))
    | none => some (.stay (p.goTo .recheckMiss))
  | .recheckMiss =>
    some (.stay (p.goTo (if (s.misses.get s.now digest).isSome then .publish .missed
      else .find .waited)))
  | .candidatesAgain => some (.stay (p.goTo (.verifyNext (s.legacyCandidates p.token))))
  | .verifyNext [] => some (.stay (p.goTo (.publish .missed)))
  | .verifyNext (r :: cs) =>
    some (.stay (p.goTo (if crypto.verify p.token r.keyHash then .backfill r else .verifyNext cs)))
  | .backfill r =>
    if rowLocked os r.id then none
    else some (.run (.backfill r.id digest) (some (p.goTo (.publish (.found r)))))
  | .publish scan => some (.run (.publish (p.flight crypto) scan) (some (match scan with
      | .missed => p.leave (.find .retry)
      | .found r => p.goTo (.refundDecr (.cache r))
      | .busy => p.goTo (.refundDecr .busy))))
  | .refundDecr a => some (.run (.decr p.budget) (some
      (if (s.decrCounter p.budget).value ≤ 0 then p.goTo (.refundDel a) else p.leave a.phase)))
  | .refundDel a => some (.run (.del p.budget) (some (p.leave a.phase)))
  | .setMiss => some (.run (.setMiss digest) (some (p.goTo (.answered .invalidKey))))
  | .finish r =>
    some (.stay (p.goTo (.answered (if !r.isActive then .inactive
      else if r.expiresAt.any (· < s.now) then .expired else .accepted r))))
  | .answered _ => some .quit

end AuthProc

/-! ## The system -/

/-- A published outcome reaches everybody in the flight. -/
def Command.tell (crypto : Crypto) : Command → Proc → Proc
  | .publish f scan, .auth q =>
    .auth (if q.flight crypto = f ∧ q.ticket.isSome then { q with ticket := some (some scan) } else q)
  | _, q => q

def Move.effect (crypto : Crypto) (s : Site) : Move → Effect Site Proc
  | stay p => .stay p
  | quit => .quit
  | run c p => .share (c.run s) p (c.tell crypto)

def Proc.act (crypto : Crypto) (s : Site) (os : List Proc) : Proc → Option Move
  | auth p => p.act crypto s os
  | edit p => p.act s os
  | clock d => some (.run (.advance d) none)
  | organization org deleted => some (.run (.setOrg org deleted) none)

inductive Arrival
  | authenticate (token : Text) (budget : FailedAuthBudget) (replica : Nat)
      (waits busy impatient : Bool)
  | edit (e : Edit) (id : KeyId) (org : OrgId) (scope : List Text) (capAllows : Bool)
  | clock (d : Nat)
  | organization (org : OrgId) (deleted : Bool)

def Arrival.proc : Arrival → Proc
  | authenticate token budget replica waits busy impatient =>
    .auth { token, budget, replica, waits, busy, impatient }
  | edit e id org scope capAllows => .edit { edit := e, id, org, scope, capAllows }
  | clock d => .clock d
  | organization org deleted => .organization org deleted

def keyRequests (crypto : Crypto) : PoolSpec where
  Store := Site
  Proc := Proc
  Ask := Arrival
  start s a := (s, a.proc)
  act s os p := (p.act crypto s os).map (Move.effect crypto s)

end Spooled.Auth
