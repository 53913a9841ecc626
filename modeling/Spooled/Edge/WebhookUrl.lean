import Spooled.Lib.Ip

/-!
# The webhook URL policy

`url_validator.rs`. The host of a URL is parsed as the URL standard says: what
ends in a number is an IPv4 address in one of its spellings, what stands in
brackets an IPv6 address, the rest a name. The validator gets the text that the
standard writes for the host, compares it with two lists of names, and reads it
back as an address.
-/

namespace Spooled.WebhookUrl

/-! ## The URL standard -/

inductive Host
  | domain (name : Text)
  | ipv4 (ip : Ipv4)
  | ipv6 (ip : Ipv6)
  deriving DecidableEq

def digitsOf (radix : Nat) (ds : Text) : Option Nat :=
  if ds.all (isDigitOf radix) then some (valueOf radix ds) else none

def ipv4Number : Text → Option Nat
  | [] => none
  | '0' :: 'x' :: ds => digitsOf 16 ds
  | '0' :: 'X' :: ds => digitsOf 16 ds
  | '0' :: d :: ds => digitsOf 8 (d :: ds)
  | ds => digitsOf 10 ds

/-- The parts of a domain, without the empty one after a dot at the end. -/
def partsOf (t : Text) : List Text :=
  let parts := t.splitOn '.'
  if parts.getLast? = some [] ∧ 1 < parts.length then parts.dropLast else parts

def endsInANumber (t : Text) : Bool :=
  match (partsOf t).getLast? with
  | some last => (!last.isEmpty && last.all (isDigitOf 10)) || (ipv4Number last).isSome
  | none => false

def ipv4OfNat (n : Nat) : Ipv4 :=
  ⟨Fin.ofNat 256 (n / 256 ^ 3), Fin.ofNat 256 (n / 256 ^ 2), Fin.ofNat 256 (n / 256),
    Fin.ofNat 256 n⟩

/-- The IPv4 parser: at most four numbers, of which the last one fills what is left. -/
def ipv4Parser (t : Text) : Option Ipv4 := do
  let numbers ← (partsOf t).mapM ipv4Number
  let last ← numbers.getLast?
  let others := numbers.dropLast
  if 4 < numbers.length || others.any (255 < ·) || 256 ^ (5 - numbers.length) ≤ last then none
  else some (ipv4OfNat (others.zipIdx.foldl (fun acc x => acc + x.1 * 256 ^ (3 - x.2)) last))

def ipv6Parser (t : Text) : Option Ipv6 :=
  match Ip.readIpv6 t with
  | some (ip, []) => some ip
  | _ => none

structure RawUrl where
  scheme : Text
  host : Option Text
  port : Nat

/-- What the standard does beside the parsing of addresses. -/
structure Standard where
  /-- The parts of a URL, or the error. -/
  split : Text → Except Text RawUrl
  /-- Percent-decoding, domain to ASCII and the forbidden code points. -/
  domainToAscii : Text → Option Text
  /-- The host of a scheme that is not special. -/
  otherHost : Text → Option Text
  /-- The text of an error in a host. -/
  hostError : Text → Text

def specialSchemes : List Text :=
  ["http", "https", "ws", "wss", "ftp", "file"].map String.toList

def unbracket (t : Text) : Option Text :=
  if t.head? = some '[' ∧ t.getLast? = some ']' then some t.tail.dropLast else none

namespace Standard

def parseHost (std : Standard) (t : Text) : Option Host :=
  if t.head? = some '[' then (unbracket t).bind fun inner => (ipv6Parser inner).map .ipv6
  else do
    let name ← std.domainToAscii t
    if endsInANumber name then (ipv4Parser name).map .ipv4 else some (.domain name)

structure ParsedUrl where
  scheme : Text
  host : Option Host
  /-- `port_or_known_default`, or 443. -/
  port : Nat

/-- `Url::parse`. -/
def parse (std : Standard) (url : Text) : Except Text ParsedUrl := do
  let raw ← std.split url
  match raw.host with
  | none => return ⟨raw.scheme, none, raw.port⟩
  | some t =>
    let parsed := if raw.scheme ∈ specialSchemes then std.parseHost t
      else (std.otherHost t).map .domain
    match parsed with
    | none => throw (std.hostError t)
    | some host => return ⟨raw.scheme, some host, raw.port⟩

end Standard

/-- `host_str`. -/
def hostStr : Host → Text
  | .domain name => name
  | .ipv4 ip => ip.text
  | .ipv6 ip => '[' :: (ip.text ++ [']'])

/-! ## The validator -/

inductive UrlValidationError
  | invalidFormat (text : Text)
  | invalidScheme (scheme : Text)
  | httpNotAllowed
  | blockedHostname
  | privateIpAddress
  | dnsResolutionBlocked
  | missingHost
  deriving DecidableEq

structure UrlValidationOptions where
  isProduction : Bool
  allowLocalhostInDev : Bool
  checkDnsResolution : Bool

def blockedHostnames : List Text :=
  ["localhost", "localhost.localdomain", "postgres", "postgresql", "mysql", "mariadb", "redis",
    "memcached", "elasticsearch", "elastic", "mongo", "mongodb", "rabbitmq", "kafka", "zookeeper",
    "consul", "vault", "etcd", "grafana", "prometheus", "jaeger", "zipkin", "nginx", "traefik",
    "envoy", "istio-proxy", "linkerd", "kubernetes", "kubernetes.default",
    "kubernetes.default.svc", "kube-dns", "metadata", "metadata.google",
    "metadata.google.internal", "instance-data", "169.254.169.254", "169.254.170.2",
    "168.63.129.16", "169.254.169.123"].map String.toList

def blockedHostnameSuffixes : List Text :=
  [".internal", ".local", ".localhost", ".localdomain", ".svc", ".svc.cluster.local",
    ".pod.cluster.local", ".cluster.local", ".compute.internal", ".ec2.internal",
    ".us-east-1.compute.internal", ".us-west-1.compute.internal",
    ".eu-west-1.compute.internal"].map String.toList

/-- `to_lowercase`, of a host in ASCII. -/
def lower (t : Text) : Text := t.map Char.toLower

def isLocalName (t : Text) : Bool := t == "localhost".toList || t == "127.0.0.1".toList

open UrlValidationError

def validateScheme (scheme : Text) (host : Option Text) (options : UrlValidationOptions) :
    Except UrlValidationError Unit :=
  if scheme = "https".toList then .ok ()
  else if scheme = "http".toList then
    if options.isProduction then .error httpNotAllowed
    else if options.allowLocalhostInDev && host.any isLocalName then .ok ()
    else .error httpNotAllowed
  else .error (invalidScheme scheme)

def validateHostname (host : Text) (options : UrlValidationOptions) :
    Except UrlValidationError Unit :=
  if !options.isProduction && options.allowLocalhostInDev && isLocalName (lower host) then .ok ()
  else if lower host ∈ blockedHostnames then .error blockedHostname
  else if blockedHostnameSuffixes.any (·.isSuffixOf (lower host)) then .error blockedHostname
  else .ok ()

/-- The ranges of `validate_ipv4`, in its order. -/
def isRefusedV4 (ip : Ipv4) : Bool :=
  ip.a == 0 || 224 ≤ ip.a.val || ip.a == 10 || (ip.a == 172 && 16 ≤ ip.b.val && ip.b.val ≤ 31) ||
    (ip.a == 192 && ip.b == 168) || (ip.a == 169 && ip.b == 254) || ip.a == 127 ||
    (ip.a == 100 && 64 ≤ ip.b.val && ip.b.val ≤ 127) || ip == ⟨168, 63, 129, 16⟩ ||
    (ip.a == 192 && ip.b == 0 && ip.c == 2) || (ip.a == 198 && ip.b == 51 && ip.c == 100) ||
    (ip.a == 203 && ip.b == 0 && ip.c == 113) || ip == ⟨255, 255, 255, 255⟩

def validateIpv4 (ip : Ipv4) : Except UrlValidationError Unit :=
  if isRefusedV4 ip then .error privateIpAddress else .ok ()

def ipv4Of (g h : Fin 65536) : Ipv4 :=
  ⟨Fin.ofNat 256 (g.val / 256), Fin.ofNat 256 g.val, Fin.ofNat 256 (h.val / 256),
    Fin.ofNat 256 h.val⟩

variable (ip : Ipv6)

def isLoopbackV6 : Bool := ip.segments == [0, 0, 0, 0, 0, 0, 0, 1]

def isUnspecifiedV6 : Bool := ip.segments == [0, 0, 0, 0, 0, 0, 0, 0]

def segment (i : Fin 8) : Fin 65536 := ip.segments.get (i.cast ip.length_eq.symm)

def isLinkLocalV6 : Bool := (segment ip 0).val &&& 0xffc0 == 0xfe80

def isUniqueLocalV6 : Bool := (segment ip 0).val &&& 0xfe00 == 0xfc00

def isMulticastV6 : Bool := (segment ip 0).val &&& 0xff00 == 0xff00

def validateIpv6 : Except UrlValidationError Unit :=
  if isLoopbackV6 ip || isUnspecifiedV6 ip || isLinkLocalV6 ip || isUniqueLocalV6 ip then
    .error privateIpAddress
  else if ip.segments.take 6 = [0, 0, 0, 0, 0, 0xffff] then
    validateIpv4 (ipv4Of (segment ip 6) (segment ip 7))
  else if ip.segments.take 6 = [0, 0, 0, 0, 0, 0] then
    validateIpv4 (ipv4Of (segment ip 6) (segment ip 7))
  else if ip.segments.take 6 = [0x64, 0xff9b, 0, 0, 0, 0] then
    validateIpv4 (ipv4Of (segment ip 6) (segment ip 7))
  else if segment ip 0 = 0x2002 then validateIpv4 (ipv4Of (segment ip 1) (segment ip 2))
  else if isMulticastV6 ip then .error privateIpAddress
  else .ok ()

def isLoopback : IpAddr → Bool
  | .v4 ip => ip.a == 127
  | .v6 ip => isLoopbackV6 ip

def isUnspecified : IpAddr → Bool
  | .v4 ip => ip == ⟨0, 0, 0, 0⟩
  | .v6 ip => isUnspecifiedV6 ip

def validateIpAddress (ip : IpAddr) (options : UrlValidationOptions) :
    Except UrlValidationError Unit :=
  if !options.isProduction && options.allowLocalhostInDev && isLoopback ip then .ok ()
  else if isLoopback ip || isUnspecified ip then .error privateIpAddress
  else match ip with
    | .v4 ip => validateIpv4 ip
    | .v6 ip => validateIpv6 ip

/-- `validate_dns_resolution`; `dns` answers with addresses, or with an error. -/
def validateDnsResolution (dns : Text → Nat → Option (List IpAddr)) (host : Text) (port : Nat)
    (options : UrlValidationOptions) : Except UrlValidationError Unit :=
  if (IpAddr.parse host).isSome then .ok ()
  else match dns host port with
    | none | some [] => .error dnsResolutionBlocked
    | some resolved => resolved.forM (validateIpAddress · options)

def validateHostAddress (host : Text) (options : UrlValidationOptions) :
    Except UrlValidationError Unit :=
  match IpAddr.parse ((unbracket host).getD host) with
  | some ip => validateIpAddress ip options
  | none => .ok ()

/-- `validate_webhook_url`. -/
def validateWebhookUrl (std : Standard) (dns : Text → Nat → Option (List IpAddr)) (url : Text)
    (options : UrlValidationOptions) : Except UrlValidationError Unit := do
  let parsed ← (std.parse url).mapError invalidFormat
  validateScheme parsed.scheme (parsed.host.map hostStr) options
  match parsed.host with
  | none => .error missingHost
  | some h =>
    let host := hostStr h
    validateHostname host options
    validateHostAddress host options
    if options.checkDnsResolution then validateDnsResolution dns host parsed.port options

/-! ## The policy -/

def dropDot (t : Text) : Text := if t.getLast? = some '.' then t.dropLast else t

/-- A blocked name, or one below a blocked suffix, in any case and with or without the dot. -/
def IsBlockedName (t : Text) : Prop :=
  lower (dropDot t) ∈ blockedHostnames ∨ ∃ s ∈ blockedHostnameSuffixes, s <:+ lower (dropDot t)

/-- The IPv4 addresses that an IPv6 address embeds: IPv4-mapped, IPv4-compatible, NAT64, 6to4. -/
def embedded : List Ipv4 :=
  let last := ipv4Of (segment ip 6) (segment ip 7)
  (if ip.segments.take 6 = [0, 0, 0, 0, 0, 0xffff] then [last] else []) ++
    (if ip.segments.take 6 = [0, 0, 0, 0, 0, 0] then [last] else []) ++
    (if ip.segments.take 6 = [0x64, 0xff9b, 0, 0, 0, 0] then [last] else []) ++
    (if segment ip 0 = 0x2002 then [ipv4Of (segment ip 1) (segment ip 2)] else [])

def isRefusedV6 : Bool :=
  isLoopbackV6 ip || isUnspecifiedV6 ip || isLinkLocalV6 ip || isUniqueLocalV6 ip ||
    isMulticastV6 ip

/-- The address a host stands for is in no refused range, nor the ones it embeds; and a name is
not a spelling of an IPv4 address. -/
def AllowedAddress : Host → Prop
  | .domain name => endsInANumber name = false
  | .ipv4 ip => isRefusedV4 ip = false
  | .ipv6 ip => isRefusedV6 ip = false ∧ ∀ v4 ∈ embedded ip, isRefusedV4 v4 = false

/-! ## What the checks say -/

theorem validateIpv4_eq_ok {ip : Ipv4} (h : validateIpv4 ip = .ok ()) : isRefusedV4 ip = false := by
  unfold validateIpv4 at h
  split at h
  · cases h
  · next hno => exact eq_false_of_ne_true hno

theorem segment_zero_of_take {ip : Ipv6} {g : Fin 65536} {gs : List (Fin 65536)}
    (h : ip.segments.take 6 = g :: gs) : segment ip 0 = g := by
  obtain ⟨segments, hlen⟩ := ip
  match segments with
  | [] => cases h
  | _ :: _ => exact (List.cons.inj h).1

theorem allowed_of_validateIpv6 {ip : Ipv6} (h : validateIpv6 ip = .ok ()) :
    isRefusedV6 ip = false ∧ ∀ v4 ∈ embedded ip, isRefusedV4 v4 = false := by
  unfold validateIpv6 at h
  split at h
  · cases h
  next hown =>
  have hown := eq_false_of_ne_true hown
  have hkind : isMulticastV6 ip = false → isRefusedV6 ip = false := by
    intro hm
    unfold isRefusedV6
    rw [hown, hm]
    rfl
  split at h
  · next hp =>
    have h0 := segment_zero_of_take hp
    refine ⟨hkind (by unfold isMulticastV6; rw [h0]; decide), ?_⟩
    simp [embedded, hp, h0, validateIpv4_eq_ok h]
  split at h
  · next hp =>
    have h0 := segment_zero_of_take hp
    refine ⟨hkind (by unfold isMulticastV6; rw [h0]; decide), ?_⟩
    simp [embedded, hp, h0, validateIpv4_eq_ok h]
  split at h
  · next hp =>
    have h0 := segment_zero_of_take hp
    refine ⟨hkind (by unfold isMulticastV6; rw [h0]; decide), ?_⟩
    simp [embedded, hp, h0, validateIpv4_eq_ok h]
  next hmapped hcompatible hnat64 =>
  split at h
  · next h0 =>
    refine ⟨hkind (by unfold isMulticastV6; rw [h0]; decide), ?_⟩
    simp [embedded, hmapped, hcompatible, hnat64, h0, validateIpv4_eq_ok h]
  split at h
  · cases h
  · next h0 hm =>
    refine ⟨hkind (eq_false_of_ne_true hm), ?_⟩
    simp [embedded, hmapped, hcompatible, hnat64, h0]

section Production

variable {options : UrlValidationOptions} (hprod : options.isProduction = true)
include hprod

theorem allowed_of_validateIpAddress {ip : IpAddr} (h : validateIpAddress ip options = .ok ()) :
    match ip with
    | .v4 ip => AllowedAddress (.ipv4 ip)
    | .v6 ip => AllowedAddress (.ipv6 ip) := by
  unfold validateIpAddress at h
  rw [hprod] at h
  simp only [Bool.not_true, Bool.false_and, Bool.false_eq_true, if_false] at h
  split at h
  · cases h
  · cases ip with
    | v4 ip => exact validateIpv4_eq_ok h
    | v6 ip => exact allowed_of_validateIpv6 h

theorem validateHostname_iff {host : Text} : validateHostname host options = .ok () ↔
    lower host ∉ blockedHostnames ∧ ∀ s ∈ blockedHostnameSuffixes, ¬ s <:+ lower host := by
  unfold validateHostname
  rw [hprod]
  simp only [Bool.not_true, Bool.false_and, Bool.false_eq_true, if_false]
  split
  · next hname => simp [hname]
  · next hname =>
    rw [List.any_eq]
    simp [hname, List.isSuffixOf_iff_suffix]

theorem allowed_of_validateHostAddress {host : Host} (hip : ∀ name, host ≠ .domain name)
    (h : validateHostAddress (hostStr host) options = .ok ()) : AllowedAddress host := by
  unfold validateHostAddress at h
  cases host with
  | domain name => exact absurd rfl (hip name)
  | ipv4 ip =>
    have hbare : unbracket ip.text = none := by
      unfold unbracket
      refine if_neg fun hb => ?_
      have hplain := (IpAddr.parse_plain (IpAddr.parse_text_v4 ip)).2 '[' (List.mem_of_head? hb.1)
      exact absurd hplain (by decide)
    simp only [hostStr, hbare, Option.getD_none, IpAddr.parse_text_v4] at h
    exact allowed_of_validateIpAddress hprod h
  | ipv6 ip =>
    have hinner : unbracket ('[' :: (ip.text ++ [']'])) = some ip.text := by
      unfold unbracket
      rw [← List.cons_append, List.getLast?_concat, if_pos ⟨rfl, rfl⟩, List.cons_append,
        List.tail_cons, List.dropLast_concat]
    simp only [hostStr, hinner, Option.getD_some, IpAddr.parse_text_v6] at h
    exact allowed_of_validateIpAddress hprod h

end Production

namespace Standard

variable {std : Standard}

theorem not_number_of_parseHost {t name : Text} (h : std.parseHost t = some (.domain name)) :
    endsInANumber name = false := by
  unfold parseHost at h
  split at h
  · obtain ⟨_, -, h⟩ := Option.bind_eq_some_iff.1 h
    obtain ⟨_, -, h⟩ := Option.map_eq_some_iff.1 h
    nomatch h
  · obtain ⟨d, -, h⟩ := Option.bind_eq_some_iff.1 h
    split at h
    · obtain ⟨_, -, h⟩ := Option.map_eq_some_iff.1 h
      nomatch h
    · next hno =>
      cases h
      exact eq_false_of_ne_true hno

theorem not_number_of_parse {url : Text} {parsed : ParsedUrl} {name : Text}
    (h : std.parse url = .ok parsed) (hspecial : parsed.scheme ∈ specialSchemes)
    (hhost : parsed.host = some (.domain name)) : endsInANumber name = false := by
  unfold parse at h
  cases hraw : std.split url with
  | error e =>
    rw [hraw] at h
    cases h
  | ok raw =>
    rw [hraw] at h
    simp only [bind, Except.bind] at h
    split at h
    · cases h
      cases hhost
    · next t _ =>
      split at h
      · cases h
      · next host hp =>
        cases h
        cases hhost
        rw [if_pos hspecial] at hp
        exact not_number_of_parseHost hp

end Standard

theorem validateScheme_iff {scheme : Text} {host : Option Text} {options : UrlValidationOptions}
    (hprod : options.isProduction = true) :
    validateScheme scheme host options = .ok () ↔ scheme = "https".toList := by
  unfold validateScheme
  rw [hprod]
  split
  · next hs => exact iff_of_true rfl hs
  · next hs => split <;> exact iff_of_false nofun hs

theorem andThen_eq_ok {x y : Except UrlValidationError Unit} :
    (x >>= fun _ => y) = .ok () ↔ x = .ok () ∧ y = .ok () := by
  cases x <;> simp [bind, Except.bind]

theorem accepts_iff {std : Standard} {dns : Text → Nat → Option (List IpAddr)} {url : Text}
    {options : UrlValidationOptions} (hprod : options.isProduction = true) :
    validateWebhookUrl std dns url options = .ok () ↔ ∃ parsed host,
      std.parse url = .ok parsed ∧ parsed.scheme = "https".toList ∧ parsed.host = some host ∧
        validateHostname (hostStr host) options = .ok () ∧
        validateHostAddress (hostStr host) options = .ok () ∧
        (options.checkDnsResolution = true →
          validateDnsResolution dns (hostStr host) parsed.port options = .ok ()) := by
  unfold validateWebhookUrl
  cases std.parse url with
  | error e => simp [Except.mapError, bind, Except.bind]
  | ok parsed =>
    refine Iff.trans (b := _ ∧ _) andThen_eq_ok ?_
    rw [validateScheme_iff hprod]
    cases hhost : parsed.host with
    | none => simp [hhost]
    | some host =>
      simp only [andThen_eq_ok, Except.ok.injEq, exists_and_left, exists_eq_left', hhost,
        Option.some.injEq]
      by_cases hdns : options.checkDnsResolution = true <;> simp [hdns, pure, Except.pure]

/-! ## Names with a dot at the end -/

def IsDotted (t : Text) : Prop := t.getLast? = some '.' ∧ IsBlockedName t

theorem lower_getLast {t : Text} (h : t.getLast? = some '.') : (lower t).getLast? = some '.' := by
  unfold lower
  rw [List.getLast?_map, h]
  rfl

theorem passes_lists_of_dot {options : UrlValidationOptions} (hprod : options.isProduction = true)
    {host : Text} (h : host.getLast? = some '.') : validateHostname host options = .ok () := by
  have hend : ∀ s ∈ blockedHostnames ++ blockedHostnameSuffixes,
      s ≠ [] ∧ s.getLast? ≠ some '.' := by decide +kernel
  refine (validateHostname_iff hprod).2 ⟨fun hname => ?_, fun s hs hsuffix => ?_⟩
  · exact (hend _ (List.mem_append_left _ hname)).2 (lower_getLast h)
  · obtain ⟨hne, hlast⟩ := hend s (List.mem_append_right _ hs)
    obtain ⟨pre, hpre⟩ := hsuffix
    have := lower_getLast h
    rw [← hpre, List.getLast?_append_of_ne_nil _ hne] at this
    exact hlast this

theorem blocked_iff_dotted {options : UrlValidationOptions} (hprod : options.isProduction = true)
    {host : Text} (h : validateHostname host options = .ok ()) :
    IsBlockedName host ↔ IsDotted host := by
  refine ⟨fun hb => ⟨?_, hb⟩, And.right⟩
  by_contra hdot
  obtain ⟨hname, hsuffix⟩ := (validateHostname_iff hprod).1 h
  unfold IsBlockedName dropDot at hb
  rw [if_neg hdot] at hb
  rcases hb with hb | ⟨s, hs, hb⟩
  · exact hname hb
  · exact hsuffix s hs hb

theorem eq_of_toLower {c d : Char} (h : c.toLower = d) (hd : d.isAlpha = false) : c = d := by
  unfold Char.toLower at h
  split at h
  · next hup =>
    exfalso
    subst h
    simp only [Char.isAlpha, Char.isUpper, Char.isLower, ge_iff_le, UInt32.le_iff_toNat_le,
      Bool.or_eq_false_iff, decide_eq_false_iff_not] at hup hd
    simp at hup hd
    omega
  · exact h

theorem lower_eq_self {t : Text} (h : (lower t).any Char.isAlpha = false) : lower t = t := by
  unfold lower at h ⊢
  refine (List.map_congr_left fun c hc => ?_).trans t.map_id
  exact (eq_of_toLower rfl (eq_false_of_ne_true
    (List.any_eq_false.1 h _ (List.mem_map_of_mem hc)))).symm

theorem isPlain_toLower {c : Char} (h : Ip.isPlain c = true) : Ip.isPlain c.toLower = true := by
  have hall : ∀ n < 103, Ip.isPlain (Char.ofNat n) = true →
      Ip.isPlain (Char.ofNat n).toLower = true := by decide +kernel
  have hlt : c.toNat < 103 := by
    by_contra hge
    have hhex : hexVal c = none := by
      unfold hexVal
      rw [if_neg (by omega), if_neg (by omega), if_neg (by omega)]
    have hc : c ≠ ':' ∧ c ≠ '.' := by
      constructor <;> (rintro rfl; exact hge (by decide))
    simp [Ip.isPlain, isDigitOf, digitVal, hhex, hc] at h
  have hat := hall c.toNat hlt
  rw [Char.ofNat_toNat] at hat
  exact hat h

def blockedNumbers : List Text :=
  ["169.254.169.254", "169.254.170.2", "168.63.129.16", "169.254.169.123"].map String.toList

/-- A dotted name is no address: the names have other letters, and the standard has made an
address of the numbers. -/
theorem parse_dotted {name : Text} (hnum : endsInANumber name = false) (h : IsDotted name) :
    IpAddr.parse name = none := by
  obtain ⟨hlast, hblocked⟩ := h
  cases hip : IpAddr.parse name with
  | none => rfl
  | some ip =>
    exfalso
    have hplain : (lower (dropDot name)).all Ip.isPlain = true := by
      refine List.all_eq_true.2 fun c hc => ?_
      obtain ⟨c', hc', rfl⟩ := List.mem_map.1 hc
      rw [dropDot, if_pos hlast] at hc'
      exact isPlain_toLower ((IpAddr.parse_plain hip).2 c' (List.mem_of_mem_dropLast hc'))
    have hnames : ∀ s ∈ blockedHostnames, s.all Ip.isPlain = true → s ∈ blockedNumbers := by
      decide +kernel
    have hsuffixes : ∀ s ∈ blockedHostnameSuffixes, s.all Ip.isPlain = false := by decide +kernel
    have hends : ∀ s ∈ blockedNumbers,
        s.any Char.isAlpha = false ∧ endsInANumber (s ++ ['.']) = true := by decide +kernel
    rcases hblocked with hmem | ⟨s, hs, hsuffix⟩
    · obtain ⟨halpha, hend⟩ := hends _ (hnames _ hmem hplain)
      rw [lower_eq_self halpha, dropDot, if_pos hlast, List.dropLast_append_getLast? _ hlast,
        hnum] at hend
      exact absurd hend (by decide)
    · have hs' : s.all Ip.isPlain = true :=
        List.all_eq_true.2 fun c hc => List.all_eq_true.1 hplain c (hsuffix.subset hc)
      rw [hsuffixes s hs] at hs'
      cases hs'

/-! ## The two halves -/

theorem accepted_address_allowed {std : Standard} {dns : Text → Nat → Option (List IpAddr)}
    {url : Text} {options : UrlValidationOptions} (hprod : options.isProduction = true)
    (h : validateWebhookUrl std dns url options = .ok ()) :
    ∃ parsed host, std.parse url = .ok parsed ∧ parsed.host = some host ∧ AllowedAddress host := by
  obtain ⟨parsed, host, hparse, hscheme, hhost, -, haddress, -⟩ := (accepts_iff hprod).1 h
  refine ⟨parsed, host, hparse, hhost, ?_⟩
  by_cases hip : ∃ name, host = .domain name
  · obtain ⟨name, rfl⟩ := hip
    exact Standard.not_number_of_parse hparse (by rw [hscheme]; decide) hhost
  · exact allowed_of_validateHostAddress hprod (not_exists.1 hip) haddress

theorem domain_of_dot {host : Host} (h : (hostStr host).getLast? = some '.') :
    ∃ name, host = .domain name := by
  cases host with
  | domain name => exact ⟨name, rfl⟩
  | ipv4 ip =>
    obtain ⟨c, hc⟩ := Option.isSome_iff_exists.1
      (List.getLast?_isSome.2 (@numeral_ne_nil 10 2 ip.d.val))
    have hdigit := isDigitOf_numeral (by decide) (by decide) c (List.mem_of_getLast? hc)
    have hdot : c = '.' := by
      simpa [hostStr, Ip.text_v4, List.getLast?_append, List.getLast?_cons, hc] using h
    subst hdot
    exact absurd hdigit (by decide)
  | ipv6 ip =>
    rw [hostStr, ← List.cons_append, List.getLast?_concat] at h
    cases h

/-- The URL is of the scheme `https`, and its host is a blocked name with a dot at its end. -/
def HasDottedHost (std : Standard) (url : Text) : Prop :=
  ∃ parsed host, std.parse url = .ok parsed ∧ parsed.scheme = "https".toList ∧
    parsed.host = some host ∧ IsDotted (hostStr host)

/-- Every name resolves to a public address, and an address in brackets to itself. -/
def publicDns : Text → Nat → Option (List IpAddr) := fun host _ =>
  match unbracket host with
  | some inner => (IpAddr.parse inner).map ([·])
  | none => some [.v4 ⟨8, 8, 8, 8⟩]

theorem dotted_accepted {std : Standard} {url : Text} {options : UrlValidationOptions}
    (hprod : options.isProduction = true) (h : HasDottedHost std url) :
    validateWebhookUrl std publicDns url options = .ok () := by
  obtain ⟨parsed, host, hparse, hscheme, hhost, hdot⟩ := h
  obtain ⟨name, rfl⟩ := domain_of_dot hdot.1
  have hnum := Standard.not_number_of_parse hparse (by rw [hscheme]; decide) hhost
  have hbare : unbracket name = none := by
    unfold unbracket
    refine if_neg fun hb => ?_
    exact absurd (hdot.1.symm.trans hb.2) (by decide)
  have hip := parse_dotted hnum hdot
  refine (accepts_iff hprod).2
    ⟨parsed, _, hparse, hscheme, hhost, passes_lists_of_dot hprod hdot.1, ?_, fun _ => ?_⟩
  · simp only [validateHostAddress, hostStr, hbare, Option.getD_none, hip]
  · have hpublic : validateIpAddress (.v4 ⟨8, 8, 8, 8⟩) options = .ok () := by
      unfold validateIpAddress
      rw [hprod]
      rfl
    simp [validateDnsResolution, hostStr, hip, publicDns, hbare, hpublic]

/-- **The URL policy looks at what a host means.** A URL that is accepted in production has a
host that stands for no refused address, in whatever spelling. It has no blocked name either,
whatever the DNS answers, if and only if that is not written with a dot at its end. -/
theorem accepted_host_allowed (std : Standard) (url : Text) {options : UrlValidationOptions}
    (hprod : options.isProduction = true) :
    (∀ dns, validateWebhookUrl std dns url options = .ok () → ∃ parsed host,
        std.parse url = .ok parsed ∧ parsed.host = some host ∧ AllowedAddress host) ∧
      ((∀ dns, validateWebhookUrl std dns url options = .ok () → ∃ parsed host,
          std.parse url = .ok parsed ∧ parsed.host = some host ∧ ¬ IsBlockedName (hostStr host)) ↔
        ¬ HasDottedHost std url) := by
  refine ⟨fun dns => accepted_address_allowed hprod, fun hall hdot => ?_, fun hdot dns h => ?_⟩
  · obtain ⟨parsed, host, hparse, hhost, hfree⟩ := hall publicDns (dotted_accepted hprod hdot)
    obtain ⟨parsed', host', hparse', -, hhost', -, hblocked⟩ := hdot
    cases hparse.symm.trans hparse'
    cases hhost.symm.trans hhost'
    exact hfree hblocked
  · obtain ⟨parsed, host, hparse, hscheme, hhost, hname, -⟩ := (accepts_iff hprod).1 h
    refine ⟨parsed, host, hparse, hhost, fun hblocked => ?_⟩
    exact hdot ⟨parsed, host, hparse, hscheme, hhost, (blocked_iff_dotted hprod hname).1 hblocked⟩

/-- A standard for URLs of the form `https://host`. -/
def plainHttps : Standard where
  split url := match "https://".toList.isPrefixOf url with
    | true => .ok ⟨"https".toList, some (url.drop 8), 443⟩
    | false => .error "relative URL without a base".toList
  domainToAscii t := some (lower t)
  otherHost := some
  hostError _ := "invalid host".toList

def production : UrlValidationOptions := ⟨true, false, true⟩

theorem accepted_host_allowed_public :
    validateWebhookUrl plainHttps publicDns "https://[2001:DB8::1]".toList production = .ok () ∧
      (∃ parsed host, plainHttps.parse "https://[2001:DB8::1]".toList = .ok parsed ∧
        parsed.host = some host ∧ AllowedAddress host) ∧
      ¬ ∀ dns, validateWebhookUrl plainHttps dns "https://LOCALHOST.".toList production = .ok () →
        ∃ parsed host, plainHttps.parse "https://LOCALHOST.".toList = .ok parsed ∧
          parsed.host = some host ∧ ¬ IsBlockedName (hostStr host) := by
  have hok : validateWebhookUrl plainHttps publicDns "https://[2001:DB8::1]".toList production =
      .ok () := by decide +kernel
  refine ⟨hok, (accepted_host_allowed plainHttps _ rfl).1 publicDns hok, fun hall => ?_⟩
  refine (@accepted_host_allowed plainHttps _ production rfl).2.1 hall ?_
  exact ⟨⟨"https".toList, some (.domain "localhost.".toList), 443⟩, _, rfl, rfl, rfl, rfl,
    .inl (by decide)⟩

/-- Loopback and the metadata address, spelled in other ways. -/
example : ∀ url ∈ ["https://0x7f.1", "https://017700000001", "https://2852039166.",
      "https://[::ffff:169.254.169.254]", "https://[64:FF9B::7f00:1]"],
    validateWebhookUrl plainHttps publicDns url.toList production = .error privateIpAddress ∨
      validateWebhookUrl plainHttps publicDns url.toList production = .error blockedHostname := by
  decide +kernel

/-- A dot at the end of a name, and neither list has it. -/
theorem dot_passes_lists :
    validateWebhookUrl plainHttps publicDns "https://LOCALHOST.".toList production = .ok () ∧
      plainHttps.parseHost "LOCALHOST.".toList = some (.domain "localhost.".toList) ∧
      lower (dropDot "localhost.".toList) ∈ blockedHostnames := by
  decide +kernel

end Spooled.WebhookUrl
