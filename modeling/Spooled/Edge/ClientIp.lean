import Spooled.Lib.Ip

/-!
# The client id of a request

`client_ip.rs`: which address a request is counted on, and the proxies in front
of the server. Each of them writes the address of its peer to `X-Forwarded-For`.
The server reads the first line of that header only, and takes the entry that is
as far from the right as it has proxies: the one its outermost proxy wrote, as
long as all of them wrote to the line that is read.
-/

namespace Spooled.Edge

open List

/-! ## Headers -/

/-- A header value, byte by byte: the byte `n` as the character `n`. -/
abbrev HeaderValue := Text

/-- Lines in the order they came in; names in lower case. -/
abbrev Headers := List (String × HeaderValue)

def Headers.lines (h : Headers) (name : String) : List HeaderValue :=
  (h.filter fun x => x.1 == name).map (·.2)

/-- `HeaderMap::get`: the first line. -/
def Headers.get (h : Headers) (name : String) : Option HeaderValue := (h.lines name).head?

/-- `is_visible_ascii` of a header value. -/
def isVisible (c : Char) : Bool := (32 ≤ c.toNat && c.toNat < 127) || c.toNat == 9

/-- `HeaderValue::to_str`. -/
def toStr (v : HeaderValue) : Option Text := if v.all isVisible then some v else none

/-! ## Addresses -/

def lastV4 (g h : Fin 65536) : Ipv4 :=
  ⟨Fin.ofNat 256 (g.val / 256), Fin.ofNat 256 g.val, Fin.ofNat 256 (h.val / 256),
    Fin.ofNat 256 h.val⟩

/-- `to_canonical`: an IPv4-mapped address is the IPv4 address. -/
def canonical : IpAddr → IpAddr
  | .v4 ip => .v4 ip
  | .v6 ip => match ip.segments with
    | [0, 0, 0, 0, 0, 65535, g, h] => .v4 (lastV4 g h)
    | _ => .v6 ip

def isInternalV4 (ip : Ipv4) : Bool :=
  ip.a == 127 || ip.a == 10 || (ip.a == 172 && 16 ≤ ip.b.val && ip.b.val ≤ 31) ||
    (ip.a == 192 && ip.b == 168) || (ip.a == 169 && ip.b == 254)

def isInternalV6 (ip : Ipv6) : Bool :=
  let first := (ip.segments.headD 0).val
  ip.segments == [0, 0, 0, 0, 0, 0, 0, 1] || first &&& 0xfe00 == 0xfc00 ||
    first &&& 0xffc0 == 0xfe80

/-- `is_internal_peer`: loopback, private, link-local or unique-local. -/
def isInternalPeer (peer : IpAddr) : Bool :=
  match canonical peer with
  | .v4 ip => isInternalV4 ip
  | .v6 ip => isInternalV6 ip

/-- The /64 of an IPv6 address. -/
def prefix64 (ip : Ipv6) : Ipv6 where
  segments := ip.segments.take 4 ++ [0, 0, 0, 0]
  length_eq := by
    rw [length_append, length_take, ip.length_eq]
    rfl

def idOf (ip : IpAddr) : Text :=
  match canonical ip with
  | .v4 ip => ip.text
  | .v6 ip => (prefix64 ip).text ++ "/64".toList

/-- `rate_limit_id`; what is no address is kept as it came. -/
def rateLimitId (addr : Text) : Text :=
  match IpAddr.parse addr with
  | some ip => idOf ip
  | none => addr

def textOf : IpAddr → Text
  | .v4 ip => ip.text
  | .v6 ip => ip.text

/-! ## Resolving the client -/

structure TrustedProxySettings where
  clientIpHeader : Option String := none
  forwardedHops : Nat := 0

def unknownClient : Text := "unknown".toList

def maxIpLen : Nat := 45

/-- White space, of the characters a decoded header has. -/
def isBlank (c : Char) : Bool := c == ' ' || c == '\t'

def trim (t : Text) : Text := ((t.dropWhile isBlank).reverse.dropWhile isBlank).reverse

/-- `sanitize`. -/
def sanitize (raw : Text) : Option Text :=
  if trim raw = [] ∨ maxIpLen < (trim raw).length then none else some (trim raw)

variable (headers : Headers) (peer : Option IpAddr) (settings : TrustedProxySettings)

/-- `header_value`. -/
def headerValue (name : String) : Option Text :=
  ((headers.get name).bind toStr).bind sanitize

/-- The entry that many places from the right of the first `X-Forwarded-For` line. -/
def forwarded (headers : Headers) (hops : Nat) : Option Text :=
  if 0 < hops then do
    let line ← (headers.get "x-forwarded-for").bind toStr
    let entries := line.splitOn ','
    if hops ≤ entries.length then entries[entries.length - hops]?.bind sanitize else none
  else none

/-- The edge header that is configured, or those of a proxy next to the server. -/
def edgeHeader :
    Option Text :=
  match settings.clientIpHeader with
  | some name => headerValue headers name
  | none =>
    if peer.all isInternalPeer then
      (headerValue headers "cf-connecting-ip").or (headerValue headers "x-real-ip")
    else none

/-- `resolve_client_addr`. -/
def resolveClientAddr : Option Text :=
  ((edgeHeader headers peer settings).or (forwarded headers settings.forwardedHops)).or
    (peer.map fun peer => textOf (canonical peer))

/-- `client_ip_from_peer`. -/
def clientIpFromPeer : Text :=
  ((resolveClientAddr headers peer settings).map rateLimitId).getD unknownClient

/-! ## Proxies -/

/-- What a proxy writes: a textual address of its peer, on a new line or after the last one
with a comma and some blanks. -/
structure Hop where
  entry : Text
  newLine : Bool := false
  blanks : Nat := 1

def Hop.entryText (hop : Hop) : Text := List.replicate hop.blanks ' ' ++ hop.entry

/-- The lines of `X-Forwarded-For` behind the proxy. -/
def Hop.add (lines : List HeaderValue) (hop : Hop) : List HeaderValue :=
  match lines.getLast? with
  | some last =>
    if hop.newLine then lines ++ [hop.entry]
    else lines.dropLast ++ [last ++ ',' :: hop.entryText]
  | none => [hop.entry]

/-- A request that reaches the server through `n` proxies, of which the outermost one saw the
address `client`. -/
structure Arrival (n : Nat) (client : IpAddr) where
  headers : Headers
  /-- The lines of `X-Forwarded-For` that the client itself sent. -/
  clientLines : List HeaderValue
  /-- Outermost first. -/
  hops : List Hop
  length_hops : hops.length = n
  spelled : ∀ hop ∈ hops, (IpAddr.parse hop.entry).isSome
  outermost : ∀ hop ∈ hops.head?, IpAddr.parse hop.entry = some client
  lines : headers.lines "x-forwarded-for" = hops.foldl Hop.add clientLines
  noEdge : headers.lines "cf-connecting-ip" = [] ∧ headers.lines "x-real-ip" = []

/-- The client sent at most one line, which decodes, and every proxy wrote to the same line: to
the client's, or to the one that the outermost proxy began. -/
structure Arrival.OneLine {n : Nat} {client : IpAddr} (r : Arrival n client) : Prop where
  few : r.clientLines.length ≤ 1
  visible : ∀ line ∈ r.clientLines, line.all isVisible = true
  appended : ∀ hop ∈ r.hops.tail, hop.newLine = false
  first : r.clientLines ≠ [] → ∀ hop ∈ r.hops.head?, hop.newLine = false

/-- The client sent the same lines, and each proxy begins a line where its counterpart does. -/
structure Arrival.SameWay {n : Nat} {client client' : IpAddr} (r : Arrival n client)
    (r' : Arrival n client') : Prop where
  lines : r'.clientLines = r.clientLines
  hops : r'.hops.map (·.newLine) = r.hops.map (·.newLine)

/-! ## One line -/

def appendix (hops : List Hop) : Text := hops.flatMap fun hop => ',' :: hop.entryText

/-- Proxies write to the last line: the first one gets what they write before a line is begun. -/
theorem head_foldl_add (hops : List Hop) (line : Text) (lines : List HeaderValue) :
    (hops.foldl Hop.add (line :: lines)).head? =
      some (if lines = [] then line ++ appendix (hops.takeWhile (!·.newLine)) else line) := by
  induction hops generalizing line lines with
  | nil => simp [appendix]
  | cons hop hops ih =>
    rw [foldl_cons]
    cases lines with
    | nil =>
      cases hnew : hop.newLine with
      | true => simp [Hop.add, hnew, ih, appendix]
      | false => simp [Hop.add, hnew, ih, appendix]
    | cons next lines =>
      have hadd : ∃ rest, Hop.add (line :: next :: lines) hop = line :: rest ∧ rest ≠ [] := by
        unfold Hop.add
        rw [getLast?_eq_some_getLast (cons_ne_nil _ _)]
        dsimp only
        split
        · exact ⟨next :: lines ++ [hop.entry], rfl, by simp⟩
        · exact ⟨(next :: lines).dropLast ++ _, rfl, by simp⟩
      obtain ⟨rest, hadd, hrest⟩ := hadd
      rw [hadd, ih, if_neg hrest, if_neg (cons_ne_nil _ _)]

theorem code_of_plain {c : Char} (h : Ip.isPlain c = true) :
    (48 ≤ c.toNat ∧ c.toNat ≤ 58) ∨ (65 ≤ c.toNat ∧ c.toNat ≤ 70) ∨
      (97 ≤ c.toNat ∧ c.toNat ≤ 102) ∨ c.toNat = 46 := by
  simp only [Ip.isPlain, Bool.or_eq_true, beq_iff_eq] at h
  rcases h with (h | rfl) | rfl
  · unfold isDigitOf digitVal hexVal at h
    simp only at h
    split at h
    · omega
    split at h
    · omega
    split at h
    · omega
    · cases h
  · decide
  · decide

theorem isVisible_of_plain {c : Char} (h : Ip.isPlain c = true) : isVisible c = true := by
  have hcode := code_of_plain h
  simp only [isVisible, Bool.or_eq_true, Bool.and_eq_true, decide_eq_true_eq, beq_iff_eq]
  omega

theorem isBlank_of_plain {c : Char} (h : Ip.isPlain c = true) : isBlank c = false := by
  have hcode := code_of_plain h
  have hne : ∀ d : Char, d.toNat = 32 ∨ d.toNat = 9 → c ≠ d := by
    rintro d hd rfl
    omega
  simp only [isBlank, Bool.or_eq_false_iff, beq_eq_false_iff_ne]
  exact ⟨hne ' ' (.inl rfl), hne '\t' (.inr rfl)⟩

theorem ne_comma_of_plain {c : Char} (h : Ip.isPlain c = true) : c ≠ ',' := by
  have hcode := code_of_plain h
  rintro rfl
  revert hcode
  decide

/-! ## Entries -/

/-- A textual address, for which it does not matter how it is spelled. -/
def Spelled (t : Text) : Prop := (IpAddr.parse t).isSome

theorem Spelled.plain {t : Text} (h : Spelled t) : ∀ c ∈ t, Ip.isPlain c = true := by
  obtain ⟨ip, hip⟩ := Option.isSome_iff_exists.1 h
  exact (IpAddr.parse_plain hip).2

theorem Spelled.ne_nil {t : Text} (h : Spelled t) : t ≠ [] := by
  rintro rfl
  revert h
  unfold Spelled
  decide

theorem dropWhile_eq_self {p : Char → Bool} {t : Text} (h : ∀ c ∈ t, p c = false) :
    t.dropWhile p = t := by
  cases t with
  | nil => rfl
  | cons c t => rw [dropWhile_cons_of_neg (by simp [h c mem_cons_self])]

theorem trim_entry {t : Text} (h : Spelled t) (n : Nat) : trim (List.replicate n ' ' ++ t) = t := by
  have hplain : ∀ c ∈ t, isBlank c = false := fun c hc => isBlank_of_plain (h.plain c hc)
  have hblank : ∀ c ∈ List.replicate n ' ', isBlank c = true := by
    intro c hc
    rw [eq_of_mem_replicate hc]
    decide
  unfold trim
  rw [dropWhile_append_of_pos hblank, dropWhile_eq_self hplain,
    dropWhile_eq_self fun c hc => hplain c (mem_reverse.1 hc), reverse_reverse]

theorem sanitize_entry {t : Text} (h : Spelled t) (n : Nat) :
    sanitize (List.replicate n ' ' ++ t) = some t := by
  obtain ⟨ip, hip⟩ := Option.isSome_iff_exists.1 h
  have hlen := (IpAddr.parse_plain hip).1
  have hne := h.ne_nil
  unfold sanitize
  rw [trim_entry h, if_neg]
  unfold maxIpLen
  simp only [hne, false_or]
  omega

/-- Entries are separated by the commas of the line, and have none themselves. -/
theorem splitOn_appendix {hops : List Hop} (h : ∀ hop ∈ hops, Spelled hop.entry) (line : Text) :
    (line ++ appendix hops).splitOn ',' = line.splitOn ',' ++ hops.map Hop.entryText := by
  induction hops generalizing line with
  | nil => simp [appendix]
  | cons hop hops ih =>
    have hhop := h hop mem_cons_self
    have hcomma : ∀ c ∈ hop.entryText, (c == ',') = false := by
      intro c hc
      refine beq_false_of_ne ?_
      rcases mem_append.1 hc with hc | hc
      · rw [eq_of_mem_replicate hc]
        decide
      · exact ne_comma_of_plain (hhop.plain c hc)
    have hone : hop.entryText.splitOn ',' = [hop.entryText] := by
      unfold List.splitOn
      exact splitOnP_eq_singleton hcomma
    have hsplit : (line ++ ',' :: hop.entryText).splitOn ',' =
        line.splitOn ',' ++ [hop.entryText] := by
      rw [← hone]
      exact splitOnP_append_cons _ _ (by decide)
    have happ : line ++ appendix (hop :: hops) = (line ++ ',' :: hop.entryText) ++ appendix hops := by
      simp [appendix]
    rw [happ, ih (fun hop hmem => h hop (mem_cons_of_mem _ hmem)), hsplit, map_cons,
      append_assoc]
    rfl

theorem visible_appendix {hops : List Hop} (h : ∀ hop ∈ hops, Spelled hop.entry) :
    ∀ c ∈ appendix hops, isVisible c = true := by
  intro c hc
  obtain ⟨hop, hmem, hc⟩ := mem_flatMap.1 hc
  rcases mem_cons.1 hc with rfl | hc
  · decide
  · rcases mem_append.1 hc with hc | hc
    · rw [eq_of_mem_replicate hc]
      decide
    · exact isVisible_of_plain ((h hop hmem).plain c hc)

/-! ## The id -/

theorem splitOn_entry {t : Text} (h : Spelled t) : t.splitOn ',' = [t] := by
  unfold List.splitOn
  exact splitOnP_eq_singleton fun c hc => beq_false_of_ne (ne_comma_of_plain (h.plain c hc))

theorem Spelled.visible {t : Text} (h : Spelled t) : t.all isVisible = true :=
  all_eq_true.2 fun c hc => isVisible_of_plain (h.plain c hc)

theorem forwarded_eq {headers : Headers} {line : Text} {own : List Hop} {n : Nat} (hn : 0 < n)
    (hget : headers.get "x-forwarded-for" = some (line ++ appendix own))
    (hline : line.all isVisible = true) (hown : ∀ hop ∈ own, Spelled hop.entry) :
    forwarded headers n = if n ≤ (line.splitOn ',').length + own.length then
      (line.splitOn ',' ++ own.map Hop.entryText)[(line.splitOn ',').length + own.length - n]?.bind
        sanitize else none := by
  have hvisible : (line ++ appendix own).all isVisible = true := by
    rw [all_append, hline, Bool.true_and, all_eq_true]
    exact visible_appendix hown
  unfold forwarded toStr
  rw [if_pos hn, hget]
  simp only [Option.bind_some, hvisible, if_true, Option.bind_eq_bind, splitOn_appendix hown,
    length_append, length_map]

namespace Arrival

variable {n : Nat} {client client' : IpAddr} {r : Arrival n client} {r' : Arrival n client'}

theorem get_eq (r : Arrival n client) :
    r.headers.get "x-forwarded-for" = (r.hops.foldl Hop.add r.clientLines).head? := by
  unfold Headers.get
  rw [r.lines]

theorem exists_outermost (r : Arrival n client) (hn : 0 < n) :
    ∃ hop hops, r.hops = hop :: hops ∧ 1 + hops.length = n := by
  have hlen := r.length_hops
  cases hr : r.hops with
  | nil =>
    rw [hr] at hlen
    exact absurd hlen (Nat.ne_of_lt hn)
  | cons hop hops => exact ⟨hop, hops, rfl, by rw [← hlen, hr, length_cons, Nat.add_comm]⟩

theorem OneLine.forwarded (h : r.OneLine) (hn : 0 < n) :
    ∃ first, Edge.forwarded r.headers n = some first ∧ IpAddr.parse first = some client := by
  obtain ⟨hop, hops, hhops, hlen⟩ := r.exists_outermost hn
  have hspelled : ∀ x ∈ hop :: hops, Spelled x.entry := hhops ▸ r.spelled
  have hhop := hspelled hop mem_cons_self
  have happended : ∀ x ∈ hops, x.newLine = false := by
    intro x hx
    exact h.appended x (by rw [hhops]; exact hx)
  have hget := r.get_eq
  rw [hhops] at hget
  refine ⟨hop.entry, ?_, r.outermost hop (by rw [hhops]; rfl)⟩
  match hown : r.clientLines with
  | [] =>
    -- the outermost proxy began the line
    have hstart : Hop.add [] hop = [hop.entry] := rfl
    rw [hown, foldl_cons, hstart, head_foldl_add, if_pos rfl,
      takeWhile_eq_self_iff.2 (by simpa using happended)] at hget
    rw [forwarded_eq hn hget hhop.visible fun x hx => hspelled x (mem_cons_of_mem _ hx),
      splitOn_entry hhop, length_singleton, hlen, if_pos (Nat.le_refl n), Nat.sub_self]
    exact sanitize_entry hhop 0
  | [line] =>
    have hold : hop.newLine = false :=
      h.first (by rw [hown]; exact cons_ne_nil _ _) hop (by rw [hhops]; rfl)
    rw [hown, head_foldl_add, if_pos rfl,
      takeWhile_eq_self_iff.2 (by simpa using ⟨hold, happended⟩)] at hget
    rw [forwarded_eq hn hget (h.visible line (by rw [hown]; exact mem_singleton_self _)) hspelled,
      length_cons, Nat.add_comm hops.length, hlen, if_pos (Nat.le_add_left _ _),
      Nat.add_sub_cancel_right, getElem?_append_right (Nat.le_refl _), Nat.sub_self]
    exact sanitize_entry hhop hop.blanks
  | _ :: _ :: _ =>
    have hfew := h.few
    rw [hown] at hfew
    exact absurd hfew (by simp)

/-! ## Several lines -/

/-- What is read when the entries of `k` proxies are on the client's first line, and those of the
others are not: an entry of the client, or nothing. -/
def ownEntry (n k : Nat) (lines : List HeaderValue) : Option Text := do
  let line ← lines.head?.bind toStr
  let entries := line.splitOn ','
  if n ≤ entries.length + k then entries[entries.length + k - n]?.bind sanitize else none

/-- How many proxies write to the client's first line. -/
def onFirst (r : Arrival n client) : Nat :=
  if r.clientLines.length = 1 then ((r.hops.map (·.newLine)).takeWhile (!·)).length else 0

theorem length_takeWhile_lt {hops : List Hop} (h : ¬ ∀ hop ∈ hops, hop.newLine = false) :
    (hops.takeWhile (!·.newLine)).length < hops.length := by
  refine Nat.lt_of_le_of_ne (takeWhile_sublist _).length_le fun heq => h fun hop hmem => ?_
  have hall := takeWhile_eq_self_iff.1 ((takeWhile_sublist _).eq_of_length heq)
  simpa using hall hop hmem

theorem forwarded_of_not_oneLine (hn : 0 < n) (h : ¬ r.OneLine) :
    Edge.forwarded r.headers n = ownEntry n r.onFirst r.clientLines := by
  have hspelled : ∀ x ∈ r.hops, Spelled x.entry := r.spelled
  have hget := r.get_eq
  match hown : r.clientLines with
  | [] =>
    -- a later proxy begins another line, so the first one has too few entries
    obtain ⟨hop, hops, hhops, hlen⟩ := r.exists_outermost hn
    have hnew : ¬ ∀ x ∈ hops, x.newLine = false := by
      refine fun hall => h ⟨by simp [hown], by simp [hown], ?_, fun hne => absurd hown hne⟩
      rw [hhops]
      exact hall
    have hshort := length_takeWhile_lt hnew
    have hstart : Hop.add [] hop = [hop.entry] := rfl
    rw [hown, hhops, foldl_cons, hstart, head_foldl_add, if_pos rfl] at hget
    rw [hhops] at hspelled
    have hhop := hspelled hop mem_cons_self
    rw [forwarded_eq hn hget hhop.visible fun x hx =>
      hspelled x (mem_cons_of_mem _ ((takeWhile_sublist _).subset hx)), splitOn_entry hhop, if_neg]
    · rfl
    · rw [length_singleton]
      omega
  | [line] =>
    rw [hown, head_foldl_add, if_pos rfl] at hget
    cases hline : line.all isVisible with
    | false => simp [Edge.forwarded, hget, toStr, hline, ownEntry, all_append]
    | true =>
      have hnew : ¬ ∀ x ∈ r.hops, x.newLine = false := fun hall =>
        h ⟨by simp [hown], by simpa [hown] using hline, fun x hx => hall x (mem_of_mem_tail hx),
          fun _ x hx => hall x (mem_of_mem_head? hx)⟩
      have hshort := length_takeWhile_lt hnew
      rw [r.length_hops] at hshort
      have hk : r.onFirst = (r.hops.takeWhile (!·.newLine)).length := by
        simp [onFirst, hown, takeWhile_map, Function.comp_def]
      rw [forwarded_eq hn hget hline fun x hx => hspelled x ((takeWhile_sublist _).subset hx), hk]
      simp only [ownEntry, head?_cons, Option.bind_some, toStr, hline, if_true, Option.bind_eq_bind]
      split
      · rw [getElem?_append_left (by omega)]
      · rfl
  | line :: next :: lines =>
    rw [hown, head_foldl_add, if_neg (cons_ne_nil _ _)] at hget
    have hk : r.onFirst = 0 := by simp [onFirst, hown]
    simp [Edge.forwarded, hn, hget, ownEntry, hk]

theorem SameWay.symm (h : r.SameWay r') : r'.SameWay r := ⟨h.lines.symm, h.hops.symm⟩

theorem SameWay.oneLine (h : r.SameWay r') (hr : r'.OneLine) : r.OneLine where
  few := h.lines ▸ hr.few
  visible := h.lines ▸ hr.visible
  appended hop hmem := by
    have hflag : hop.newLine ∈ (r'.hops.map (·.newLine)).tail := by
      rw [h.hops, ← map_tail]
      exact mem_map_of_mem hmem
    rw [← map_tail] at hflag
    obtain ⟨x, hx, hsame⟩ := mem_map.1 hflag
    rw [← hsame]
    exact hr.appended x hx
  first hne hop hmem := by
    have hflag : hop.newLine ∈ (r'.hops.map (·.newLine)).head? := by
      rw [h.hops, head?_map]
      exact Option.mem_map_of_mem _ hmem
    rw [head?_map] at hflag
    obtain ⟨x, hx, hsame⟩ := Option.mem_map.1 hflag
    rw [← hsame]
    exact hr.first (h.lines ▸ hne) x hx

theorem SameWay.onFirst_eq (h : r.SameWay r') : r'.onFirst = r.onFirst := by
  unfold onFirst
  rw [h.lines, h.hops]

/-- The same way from another address. -/
def reroute (r : Arrival n client) (ip : Ipv4) : Arrival n (.v4 ip) where
  headers := ((r.hops.modifyHead ({ · with entry := ip.text })).foldl Hop.add r.clientLines).map
    ("x-forwarded-for", ·)
  clientLines := r.clientLines
  hops := r.hops.modifyHead ({ · with entry := ip.text })
  length_hops := (length_modifyHead ..).trans r.length_hops
  spelled := by
    have hold := r.spelled
    cases hr : r.hops with
    | nil => exact nofun
    | cons hop hops =>
      rw [hr] at hold
      refine forall_mem_cons.2 ⟨?_, (forall_mem_cons.1 hold).2⟩
      rw [IpAddr.parse_text_v4]
      rfl
  outermost := by
    cases hr : r.hops with
    | nil => exact nofun
    | cons hop hops =>
      rintro _ ⟨⟩
      exact IpAddr.parse_text_v4 ip
  lines := by
    unfold Headers.lines
    simp [filter_map, Function.comp_def]
  noEdge := by
    unfold Headers.lines
    simp [filter_map, Function.comp_def]

theorem sameWay_reroute (r : Arrival n client) (ip : Ipv4) : r.SameWay (r.reroute ip) := by
  refine ⟨rfl, ?_⟩
  show (r.hops.modifyHead _).map _ = _
  cases r.hops <;> rfl

end Arrival

theorem edgeHeader_eq_none {n : Nat} {client : IpAddr} (r : Arrival n client) (peer : Option IpAddr)
    (hops : Nat) : edgeHeader r.headers peer ⟨none, hops⟩ = none := by
  have hcf : headerValue r.headers "cf-connecting-ip" = none := by
    unfold headerValue Headers.get
    rw [r.noEdge.1]
    rfl
  have hreal : headerValue r.headers "x-real-ip" = none := by
    unfold headerValue Headers.get
    rw [r.noEdge.2]
    rfl
  unfold edgeHeader
  simp only [hcf, hreal, Option.or_self, ite_self]

theorem clientIp_eq {n : Nat} {client : IpAddr} (r : Arrival n client) (peer : Option IpAddr) :
    clientIpFromPeer r.headers peer ⟨none, n⟩ = (((forwarded r.headers n).or
      (peer.map fun peer => textOf (canonical peer))).map rateLimitId).getD unknownClient := by
  unfold clientIpFromPeer resolveClientAddr
  rw [edgeHeader_eq_none, Option.none_or]

theorem Arrival.OneLine.clientIp {n : Nat} {client : IpAddr} {r : Arrival n client} (h : r.OneLine)
    (hn : 0 < n) (peer : Option IpAddr) :
    clientIpFromPeer r.headers peer ⟨none, n⟩ = idOf client := by
  obtain ⟨first, hforwarded, hparse⟩ := h.forwarded hn
  rw [clientIp_eq, hforwarded]
  show rateLimitId first = idOf client
  unfold rateLimitId
  rw [hparse]

/-- **The client id is not chosen by the caller.** Two requests that reach the outermost of `n`
proxies from one address get the id of that address, whatever else they carry, when the caller
sent at most one readable line of `X-Forwarded-For` and the proxies wrote to one line; on any
other way to the server the id is not that of the address. -/
theorem client_id_not_chosen {n : Nat} (hn : 1 ≤ n) {client : IpAddr} (r₁ r₂ : Arrival n client) :
    (r₁.OneLine → r₂.OneLine → ∀ peer₁ peer₂ : Option IpAddr,
      clientIpFromPeer r₁.headers peer₁ ⟨none, n⟩ = clientIpFromPeer r₂.headers peer₂ ⟨none, n⟩ ∧
        clientIpFromPeer r₁.headers peer₁ ⟨none, n⟩ = idOf client) ∧
      (r₁.OneLine ↔ ∀ (client' : IpAddr) (r' : Arrival n client'), r₁.SameWay r' →
        ∀ peer, clientIpFromPeer r'.headers peer ⟨none, n⟩ = idOf client') := by
  refine ⟨fun h₁ h₂ peer₁ peer₂ => ?_, fun h client' r' hway peer => ?_, fun hall => ?_⟩
  · have hid := h₁.clientIp hn peer₁
    exact ⟨hid.trans (h₂.clientIp hn peer₂).symm, hid⟩
  · exact (hway.symm.oneLine h).clientIp hn peer
  · by_contra h
    -- the same entry is read, whichever of two addresses the outermost proxy saw
    have hread : ∀ ip : Ipv4, forwarded (r₁.reroute ip).headers n =
        Arrival.ownEntry n r₁.onFirst r₁.clientLines := by
      intro ip
      have hway := r₁.sameWay_reroute ip
      rw [Arrival.forwarded_of_not_oneLine hn fun h' => h (hway.oneLine h'), hway.onFirst_eq,
        hway.lines]
    have hone := hall _ _ (r₁.sameWay_reroute ⟨1, 2, 3, 4⟩) none
    have htwo := hall _ _ (r₁.sameWay_reroute ⟨5, 6, 7, 8⟩) none
    rw [clientIp_eq, hread] at hone htwo
    exact absurd (hone.symm.trans htwo) (by decide +kernel)

/-- A request through one proxy that writes to the client's line. -/
def throughOneProxy (own : List HeaderValue) (newLine : Bool) : Headers :=
  ([⟨"1.2.3.4".toList, newLine, 1⟩].foldl Hop.add own).map ("x-forwarded-for", ·)

def seenClient : IpAddr := .v4 ⟨1, 2, 3, 4⟩

def oneProxy (own : List HeaderValue) (newLine : Bool) : Arrival 1 seenClient where
  headers := throughOneProxy own newLine
  clientLines := own
  hops := [⟨"1.2.3.4".toList, newLine, 1⟩]
  length_hops := rfl
  spelled hop hmem := by
    obtain rfl := mem_singleton.1 hmem
    show (IpAddr.parse "1.2.3.4".toList).isSome
    decide +kernel
  outermost hop hmem := by
    obtain rfl := Option.some.inj hmem
    show IpAddr.parse "1.2.3.4".toList = some seenClient
    decide +kernel
  lines := by
    unfold throughOneProxy Headers.lines
    simp [filter_map, Function.comp_def]
  noEdge := by
    unfold throughOneProxy Headers.lines
    simp [filter_map, Function.comp_def]

theorem client_id_not_chosen_one :
    clientIpFromPeer (oneProxy ["6.6.6.6".toList] false).headers none ⟨none, 1⟩ =
        clientIpFromPeer (oneProxy [] true).headers none ⟨none, 1⟩ ∧
      clientIpFromPeer (oneProxy ["6.6.6.6".toList] false).headers none ⟨none, 1⟩ =
        idOf seenClient := by
  refine (client_id_not_chosen (Nat.le_refl 1) (oneProxy ["6.6.6.6".toList] false)
    (oneProxy [] true)).1 ⟨by decide, by decide, nofun, fun _ hop hmem => ?_⟩
    ⟨by decide, nofun, nofun, ?_⟩ none none
  · obtain rfl := Option.some.inj hmem
    rfl
  · exact fun h => absurd rfl h

/-- The proxy begins a line of its own, and the line that is read is the caller's. -/
theorem own_line_decides :
    clientIpFromPeer (oneProxy ["6.6.6.6".toList] true).headers none ⟨none, 1⟩ =
        "6.6.6.6".toList ∧
      clientIpFromPeer (oneProxy ["7.7.7.7".toList] true).headers none ⟨none, 1⟩ =
        "7.7.7.7".toList ∧ idOf seenClient = "1.2.3.4".toList := by
  decide +kernel

end Spooled.Edge
