import Spooled.Lib.Text
import Mathlib

/-!
# IP addresses as text

Addresses, the textual forms Rust's `FromStr` reads and the ones `Display` and
the URL standard write. The reader is the one of `core::net`: numbers up to a
number of digits, IPv4 without leading zeros, IPv6 in groups of which the last
two may be an IPv4 address, and one `::` for at least one group of zeros.
What is read is made of few characters and short; what is written reads back.
-/

namespace Spooled

open List

/-! ## Numerals -/

def hexVal (c : Char) : Option Nat :=
  let n := c.toNat
  if 48 ≤ n ∧ n ≤ 57 then some (n - 48)
  else if 97 ≤ n ∧ n ≤ 102 then some (n - 87)
  else if 65 ≤ n ∧ n ≤ 70 then some (n - 55)
  else none

/-- `char::to_digit` for a radix up to 16. -/
def digitVal (radix : Nat) (c : Char) : Option Nat := (hexVal c).filter (· < radix)

def isDigitOf (radix : Nat) (c : Char) : Bool := (digitVal radix c).isSome

def valueOf (radix : Nat) (t : Text) : Nat :=
  t.foldl (fun acc c => acc * radix + (digitVal radix c).getD 0) 0

def digitChar (d : Nat) : Char := Char.ofNat (if d < 10 then 48 + d else 87 + d)

/-- The `k` last digits of `n`, most significant first. -/
def places (radix : Nat) : Nat → Nat → List Nat
  | 0, _ => []
  | k + 1, n => places radix k (n / radix) ++ [n % radix]

/-- The numeral of a number of at most `k + 1` digits, without leading zeros. -/
def numeral (radix k n : Nat) : Text :=
  ((places radix k (n / radix)).dropWhile (· = 0) ++ [n % radix]).map digitChar

section Numeral

variable {radix k n d : Nat} {c : Char}

theorem hexVal_digitChar : ∀ d < 16, hexVal (digitChar d) = some d := by decide

theorem digitVal_digitChar (hradix : radix ≤ 16) (hd : d < radix) :
    digitVal radix (digitChar d) = some d := by
  unfold digitVal
  rw [hexVal_digitChar d (by omega), Option.filter_some, if_pos (decide_eq_true hd)]

theorem isDigitOf_digitChar (hradix : radix ≤ 16) (hd : d < radix) :
    isDigitOf radix (digitChar d) = true := by
  unfold isDigitOf
  rw [digitVal_digitChar hradix hd]
  rfl

theorem isDigitOf_mono {radix' : Nat} (hle : radix ≤ radix') (h : isDigitOf radix c = true) :
    isDigitOf radix' c = true := by
  unfold isDigitOf digitVal at *
  cases hv : hexVal c with
  | none =>
    rw [hv] at h
    cases h
  | some v =>
    rw [hv, Option.filter_some] at h
    rw [Option.filter_some]
    split at h
    · next hlt =>
      have hlt := of_decide_eq_true hlt
      rw [if_pos (decide_eq_true (by omega))]
      rfl
    · cases h

theorem valueOf_append (t : Text) (c : Char) :
    valueOf radix (t ++ [c]) = valueOf radix t * radix + (digitVal radix c).getD 0 := by
  unfold valueOf
  rw [foldl_append]
  rfl

theorem lt_of_mem_places (hr : 0 < radix) (h : d ∈ places radix k n) : d < radix := by
  induction k generalizing n with
  | zero => cases h
  | succ k ih =>
    unfold places at h
    rcases mem_append.1 h with h | h
    · exact ih h
    · rw [mem_singleton.1 h]
      exact Nat.mod_lt n hr

theorem length_places : (places radix k n).length = k := by
  induction k generalizing n with
  | zero => rfl
  | succ k ih =>
    unfold places
    rw [length_append, ih]
    rfl

theorem valueOf_places (hr : 0 < radix) (hradix : radix ≤ 16) :
    valueOf radix ((places radix k n).map digitChar) = n % radix ^ k := by
  induction k generalizing n with
  | zero =>
    rw [Nat.pow_zero, Nat.mod_one]
    rfl
  | succ k ih =>
    unfold places
    rw [map_append, map_singleton, valueOf_append, ih,
      digitVal_digitChar hradix (Nat.mod_lt n hr), Nat.pow_succ, Nat.mul_comm (radix ^ k),
      Nat.mod_mul]
    show n / radix % radix ^ k * radix + n % radix = _
    rw [Nat.mul_comm, Nat.add_comm]

theorem valueOf_dropWhile (hr : 0 < radix) (ds : List Nat) (t : Text) :
    valueOf radix ((ds.dropWhile (· = 0)).map digitChar ++ t) =
      valueOf radix (ds.map digitChar ++ t) := by
  induction ds with
  | nil => rfl
  | cons d ds ih =>
    by_cases hd : d = 0
    · subst hd
      have hzero : (digitVal radix (digitChar 0)).getD 0 = 0 := by
        unfold digitVal
        rw [hexVal_digitChar 0 (by omega), Option.filter_some, if_pos (decide_eq_true hr)]
        rfl
      rw [dropWhile_cons_of_pos (by simp), ih]
      unfold valueOf
      rw [map_cons, cons_append, foldl_cons, hzero, Nat.zero_mul]
    · rw [dropWhile_cons_of_neg (by simp [hd])]

theorem valueOf_numeral (hr : 0 < radix) (hradix : radix ≤ 16) (hn : n < radix ^ (k + 1)) :
    valueOf radix (numeral radix k n) = n := by
  unfold numeral
  rw [map_append, valueOf_dropWhile hr, ← map_append]
  have hplaces : places radix k (n / radix) ++ [n % radix] = places radix (k + 1) n := rfl
  rw [hplaces, valueOf_places hr hradix, Nat.mod_eq_of_lt hn]

theorem isDigitOf_numeral (hr : 0 < radix) (hradix : radix ≤ 16) :
    ∀ c ∈ numeral radix k n, isDigitOf radix c = true := by
  intro c hc
  unfold numeral at hc
  obtain ⟨d, hd, rfl⟩ := mem_map.1 hc
  refine isDigitOf_digitChar hradix ?_
  rcases mem_append.1 hd with hd | hd
  · exact lt_of_mem_places hr ((dropWhile_sublist _).subset hd)
  · rw [mem_singleton.1 hd]
    exact Nat.mod_lt n hr

theorem numeral_ne_nil : numeral radix k n ≠ [] := by
  unfold numeral
  simp

theorem length_numeral_le : (numeral radix k n).length ≤ k + 1 := by
  unfold numeral
  rw [length_map, length_append, length_singleton]
  have hle := (dropWhile_sublist (l := places radix k (n / radix)) (· = 0)).length_le
  rw [length_places] at hle
  omega

theorem head_numeral (hr : 0 < radix) (hradix : radix ≤ 16)
    (hlen : 1 < (numeral radix k n).length) : (numeral radix k n).head? ≠ some '0' := by
  unfold numeral at *
  cases hds : (places radix k (n / radix)).dropWhile (· = 0) with
  | nil =>
    rw [hds] at hlen
    simp at hlen
  | cons d ds =>
    have hmem : d ∈ (places radix k (n / radix)).dropWhile (· = 0) := hds ▸ mem_cons_self
    have hlt := lt_of_mem_places hr ((dropWhile_sublist _).subset hmem)
    have hne : d ≠ 0 := by
      have hhead := head?_dropWhile_not (p := fun x => decide (x = 0))
        (l := places radix k (n / radix))
      rw [hds] at hhead
      simpa using hhead
    intro hzero
    have hchar : digitChar d = '0' := by simpa using hzero
    have hval := hexVal_digitChar d (by omega)
    rw [hchar] at hval
    have h0 : hexVal '0' = some 0 := by decide
    rw [h0] at hval
    exact hne (Option.some.inj hval).symm

end Numeral

/-! ## Addresses -/

instance neZeroOctet : NeZero 256 := ⟨by decide⟩

instance neZeroSegment : NeZero 65536 := ⟨by decide⟩

structure Ipv4 where
  a : Fin 256
  b : Fin 256
  c : Fin 256
  d : Fin 256
  deriving DecidableEq, Repr

/-- Eight segments. -/
structure Ipv6 where
  segments : List (Fin 65536)
  length_eq : segments.length = 8
  deriving DecidableEq

inductive IpAddr
  | v4 (ip : Ipv4)
  | v6 (ip : Ipv6)
  deriving DecidableEq

/-! ## Reading -/

namespace Ip

/-- `read_number`: all the digits that follow, at most `maxDigits`. -/
def readNumber (radix maxDigits : Nat) (allowZeroPrefix : Bool) (bound : Nat) [NeZero bound]
    (cs : Text) : Option (Fin bound × Text) :=
  let digits := cs.takeWhile (isDigitOf radix)
  if digits = [] ∨ maxDigits < digits.length then none
  else if !allowZeroPrefix && digits.head? == some '0' && 1 < digits.length then none
  else if valueOf radix digits < bound then
    some (Fin.ofNat bound (valueOf radix digits), cs.dropWhile (isDigitOf radix))
  else none

/-- `read_given_char`. -/
def readChar (c : Char) : Text → Option Text
  | [] => none
  | c' :: cs => if c' = c then some cs else none

/-- `read_separator`: nothing before the first item. -/
def readSeparator (c : Char) (first : Bool) (cs : Text) : Option Text :=
  if first then some cs else readChar c cs

/-- `read_ipv4_addr`. -/
def readIpv4 (cs : Text) : Option (Ipv4 × Text) := do
  let (a, cs) ← readNumber 10 3 false 256 cs
  let cs ← readChar '.' cs
  let (b, cs) ← readNumber 10 3 false 256 cs
  let cs ← readChar '.' cs
  let (c, cs) ← readNumber 10 3 false 256 cs
  let cs ← readChar '.' cs
  let (d, cs) ← readNumber 10 3 false 256 cs
  return (⟨a, b, c, d⟩, cs)

def segmentOf (a b : Fin 256) : Fin 65536 := Fin.ofNat 65536 (a.val * 256 + b.val)

/-- An IPv4 address in the place of two groups, of `k + 1` that are left. -/
def readTrailing (k : Nat) (after : Option Text) : Option (Ipv4 × Text) :=
  if 0 < k then after.bind readIpv4 else none

/-- `read_groups`: the groups that follow, at most `k`, whether the last two are an IPv4
address, and the rest. -/
def readGroups : Nat → Bool → Text → List (Fin 65536) × Bool × Text
  | 0, _, cs => ([], false, cs)
  | k + 1, first, cs =>
    let after := readSeparator ':' first cs
    match readTrailing k after with
    | some (ip, rest) => ([segmentOf ip.a ip.b, segmentOf ip.c ip.d], true, rest)
    | none => match after.bind (readNumber 16 4 true 65536) with
      | none => ([], false, cs)
      | some (g, rest) =>
        let r := readGroups k false rest
        (g :: r.1, r.2)

/-- Groups before and after the `::`, with zeros between. -/
def spread (head tail : List (Fin 65536)) : List (Fin 65536) :=
  head ++ List.replicate (8 - (head.length + tail.length)) 0 ++ tail

def ipv6Of (segments : List (Fin 65536)) : Option Ipv6 :=
  if h : segments.length = 8 then some ⟨segments, h⟩ else none

/-- `read_ipv6_addr`. -/
def readIpv6 (cs : Text) : Option (Ipv6 × Text) :=
  let (head, headV4, rest) := readGroups 8 true cs
  if head.length = 8 then (ipv6Of head).map (·, rest)
  else if headV4 then none
  else do
    let rest ← readChar ':' rest
    let rest ← readChar ':' rest
    let (tail, _, rest) := readGroups (8 - (head.length + 1)) true rest
    (ipv6Of (spread head tail)).map (·, rest)

/-- `read_ip_addr`. -/
def readIp (cs : Text) : Option (IpAddr × Text) :=
  match readIpv4 cs with
  | some (ip, rest) => some (.v4 ip, rest)
  | none => (readIpv6 cs).map fun (ip, rest) => (.v6 ip, rest)

end Ip

/-- `parse::<IpAddr>`: the whole text is read. -/
def IpAddr.parse (t : Text) : Option IpAddr :=
  match Ip.readIp t with
  | some (ip, []) => some ip
  | _ => none

/-! ## Writing -/

/-- `Display`, dotted decimal. -/
def Ipv4.text (ip : Ipv4) : Text :=
  Text.join '.' ([ip.a, ip.b, ip.c, ip.d].map fun o => numeral 10 2 o.val)

namespace Ip

def hexGroups (gs : List (Fin 65536)) : Text := Text.join ':' (gs.map fun g => numeral 16 3 g.val)

def zeros : List (Fin 65536) → Nat
  | [] => 0
  | g :: gs => if g = 0 then zeros gs + 1 else 0

/-- The start and the length of the first longest run of zeros. -/
def longestZeros : List (Fin 65536) → Nat × Nat
  | [] => (0, 0)
  | g :: gs =>
    let later := longestZeros gs
    if later.2 ≤ zeros (g :: gs) then (0, zeros (g :: gs)) else (later.1 + 1, later.2)

end Ip

/-- Eight groups, the first longest run of at least two zeros written as `::`. -/
def Ipv6.text (ip : Ipv6) : Text :=
  let (start, len) := Ip.longestZeros ip.segments
  if len < 2 then Ip.hexGroups ip.segments
  else
    Ip.hexGroups (ip.segments.take start) ++ [':', ':'] ++
      Ip.hexGroups (ip.segments.drop (start + len))

example : IpAddr.parse "::ffff:127.0.0.1".toList =
    (Ip.ipv6Of [0, 0, 0, 0, 0, 65535, 32512, 1]).map .v6 := by decide +kernel

example : (Ip.ipv6Of [8193, 3512, 0, 0, 1, 0, 0, 0]).map Ipv6.text =
    some "2001:db8:0:0:1::".toList := by decide +kernel

/-! ## What is written reads back -/

namespace Ip

def NoDigit (radix : Nat) (rest : Text) : Prop := ∀ c ∈ rest.head?, isDigitOf radix c = false

variable {cs rest : Text} {first : Bool} {k n radix : Nat}

theorem takeWhile_numeral (hr : 0 < radix) (hradix : radix ≤ 16)
    (hrest : NoDigit radix rest) :
    (numeral radix k n ++ rest).takeWhile (isDigitOf radix) = numeral radix k n ∧
      (numeral radix k n ++ rest).dropWhile (isDigitOf radix) = rest := by
  have hall := isDigitOf_numeral (k := k) (n := n) hr hradix
  rw [takeWhile_append_of_pos hall, dropWhile_append_of_pos hall]
  cases rest with
  | nil => simp
  | cons c rest =>
    have hc : isDigitOf radix c = false := hrest c rfl
    simp [hc]

theorem readNumber_numeral {bound : Nat} [NeZero bound] {zero : Bool}
    (hr : 0 < radix) (hradix : radix ≤ 16) (hn : n < radix ^ (k + 1)) (hbound : n < bound)
    (hrest : NoDigit radix rest) :
    readNumber radix (k + 1) zero bound (numeral radix k n ++ rest) =
      some (Fin.ofNat bound n, rest) := by
  obtain ⟨htake, hdrop⟩ := takeWhile_numeral (k := k) (n := n) hr hradix hrest
  have hne : numeral radix k n ≠ [] := numeral_ne_nil
  have hlen : (numeral radix k n).length ≤ k + 1 := length_numeral_le
  have hlead : (!zero && (numeral radix k n).head? == some '0' &&
      decide (1 < (numeral radix k n).length)) = false := by
    by_cases hone : 1 < (numeral radix k n).length
    · have hhead := head_numeral hr hradix hone
      rw [beq_false_of_ne hhead, Bool.and_false, Bool.false_and]
    · rw [decide_eq_false hone, Bool.and_false]
  unfold readNumber
  simp only [htake, hdrop, hlead, valueOf_numeral hr hradix hn]
  rw [if_neg (by simp only [hne, false_or]; omega), if_neg (by simp), if_pos hbound]

theorem readNumber_decimal (o : Fin 256) (hrest : NoDigit 10 rest) :
    readNumber 10 3 false 256 (numeral 10 2 o.val ++ rest) = some (o, rest) := by
  have ho := o.isLt
  rw [readNumber_numeral (k := 2) (by omega) (by omega) (by omega) ho hrest, Fin.ofNat_val_eq_self]

theorem readNumber_hex (g : Fin 65536) (hrest : NoDigit 16 rest) :
    readNumber 16 4 true 65536 (numeral 16 3 g.val ++ rest) = some (g, rest) := by
  have hg := g.isLt
  rw [readNumber_numeral (k := 3) (by omega) (by omega) (by omega) hg hrest, Fin.ofNat_val_eq_self]

theorem noDigit_cons {c : Char} (h : isDigitOf radix c = false) :
    NoDigit radix (c :: rest) := by
  intro c' hc'
  rw [← Option.some.inj hc']
  exact h

theorem noDigit_nil : NoDigit radix [] := nofun

theorem text_v4 (ip : Ipv4) : ip.text = numeral 10 2 ip.a.val ++ '.' :: (numeral 10 2 ip.b.val ++
    '.' :: (numeral 10 2 ip.c.val ++ '.' :: numeral 10 2 ip.d.val)) := by
  unfold Ipv4.text
  simp only [map_cons, map_nil, Text.join_cons_cons, Text.join_singleton]

theorem readIpv4_text (ip : Ipv4) : readIpv4 ip.text = some (ip, []) := by
  have hdot : ∀ rest : Text, NoDigit 10 ('.' :: rest) := fun _ => noDigit_cons (by decide)
  have hlast : readNumber 10 3 false 256 (numeral 10 2 ip.d.val) = some (ip.d, []) := by
    have h := readNumber_decimal ip.d noDigit_nil
    rwa [append_nil] at h
  unfold readIpv4
  rw [text_v4]
  simp only [readNumber_decimal _ (hdot _), hlast, readChar, Option.bind_eq_bind,
    Option.bind_some, if_true]
  rfl

theorem mem_of_readChar {c : Char} (h : readChar c cs = some rest) :
    cs = c :: rest := by
  cases cs with
  | nil => cases h
  | cons c' cs =>
    simp only [readChar] at h
    split at h
    · next he =>
      cases h
      rw [he]
    · cases h

theorem readIpv4_eq_none (h : '.' ∉ cs) : readIpv4 cs = none := by
  unfold readIpv4
  cases hn : readNumber 10 3 false 256 cs with
  | none => rfl
  | some x =>
    obtain ⟨a, rest⟩ := x
    have hrest : '.' ∉ rest := by
      unfold readNumber at hn
      simp only at hn
      split at hn
      · cases hn
      split at hn
      · cases hn
      split at hn
      · cases hn
        exact fun hmem => h ((dropWhile_sublist _).subset hmem)
      · cases hn
    cases hc : readChar '.' rest with
    | none =>
      simp only [Option.bind_eq_bind, Option.bind_some, hc]
      rfl
    | some rest' =>
      rw [mem_of_readChar hc] at hrest
      exact absurd mem_cons_self hrest

/-- Groups with the separators before them, the first one's apart. -/
def chunk : Bool → List (Fin 65536) → Text
  | _, [] => []
  | first, g :: gs => (if first then [] else [':']) ++ numeral 16 3 g.val ++ chunk false gs

theorem hexGroups_eq : ∀ gs : List (Fin 65536), hexGroups gs = chunk true gs
  | [] => rfl
  | [g] => by simp [hexGroups, chunk]
  | g :: g' :: gs => by
    have ih := hexGroups_eq (g' :: gs)
    have hjoin : hexGroups (g :: g' :: gs) = numeral 16 3 g.val ++ ':' :: hexGroups (g' :: gs) :=
      Text.join_cons_cons _ _ _ _
    rw [hjoin, ih]
    simp [chunk]

/-- Where groups end: at the end of the text, or at a `::`. -/
def Ends (rest : Text) : Prop := rest = [] ∨ ∃ rest', rest = ':' :: ':' :: rest'

theorem noDigit_chunk {gs : List (Fin 65536)} (hrest : Ends rest) :
    NoDigit 16 (chunk false gs ++ rest) := by
  cases gs with
  | cons g gs => exact noDigit_cons (by decide)
  | nil =>
    rcases hrest with rfl | ⟨rest', rfl⟩
    · exact noDigit_nil
    · exact noDigit_cons (by decide)

theorem readNumber_ends (hrest : Ends rest) :
    (readSeparator ':' first rest).bind (readNumber 16 4 true 65536) = none := by
  have hcolon : ∀ rest' : Text, readNumber 16 4 true 65536 (':' :: rest') = none := by
    intro rest'
    have hno : isDigitOf 16 ':' = false := by decide
    unfold readNumber
    simp [hno]
  rcases hrest with rfl | ⟨rest', rfl⟩
  · cases first <;> rfl
  · cases first with
    | true => exact hcolon (':' :: rest')
    | false => exact hcolon rest'

theorem readTrailing_eq_none (h : '.' ∉ cs) :
    readTrailing k (readSeparator ':' first cs) = none := by
  have hbind : (readSeparator ':' first cs).bind readIpv4 = none := ?_
  · unfold readTrailing
    rw [hbind, ite_self]
  unfold readSeparator
  split
  · exact readIpv4_eq_none h
  · cases hc : readChar ':' cs with
    | none => rfl
    | some rest =>
      rw [mem_of_readChar hc] at h
      exact readIpv4_eq_none fun hmem => h (mem_cons_of_mem _ hmem)

theorem readGroups_chunk {gs : List (Fin 65536)}
    (hlen : gs.length ≤ k) (hdot : '.' ∉ chunk first gs ++ rest) (hrest : Ends rest) :
    readGroups k first (chunk first gs ++ rest) = (gs, false, rest) := by
  induction gs generalizing k first with
  | nil =>
    cases k with
    | zero => rfl
    | succ k =>
      have hdot : '.' ∉ rest := hdot
      show readGroups (k + 1) first rest = ([], false, rest)
      unfold readGroups
      simp only [readTrailing_eq_none hdot, readNumber_ends hrest]
  | cons g gs ih =>
    cases k with
    | zero => simp at hlen
    | succ k =>
      have hsep : readSeparator ':' first (chunk first (g :: gs) ++ rest) =
          some (numeral 16 3 g.val ++ (chunk false gs ++ rest)) := by
        cases first with
        | true => simp [readSeparator, chunk]
        | false => simp [readSeparator, readChar, chunk]
      have htail : '.' ∉ chunk false gs ++ rest := by
        intro hmem
        apply hdot
        simp only [chunk, append_assoc, mem_append] at hmem ⊢
        exact .inr (.inr hmem)
      unfold readGroups
      simp only [readTrailing_eq_none hdot]
      simp only [hsep, Option.bind_some, readNumber_hex g (noDigit_chunk hrest),
        ih (by simpa using hlen) htail]

theorem dot_not_mem_numeral : '.' ∉ numeral 16 k n := by
  intro hmem
  have hdigit := isDigitOf_numeral (by omega) (by omega) _ hmem
  have hno : isDigitOf 16 '.' = false := by decide
  rw [hno] at hdigit
  cases hdigit

theorem dot_not_mem_chunk {gs : List (Fin 65536)} : '.' ∉ chunk first gs := by
  induction gs generalizing first with
  | nil => exact not_mem_nil
  | cons g gs ih =>
    unfold chunk
    simp only [mem_append, not_or]
    refine ⟨⟨?_, dot_not_mem_numeral⟩, ih⟩
    cases first <;> decide

theorem dot_not_mem_hexGroups {gs : List (Fin 65536)} : '.' ∉ hexGroups gs := by
  rw [hexGroups_eq]
  exact dot_not_mem_chunk

theorem readGroups_hexGroups {gs : List (Fin 65536)} (hlen : gs.length ≤ k)
    (hdot : '.' ∉ rest) (hrest : Ends rest) :
    readGroups k true (hexGroups gs ++ rest) = (gs, false, rest) := by
  rw [hexGroups_eq]
  refine readGroups_chunk hlen ?_ hrest
  simp only [mem_append, not_or]
  exact ⟨dot_not_mem_chunk, hdot⟩

/-! ## Runs of zeros -/

theorem take_zeros : ∀ gs : List (Fin 65536), gs = List.replicate (zeros gs) 0 ++ gs.drop (zeros gs)
  | [] => rfl
  | g :: gs => by
    unfold zeros
    split
    · next hg =>
      rw [replicate_succ, drop_succ_cons, cons_append, ← take_zeros gs, hg]
    · rfl

theorem longestZeros_spec : ∀ gs : List (Fin 65536),
    gs = gs.take (longestZeros gs).1 ++ List.replicate (longestZeros gs).2 0 ++
      gs.drop ((longestZeros gs).1 + (longestZeros gs).2)
  | [] => rfl
  | g :: gs => by
    have ih := longestZeros_spec gs
    unfold longestZeros
    simp only
    split
    · rw [take_zero, nil_append, Nat.zero_add]
      exact take_zeros (g :: gs)
    · simp only [take_succ_cons, cons_append, Nat.add_right_comm _ 1, drop_succ_cons]
      rw [← ih]

end Ip

/-! ## The round trip for IPv6 -/

namespace Ip

theorem spread_eq {head tail segments : List (Fin 65536)} {len : Nat}
    (h : segments = head ++ List.replicate len 0 ++ tail) (hlen : segments.length = 8) :
    spread head tail = segments := by
  have hsum := congrArg List.length h
  simp only [length_append, length_replicate] at hsum
  have hgap : 8 - (head.length + tail.length) = len := by omega
  unfold spread
  rw [hgap, h]

theorem ipv6Of_eq (ip : Ipv6) : ipv6Of ip.segments = some ip := by
  unfold ipv6Of
  rw [dif_pos ip.length_eq]

theorem readIpv6_text (ip : Ipv6) : readIpv6 ip.text = some (ip, []) := by
  have hspec := longestZeros_spec ip.segments
  have hlen := ip.length_eq
  unfold Ipv6.text
  simp only
  split
  · -- nothing is left out: eight groups
    have hread : readGroups 8 true (hexGroups ip.segments) = (ip.segments, false, []) := by
      have h : readGroups 8 true (hexGroups ip.segments ++ []) = (ip.segments, false, []) :=
        readGroups_hexGroups (by omega) not_mem_nil (.inl rfl)
      rwa [append_nil] at h
    unfold readIpv6
    simp only [hread, hlen, if_true, ipv6Of_eq, Option.map_some]
  · next hrun =>
    generalize hstart : (longestZeros ip.segments).1 = start at *
    generalize hrunlen : (longestZeros ip.segments).2 = len at *
    have hsum := congrArg List.length hspec
    simp only [length_append, length_replicate, length_take, length_drop] at hsum
    have hhead : (ip.segments.take start).length < 8 := by
      simp only [length_take]
      omega
    have htail : (ip.segments.drop (start + len)).length ≤
        8 - ((ip.segments.take start).length + 1) := by
      simp only [length_take, length_drop]
      omega
    have hread : readGroups 8 true (hexGroups (ip.segments.take start) ++ [':', ':'] ++
        hexGroups (ip.segments.drop (start + len))) = (ip.segments.take start, false,
          ':' :: ':' :: hexGroups (ip.segments.drop (start + len))) := by
      rw [append_assoc]
      refine readGroups_hexGroups (by omega) ?_ (.inr ⟨_, rfl⟩)
      intro hmem
      rcases mem_append.1 hmem with hmem | hmem
      · exact absurd hmem (by decide)
      · exact dot_not_mem_hexGroups hmem
    have hread' : readGroups (8 - ((ip.segments.take start).length + 1)) true
        (hexGroups (ip.segments.drop (start + len))) = (ip.segments.drop (start + len), false, []) := by
      have h := readGroups_hexGroups htail not_mem_nil (.inl rfl : Ends [])
      rwa [append_nil] at h
    unfold readIpv6
    simp only [hread, readChar, if_true, Option.bind_eq_bind, Option.bind_some, hread',
      spread_eq hspec hlen, ipv6Of_eq, Option.map_some]
    rw [if_neg (by omega), if_neg (by simp)]

theorem dot_not_mem_text (ip : Ipv6) : '.' ∉ ip.text := by
  unfold Ipv6.text
  simp only
  split
  · exact dot_not_mem_hexGroups
  · simp only [mem_append, not_or]
    exact ⟨⟨dot_not_mem_hexGroups, by decide⟩, dot_not_mem_hexGroups⟩

end Ip

theorem IpAddr.parse_text_v6 (ip : Ipv6) : IpAddr.parse ip.text = some (.v6 ip) := by
  unfold IpAddr.parse Ip.readIp
  rw [Ip.readIpv4_eq_none (Ip.dot_not_mem_text ip), Ip.readIpv6_text]
  rfl

theorem IpAddr.parse_text_v4 (ip : Ipv4) : IpAddr.parse ip.text = some (.v4 ip) := by
  unfold IpAddr.parse Ip.readIp
  rw [Ip.readIpv4_text]

/-! ## What is read is short and plain -/

namespace Ip

def isPlain (c : Char) : Bool := isDigitOf 16 c || c == ':' || c == '.'

/-- At most `n` plain characters are read. -/
def Reads (n : Nat) (cs rest : Text) : Prop :=
  ∃ pre, cs = pre ++ rest ∧ pre.length ≤ n ∧ ∀ c ∈ pre, isPlain c = true

namespace Reads

variable {m n : Nat} {cs rest rest' : Text}

theorem nil : Reads 0 cs cs := ⟨[], rfl, Nat.le_refl 0, nofun⟩

theorem trans (h : Reads m cs rest) (h' : Reads n rest rest') : Reads (m + n) cs rest' := by
  obtain ⟨pre, rfl, hlen, hplain⟩ := h
  obtain ⟨pre', rfl, hlen', hplain'⟩ := h'
  refine ⟨pre ++ pre', (append_assoc ..).symm, ?_, fun c hc => ?_⟩
  · rw [length_append]
    omega
  · rcases mem_append.1 hc with hc | hc
    · exact hplain c hc
    · exact hplain' c hc

theorem mono (h : Reads m cs rest) (hle : m ≤ n) : Reads n cs rest := by
  obtain ⟨pre, he, hlen, hplain⟩ := h
  exact ⟨pre, he, by omega, hplain⟩

theorem number {radix maxDigits bound : Nat} [NeZero bound] {zero : Bool} {x : Fin bound}
    (hradix : radix ≤ 16) (h : readNumber radix maxDigits zero bound cs = some (x, rest)) :
    Reads maxDigits cs rest := by
  unfold readNumber at h
  simp only at h
  split at h
  · cases h
  next hdigits =>
  split at h
  · cases h
  split at h
  · cases h
    refine ⟨_, (takeWhile_append_dropWhile).symm, by omega, fun c hc => ?_⟩
    have hdigit := mem_takeWhile_imp hc
    unfold isPlain
    rw [isDigitOf_mono hradix hdigit]
    rfl
  · cases h

theorem char {c : Char} (hc : isPlain c = true) (h : readChar c cs = some rest) :
    Reads 1 cs rest := by
  rw [mem_of_readChar h]
  refine ⟨[c], rfl, Nat.le_refl 1, fun c' hc' => ?_⟩
  rw [mem_singleton.1 hc']
  exact hc

theorem separator {first : Bool} (h : readSeparator ':' first cs = some rest) :
    Reads (if first then 0 else 1) cs rest := by
  cases first with
  | true =>
    cases h
    exact nil
  | false => exact char (by decide) h

theorem ipv4 {ip : Ipv4} (h : readIpv4 cs = some (ip, rest)) : Reads 15 cs rest := by
  unfold readIpv4 at h
  simp only [Option.bind_eq_bind, Option.bind_eq_some_iff] at h
  obtain ⟨⟨a, r₁⟩, ha, r₂, hd₁, ⟨b, r₃⟩, hb, r₄, hd₂, ⟨c, r₅⟩, hc, r₆, hd₃, ⟨d, r₇⟩, hd, hip⟩ := h
  have hend : rest = r₇ := (Prod.mk.inj (Option.some.inj hip)).2.symm
  rw [hend]
  have hdot : isPlain '.' = true := by decide
  exact (((((number (by omega) ha).trans (char hdot hd₁)).trans (number (by omega) hb)).trans
    (char hdot hd₂)).trans (number (by omega) hc)).trans (char hdot hd₃) |>.trans
    (number (by omega) hd)

/-- Five characters a group with its separator, and six more where the last two are an IPv4
address; the first group has no separator. -/
theorem groups {k : Nat} {first v4 : Bool} {gs : List (Fin 65536)}
    (h : readGroups k first cs = (gs, v4, rest)) :
    Reads (5 * gs.length + 6 * v4.toNat - first.toNat) cs rest ∧ gs.length ≤ k := by
  induction k generalizing first cs gs with
  | zero =>
    cases h
    exact ⟨nil.mono (Nat.zero_le _), Nat.le_refl 0⟩
  | succ k ih =>
    unfold readGroups at h
    simp only at h
    split at h
    · next ip rest' hv4 =>
      cases h
      unfold readTrailing at hv4
      split at hv4
      · next hk =>
        obtain ⟨after, hsep, hip⟩ := Option.bind_eq_some_iff.1 hv4
        refine ⟨((separator hsep).trans (ipv4 hip)).mono ?_, ?_⟩
        · cases first <;> simp
        · simp only [length_cons, length_nil]
          omega
      · cases hv4
    · split at h
      · cases h
        exact ⟨nil.mono (Nat.zero_le _), Nat.zero_le _⟩
      · next g rest' hnum =>
        obtain ⟨after, hsep, hg⟩ := Option.bind_eq_some_iff.1 hnum
        generalize hr : readGroups k false rest' = r at h
        obtain ⟨gs', v4', rest''⟩ := r
        cases h
        obtain ⟨hreads, hlen⟩ := ih hr
        refine ⟨(((separator hsep).trans (number (by omega) hg)).trans hreads).mono ?_, ?_⟩
        · simp only [length_cons, Bool.toNat_false]
          cases first
          · simp only [Bool.false_eq_true, if_false, Bool.toNat_false]
            omega
          · simp only [if_true, Bool.toNat_true]
            omega
        · simp only [length_cons]
          omega

theorem ipv6 {ip : Ipv6} (h : readIpv6 cs = some (ip, rest)) : Reads 45 cs rest := by
  unfold readIpv6 at h
  generalize hr : readGroups 8 true cs = r at h
  obtain ⟨head, headV4, rest₁⟩ := r
  obtain ⟨hhead, hlen⟩ := groups hr
  have hv4 := Bool.toNat_le headV4
  simp only at h
  split at h
  · next hfull =>
    obtain ⟨ip', -, hip⟩ := Option.map_eq_some_iff.1 h
    have hend : rest₁ = rest := (Prod.mk.inj hip).2
    rw [← hend]
    refine hhead.mono ?_
    rw [Bool.toNat_true]
    omega
  · next hfull =>
    split at h
    · cases h
    next hnoV4 =>
    simp only [Option.bind_eq_bind, Option.bind_eq_some_iff] at h
    obtain ⟨rest₂, hc₁, rest₃, hc₂, h⟩ := h
    generalize hr' : readGroups (8 - (head.length + 1)) true rest₃ = r at h
    obtain ⟨tail, tailV4, rest₄⟩ := r
    obtain ⟨htail, htlen⟩ := groups hr'
    have htv4 := Bool.toNat_le tailV4
    obtain ⟨ip', -, hip⟩ := Option.map_eq_some_iff.1 h
    have hend : rest₄ = rest := (Prod.mk.inj hip).2
    rw [← hend]
    have hcolon : isPlain ':' = true := by decide
    refine (((hhead.trans (char hcolon hc₁)).trans (char hcolon hc₂)).trans htail).mono ?_
    rw [eq_false_of_ne_true hnoV4, Bool.toNat_true, Bool.toNat_false]
    omega

end Reads

end Ip

/-- **A textual address is short**, and made of digits, colons and dots. -/
theorem IpAddr.parse_plain {t : Text} {ip : IpAddr} (h : IpAddr.parse t = some ip) :
    t.length ≤ 45 ∧ ∀ c ∈ t, Ip.isPlain c = true := by
  have hreads : Ip.Reads 45 t [] := by
    unfold IpAddr.parse at h
    split at h
    · next ip' hread =>
      unfold Ip.readIp at hread
      split at hread
      · next v4 rest hv4 =>
        cases hread
        exact (Ip.Reads.ipv4 hv4).mono (by omega)
      · obtain ⟨⟨v6, rest⟩, hv6, he⟩ := Option.map_eq_some_iff.1 hread
        cases he
        exact Ip.Reads.ipv6 hv6
    · cases h
  obtain ⟨pre, rfl, hlen, hplain⟩ := hreads
  rw [append_nil]
  exact ⟨hlen, hplain⟩

end Spooled
