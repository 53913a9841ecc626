import Mathlib

/-!
# Form-encoded byte strings

Percent-decoding, the `application/x-www-form-urlencoded` parser, and the lossy
reading of bytes as UTF-8, where every maximal piece of a broken character is
replaced by U+FFFD.
-/

namespace Spooled

open List

abbrev Bytes := List UInt8

namespace Form

/-! ## Characters -/

def isContinuation (b : UInt8) : Bool := 0x80 ≤ b && b ≤ 0xBF

def tailLength (b : UInt8) : Nat :=
  if b ≤ 0xDF then 0 else if b ≤ 0xEF then 1 else 2

/-- May `c` follow the first byte `b` of a character? -/
def secondOk (b c : UInt8) : Bool :=
  if b < 0xC2 then false
  else if b = 0xE0 then 0xA0 ≤ c && c ≤ 0xBF
  else if b = 0xED then 0x80 ≤ c && c ≤ 0x9F
  else if b = 0xF0 then 0x90 ≤ c && c ≤ 0xBF
  else if b = 0xF4 then 0x80 ≤ c && c ≤ 0x8F
  else if b < 0xF4 then isContinuation c
  else false

/-- How many of the next `n` bytes continue the character, and do all of them? -/
def continuations : Nat → Bytes → Nat × Bool
  | 0, _ => (0, true)
  | _ + 1, [] => (0, false)
  | n + 1, c :: rest =>
    if isContinuation c then ((continuations n rest).1 + 1, (continuations n rest).2) else (0, false)

/-- How many bytes belong to the character that `b` begins, and is it whole? -/
def character (b : UInt8) : Bytes → Nat × Bool
  | [] => (0, false)
  | c :: rest =>
    if secondOk b c then
      ((continuations (tailLength b) rest).1 + 1, (continuations (tailLength b) rest).2)
    else (0, false)

/-- U+FFFD. -/
def replacement : Bytes := [0xEF, 0xBF, 0xBD]

def lossyAux : Nat → Bytes → Bytes
  | 0, _ => []
  | _ + 1, [] => []
  | n + 1, b :: rest =>
    if b < 0x80 then b :: lossyAux n rest
    else (if (character b rest).2 then b :: rest.take (character b rest).1 else replacement) ++
      lossyAux n (rest.drop (character b rest).1)

def lossy (bs : Bytes) : Bytes := lossyAux bs.length bs

variable {b c : UInt8} {bs t : Bytes} {n : Nat}

theorem ge_of_isContinuation (h : isContinuation c = true) : ¬ c < 0x80 := by
  unfold isContinuation at h
  simp only [Bool.and_eq_true, decide_eq_true_eq] at h
  exact UInt8.not_lt.2 h.1

theorem ge_of_secondOk (h : secondOk b c = true) : ¬ c < 0x80 := by
  have hlow : ∀ d : UInt8, 0x80 ≤ d → d ≤ c → ¬ c < 0x80 := fun d hd hc =>
    UInt8.not_lt.2 (UInt8.le_trans hd hc)
  unfold secondOk at h
  split at h
  · cases h
  all_goals repeat' split at h
  all_goals first
    | cases h
    | exact ge_of_isContinuation h
    | (simp only [Bool.and_eq_true, decide_eq_true_eq] at h
       exact hlow _ (by decide) h.1)

theorem not_ascii_of_continuations (hb : b ∈ bs.take (continuations n bs).1) : ¬ b < 0x80 := by
  induction n generalizing bs with
  | zero => simp [continuations] at hb
  | succ n ih =>
    cases bs with
    | nil => simp at hb
    | cons c rest =>
      unfold continuations at hb
      split at hb
      · next hc =>
        rcases mem_cons.1 hb with rfl | hb
        · exact ge_of_isContinuation hc
        · exact ih hb
      · simp at hb

theorem not_ascii_of_character (hc : c ∈ bs.take (character b bs).1) : ¬ c < 0x80 := by
  cases bs with
  | nil => simp at hc
  | cons d rest =>
    by_cases hd : secondOk b d = true
    · rw [character, if_pos hd] at hc
      rcases mem_cons.1 hc with rfl | hc
      · exact ge_of_secondOk hd
      · exact not_ascii_of_continuations hc
    · rw [character, if_neg hd] at hc
      exact absurd hc not_mem_nil

theorem lossyAux_ascii (hn : bs.length ≤ n) (h : ∀ b ∈ bs, b < 0x80) : lossyAux n bs = bs := by
  induction n generalizing bs with
  | zero => rw [length_eq_zero_iff.1 (Nat.le_zero.1 hn)]; rfl
  | succ n ih =>
    cases bs with
    | nil => rfl
    | cons b rest =>
      unfold lossyAux
      rw [if_pos (h b mem_cons_self),
        ih (Nat.le_of_succ_le_succ hn) fun c hc => h c (mem_cons_of_mem _ hc)]

/-- ASCII is never swallowed. -/
theorem mem_lossyAux (hn : bs.length ≤ n) (hb : b < 0x80) (hmem : b ∈ bs) : b ∈ lossyAux n bs := by
  induction n generalizing bs with
  | zero => rw [length_eq_zero_iff.1 (Nat.le_zero.1 hn)] at hmem; cases hmem
  | succ n ih =>
    cases bs with
    | nil => cases hmem
    | cons c rest =>
      have hn := Nat.le_of_succ_le_succ hn
      unfold lossyAux
      split
      · rcases mem_cons.1 hmem with rfl | hmem
        · exact mem_cons_self
        · exact mem_cons_of_mem _ (ih hn hmem)
      · next hc =>
        rcases mem_cons.1 hmem with rfl | hmem
        · exact absurd hb hc
        · rw [← take_append_drop (character c rest).1 rest] at hmem
          rcases mem_append.1 hmem with hmem | hmem
          · exact absurd hb (not_ascii_of_character hmem)
          · refine mem_append_right _ (ih ?_ hmem)
            rw [length_drop]
            omega

theorem ascii_of_lossyAux (hn : bs.length ≤ n) (h : ∀ b ∈ lossyAux n bs, b < 0x80) :
    ∀ b ∈ bs, b < 0x80 := by
  induction n generalizing bs with
  | zero => rw [length_eq_zero_iff.1 (Nat.le_zero.1 hn)]; exact fun _ h => absurd h not_mem_nil
  | succ n ih =>
    cases bs with
    | nil => exact fun _ h => absurd h not_mem_nil
    | cons c rest =>
      unfold lossyAux at h
      split at h
      · next hc =>
        intro b hb
        rcases mem_cons.1 hb with rfl | hb
        · exact hc
        · exact ih (Nat.le_of_succ_le_succ hn) (fun d hd => h d (mem_cons_of_mem _ hd)) b hb
      · next hc =>
        split at h
        · exact absurd (h c (mem_append_left _ mem_cons_self)) hc
        · exact absurd (h 0xEF (mem_append_left _ (by decide))) (by decide)

theorem mem_lossy (hb : b < 0x80) (hmem : b ∈ bs) : b ∈ lossy bs :=
  mem_lossyAux (Nat.le_refl _) hb hmem

/-- ASCII is read as it is written, and nothing else is read as it. -/
theorem lossy_eq_ascii (ht : ∀ b ∈ t, b < 0x80) : lossy bs = t ↔ bs = t := by
  constructor
  · intro h
    have hascii : ∀ b ∈ bs, b < 0x80 := by
      apply ascii_of_lossyAux (Nat.le_refl _)
      rw [← lossy, h]
      exact ht
    rw [← h]
    exact (lossyAux_ascii (Nat.le_refl _) hascii).symm
  · rintro rfl
    exact lossyAux_ascii (Nat.le_refl _) ht

theorem lossy_eq_nil : lossy bs = [] ↔ bs = [] :=
  lossy_eq_ascii fun _ h => absurd h not_mem_nil

/-! ## Percent-decoding -/

def percent : UInt8 := 0x25

def plus : UInt8 := 0x2B

def space : UInt8 := 0x20

def ampersand : UInt8 := 0x26

def equals : UInt8 := 0x3D

def hexValue (b : UInt8) : Option UInt8 :=
  if 0x30 ≤ b ∧ b ≤ 0x39 then some (b - 0x30)
  else if 0x41 ≤ b ∧ b ≤ 0x46 then some (b - 0x37)
  else if 0x61 ≤ b ∧ b ≤ 0x66 then some (b - 0x57)
  else none

def hexByte (h l : UInt8) : Option UInt8 :=
  (hexValue h).bind fun x => (hexValue l).map fun y => x * 16 + y

/-- `%XX` is a byte; a `%` that two digits do not follow is itself. -/
def percentDecode : Bytes → Bytes
  | b :: h :: l :: rest =>
    if b = percent then
      match hexByte h l with
      | some x => x :: percentDecode rest
      | none => b :: percentDecode (h :: l :: rest)
    else b :: percentDecode (h :: l :: rest)
  | bs => bs

def plusToSpace (bs : Bytes) : Bytes := bs.map fun b => if b = plus then space else b

def decode (bs : Bytes) : Bytes := lossy (percentDecode (plusToSpace bs))

theorem percentDecode_eq_nil : percentDecode bs = [] ↔ bs = [] := by
  constructor
  · intro h
    unfold percentDecode at h
    split at h
    · split at h
      · split at h <;> cases h
      · cases h
    · exact h
  · rintro rfl
    rfl

theorem decode_eq_nil : decode bs = [] ↔ bs = [] := by
  unfold decode
  rw [lossy_eq_nil, percentDecode_eq_nil, plusToSpace, map_eq_nil_iff]

/-! ## The parser -/

theorem find?_of_find? {α : Type} {p q : α → Bool} {l : List α} {x : α}
    (hpq : ∀ y, p y = true → q y = true) (h : l.find? q = some x) (hx : p x = true) :
    l.find? p = some x := by
  rw [find?_eq_some_iff_append] at h ⊢
  obtain ⟨-, before, after, hl, hbefore⟩ := h
  refine ⟨hx, before, after, hl, fun y hy => ?_⟩
  cases hp : p y with
  | false => rfl
  | true =>
    have hno := hbefore y hy
    rw [hpq y hp] at hno
    cases hno

/-- The part before the first `=`, and the part behind it. -/
def nameAndValue (bs : Bytes) : Bytes × Option Bytes :=
  (bs.takeWhile (· != equals), (bs.dropWhile (· != equals)).tail?)

def parse (input : Bytes) : List (Bytes × Bytes) :=
  ((input.splitOn ampersand).filter (· != [])).map fun pair =>
    (decode (nameAndValue pair).1, decode ((nameAndValue pair).2.getD []))

def rawPairs (input : Bytes) : List (Bytes × Bytes) :=
  (input.splitOn ampersand).map fun pair => ((nameAndValue pair).1, (nameAndValue pair).2.getD [])

theorem find_parse {input : Bytes} {wanted : Bytes → Bool} (hnil : wanted [] = false) :
    (((parse input).find? fun z => wanted z.1 && z.2 != []).map (·.2)) =
      ((rawPairs input).find? fun z => wanted (decode z.1) && z.2 != []).map
        fun z => decode z.2 := by
  have hvalue : ∀ value : Bytes, (decode value != []) = (value != []) := by
    intro value
    rw [Bool.eq_iff_iff]
    simp [decode_eq_nil]
  unfold parse rawPairs
  induction input.splitOn ampersand with
  | nil => rfl
  | cons pair pairs ih =>
    rw [map_cons, find?_cons]
    by_cases hpair : pair = []
    · -- an empty pair is left out by the parser, and its name is not wanted
      have hname : decode (nameAndValue pair).1 = [] := by
        rw [hpair]
        exact decode_eq_nil.2 rfl
      rw [filter_cons_of_neg (by simp [hpair]), hname, hnil]
      exact ih
    · rw [filter_cons_of_pos (by simp [hpair]), map_cons, find?_cons, hvalue]
      cases wanted (decode (nameAndValue pair).1) && (nameAndValue pair).2.getD [] != [] with
      | true => rfl
      | false => exact ih

end Form

end Spooled
