import Mathlib

/-!
# SQL text functions

Text as a list of characters, with the functions PostgreSQL documents for it:
`array_to_string` and `string_to_array`, `replace`, `strpos`, `regexp_replace`
with flag `g` (leftmost, longest, not overlapping) and `LIKE`. The lemmas say
how each of them goes on after the part of the text it has dealt with.
-/

namespace Spooled

open List

abbrev Text := List Char

instance Text.lawfulBEq : LawfulBEq Text := inferInstance

/-- `str::len`, in bytes. -/
def utf8Len (t : Text) : Nat := (t.map Char.utf8Size).sum

namespace Text

/-! ## Joining, splitting, replacing -/

variable (sep : Char)

/-- `array_to_string(ts, sep)`. -/
def join (ts : List Text) : Text := [sep].intercalate ts

/-- `string_to_array(t, sep)`; the empty string has no elements. -/
def split (t : Text) : List Text := if t = [] then [] else t.splitOn sep

/-- `strpos(t, s) > 0`. -/
def contains (s t : Text) : Bool := decide (s <:+: t)

/-- `replace(t, c, new)` for a text `c` of one character. -/
def replaceChar (c : Char) (new t : Text) : Text := t.flatMap fun x => if x = c then new else [x]

@[simp] theorem join_nil : join sep [] = [] := rfl

@[simp] theorem join_singleton (t : Text) : join sep [t] = t := by simp [join]

theorem join_cons_cons (t u : Text) (ts : List Text) :
    join sep (t :: u :: ts) = t ++ sep :: join sep (u :: ts) := by
  simp [join, intercalate_cons_cons]

theorem join_cons (t : Text) (ts : List Text) :
    join sep (t :: ts) = t ++ if ts = [] then [] else sep :: join sep ts := by
  cases ts with
  | nil => simp
  | cons u ts => rw [join_cons_cons, if_neg (cons_ne_nil u ts)]

theorem infix_join {sep : Char} {t : Text} {ts : List Text} (h : t ∈ ts) : t <:+: join sep ts := by
  induction ts with
  | nil => cases h
  | cons u ts ih =>
    rw [join_cons]
    rcases mem_cons.1 h with rfl | h
    · exact (prefix_append _ _).isInfix
    · rw [if_neg (ne_nil_of_mem h)]
      exact ((ih h).trans (suffix_cons _ _).isInfix).trans (suffix_append _ _).isInfix

theorem join_map_ne_nil {sep : Char} {f : Text → Text} {ts : List Text}
    (hf : ∀ t, t ≠ [] → f t ≠ []) (h : join sep ts ≠ []) : join sep (ts.map f) ≠ [] := by
  match ts with
  | [] => exact absurd rfl h
  | [t] =>
    rw [join_singleton] at h
    rw [map_singleton, join_singleton]
    exact hf t h
  | t :: u :: ts =>
    rw [map_cons, map_cons, join_cons_cons]
    simp

theorem split_join {sep : Char} {ts : List Text} (h : ∀ t ∈ ts, sep ∉ t) (hne : join sep ts ≠ []) :
    split sep (join sep ts) = ts := by
  have hts : ts ≠ [] := by rintro rfl; exact hne rfl
  rw [split, if_neg hne]
  exact splitOn_intercalate sep h hts

theorem flatMap_join {sep : Char} {g : Char → Text} (hg : g sep = [sep]) (ts : List Text) :
    (join sep ts).flatMap g = join sep (ts.map fun t => t.flatMap g) := by
  induction ts with
  | nil => rfl
  | cons t ts ih =>
    rw [join_cons, map_cons, join_cons, flatMap_append]
    congr 1
    by_cases h : ts = []
    · simp [h]
    · rw [if_neg h, if_neg (by simpa using h), flatMap_cons, hg, ih]
      rfl

/-! ## Regular expressions -/

/-- The expressions used here; `char` is a literal or a bracket expression. -/
inductive Regex
  | char (p : Char → Bool)
  | eos
  | seq (r s : Regex)
  | alt (r s : Regex)
  | group (k : Nat) (r : Regex)

structure Match where
  taken : Text
  rest : Text
  groups : List (Nat × Text)

def Regex.run : Regex → Text → List Match
  | .char _, [] => []
  | .char p, c :: t => if p c then [⟨[c], t, []⟩] else []
  | .eos, t => if t = [] then [⟨[], [], []⟩] else []
  | .seq r s, t => (r.run t).flatMap fun m => (s.run m.rest).map fun n =>
      ⟨m.taken ++ n.taken, n.rest, m.groups ++ n.groups⟩
  | .alt r s, t => r.run t ++ s.run t
  | .group k r, t => (r.run t).map fun m => { m with groups := (k, m.taken) :: m.groups }

def longest : List Match → Option Match
  | [] => none
  | m :: ms => match longest ms with
    | some n => if m.taken.length < n.taken.length then some n else some m
    | none => some m

/-- A character of the replacement, or `\k`. -/
inductive Piece
  | lit (c : Char)
  | group (k : Nat)

def expand (template : List Piece) (groups : List (Nat × Text)) : Text :=
  template.flatMap fun
    | .lit c => [c]
    | .group k => (groups.lookup k).getD []

/-- `regexp_replace` at a point of the text whose next `n` characters belong to a match. -/
def replaceFrom (r : Regex) (template : List Piece) : Nat → Text → Text
  | 0, [] => match longest (r.run []) with
    | some m => expand template m.groups
    | none => []
  | _ + 1, [] => []
  | 0, c :: t => match longest (r.run (c :: t)) with
    | some m => expand template m.groups ++ match m.taken.length with
      -- an empty match is replaced, and the character after it stays
      | 0 => c :: replaceFrom r template 0 t
      | n + 1 => replaceFrom r template n t
    | none => c :: replaceFrom r template 0 t
  | n + 1, _ :: t => replaceFrom r template n t

/-- `regexp_replace(t, r, template, 'g')`. -/
def regexpReplace (r : Regex) (template : List Piece) (t : Text) : Text :=
  replaceFrom r template 0 t

section Replace

variable {r : Regex} {template : List Piece} {c : Char} {t : Text}

theorem regexpReplace_cons_of_none (h : r.run (c :: t) = []) :
    regexpReplace r template (c :: t) = c :: regexpReplace r template t := by
  rw [regexpReplace, replaceFrom, h]
  rfl

theorem replaceFrom_append (u v : Text) :
    replaceFrom r template u.length (u ++ v) = regexpReplace r template v := by
  induction u with
  | nil => rfl
  | cons c u ih => exact ih

theorem regexpReplace_of_match {u v : Text} {gs : List (Nat × Text)}
    (h : r.run (c :: u ++ v) = [⟨c :: u, v, gs⟩]) :
    regexpReplace r template (c :: u ++ v) = expand template gs ++ regexpReplace r template v := by
  have h' : r.run (c :: (u ++ v)) = [⟨c :: u, v, gs⟩] := h
  rw [regexpReplace, cons_append, replaceFrom, h']
  show expand template gs ++ replaceFrom r template u.length (u ++ v) = _
  rw [replaceFrom_append]

end Replace

/-! ## `LIKE` -/

inductive LikeItem
  | lit (c : Char)
  | one
  | any
deriving DecidableEq, Repr

/-- The items of a pattern; `none`: it ends with an escape character, which is an error. -/
def parseLike : Text → Option (List LikeItem)
  | [] => some []
  | ['\\'] => none
  | '\\' :: c :: p => (parseLike p).map (.lit c :: ·)
  | '%' :: p => (parseLike p).map (.any :: ·)
  | '_' :: p => (parseLike p).map (.one :: ·)
  | c :: p => (parseLike p).map (.lit c :: ·)

/-- `%` stands for any text, so some suffix matches what follows it. -/
def likeMatch : List LikeItem → Text → Bool
  | [], t => t.isEmpty
  | .any :: p, t => t.tails.any fun u => likeMatch p u
  | .lit c :: p, x :: t => c == x && likeMatch p t
  | .one :: p, _ :: t => likeMatch p t
  | _ :: _, [] => false

/-- `t LIKE ANY(patterns)`. -/
def likeAny (t : Text) (patterns : List Text) : Option Bool :=
  (patterns.mapM parseLike).map fun ps => ps.any fun p => likeMatch p t

theorem parseLike_escaped (c : Char) (p : Text) :
    parseLike ('\\' :: c :: p) = (parseLike p).map (.lit c :: ·) := by
  rw [parseLike]

theorem parseLike_lit {c : Char} (h : c ≠ '\\' ∧ c ≠ '%' ∧ c ≠ '_') (p : Text) :
    parseLike (c :: p) = (parseLike p).map (.lit c :: ·) := by
  obtain ⟨h₁, h₂, h₃⟩ := h
  rw [parseLike]
  · exact fun hc _ => h₁ hc
  · exact fun d _ hc _ => h₁ hc
  · exact h₂
  · exact h₃

theorem likeMatch_lits (u : Text) (p : List LikeItem) (t : Text) :
    likeMatch (u.map .lit ++ p) t = true ↔ ∃ v, t = u ++ v ∧ likeMatch p v = true := by
  induction u generalizing t with
  | nil => simp
  | cons c u ih =>
    cases t with
    | nil => simp [likeMatch]
    | cons x t =>
      simp only [map_cons, cons_append, likeMatch, Bool.and_eq_true, beq_iff_eq, ih,
        List.cons.injEq]
      constructor
      · rintro ⟨rfl, v, hv, hm⟩
        exact ⟨v, ⟨rfl, hv⟩, hm⟩
      · rintro ⟨v, ⟨rfl, hv⟩, hm⟩
        exact ⟨rfl, v, hv, hm⟩

theorem likeMatch_any (t : Text) : likeMatch [.any] t = true := by
  simp only [likeMatch, any_eq_true, mem_tails]
  exact ⟨[], nil_suffix, rfl⟩

end Text

end Spooled
