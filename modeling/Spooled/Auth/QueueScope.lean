import Spooled.Lib.Text

/-!
# Queue scopes of API keys

A key's `queues` list is checked twice: by `queue_scope_allows` in the handlers
and by `queue_in_key_scope` in SQL. The SQL side joins all entries into one
text, escapes it for `LIKE` and rewrites every `prefix.*` entry at once with one
regular expression. Entry by entry the two accept the same names.
-/

namespace Spooled

open List

/-- `chr(31)`, which the SQL side joins entries with. -/
def unitSeparator : Char := Char.ofNat 31

/-! ## The check of the handlers -/

/-- The part of a `prefix.*` entry before the star. -/
def queuePatternPrefix (pattern : Text) : Option Text :=
  if pattern.getLast? = some '*' then
    let stem := pattern.dropLast
    if 1 < utf8Len stem ∧ stem.getLast? = some '.' ∧ '*' ∉ stem then some stem else none
  else none

def queuePatternMatches (pattern queueName : Text) : Bool :=
  if pattern = ['*'] then true
  else match queuePatternPrefix pattern with
    | some stem => stem.isPrefixOf queueName
    | none => pattern == queueName

def queueScopeIsUnrestricted (scope : List Text) : Bool := scope.isEmpty || scope.any (· == ['*'])

def queueScopeAllows (scope : List Text) (queueName : Text) : Bool :=
  scope.isEmpty || scope.any fun q => queuePatternMatches q queueName

/-- The list to filter with in SQL; `none`: the key is unrestricted. -/
def queueScopeFilter (scope : List Text) : Option (List Text) :=
  if queueScopeIsUnrestricted scope then none else some scope

/-! ### Accepted lists -/

structure ValidationError where
  code : String
  message : String
deriving DecidableEq, Repr

/-- `MAX_QUEUES_PER_KEY`. -/
def maxQueuesPerKey : Nat := 50

section Validate

variable (alphanumeric : Char → Bool)

/-- The checks of one entry; `alphanumeric` is `char::is_alphanumeric`. -/
def validateQueue (queue : Text) : Except ValidationError Unit :=
  if queue = [] ∨ 255 < utf8Len queue then
    .error ⟨"invalid_queue_name", "Queue name must be 1-255 characters"⟩
  else if !queue.all fun c => alphanumeric c || c == '-' || c == '_' || c == '.' || c == '*' then
    .error ⟨"invalid_queue_chars", "Queue name can only contain alphanumeric characters, dashes, " ++
      "underscores, dots, or wildcard (*)"⟩
  else if '*' ∈ queue ∧ queue ≠ ['*'] ∧ queuePatternPrefix queue = none then
    .error ⟨"invalid_queue_pattern", "The wildcard (*) is only allowed alone (every queue) or as " ++
      "a trailing `.*` after a queue-name prefix (`orders.*` covers every queue whose name starts " ++
      "with `orders.`)"⟩
  else .ok ()

def validateQueues (queues : List Text) : Except ValidationError Unit :=
  if maxQueuesPerKey < queues.length then
    .error ⟨"too_many_queues",
      "Maximum " ++ toString maxQueuesPerKey ++ " queues allowed per API key"⟩
  else forM queues (validateQueue alphanumeric)

variable {alphanumeric}

theorem separator_not_mem_of_validateQueue (ha : alphanumeric unitSeparator = false) {q : Text}
    (h : validateQueue alphanumeric q = .ok ()) : unitSeparator ∉ q := by
  intro hmem
  unfold validateQueue at h
  split at h
  · cases h
  split at h
  · cases h
  next hall =>
  simp only [Bool.not_eq_true', Bool.not_eq_false, all_eq_true] at hall
  have hsep := hall _ hmem
  rw [ha] at hsep
  exact absurd hsep (by decide)

theorem validateQueue_of_mem {scope : List Text} (h : validateQueues alphanumeric scope = .ok ()) :
    ∀ q ∈ scope, validateQueue alphanumeric q = .ok () := by
  unfold validateQueues at h
  split at h
  · cases h
  · next hlen =>
    clear hlen
    induction scope with
    | nil => exact fun q hq => absurd hq not_mem_nil
    | cons x xs ih =>
      rw [forM_cons] at h
      cases hx : validateQueue alphanumeric x with
      | error e =>
        rw [hx] at h
        cases h
      | ok u =>
        rw [hx] at h
        exact forall_mem_cons.2 ⟨hx, ih h⟩

theorem separator_not_mem_of_validateQueues (ha : alphanumeric unitSeparator = false)
    {scope : List Text} (h : validateQueues alphanumeric scope = .ok ()) :
    ∀ q ∈ scope, unitSeparator ∉ q := fun q hq =>
  separator_not_mem_of_validateQueue ha (validateQueue_of_mem h q hq)

end Validate

/-! ## The check in SQL -/

/-- `([^␟])\.\*(␟|$)`, where `␟` is the separator. -/
def scopeRegex : Text.Regex :=
  .seq (.group 1 (.char (· != unitSeparator))) (.seq (.char (· == '.')) (.seq (.char (· == '*'))
    (.group 2 (.alt (.char (· == unitSeparator)) .eos))))

/-- `\1.%\2`. -/
def scopeTemplate : List Text.Piece := [.group 1, .lit '.', .lit '%', .group 2]

/-- The three `replace` calls. -/
def escapeLike (t : Text) : Text :=
  Text.replaceChar '_' ['\\', '_'] (Text.replaceChar '%' ['\\', '%']
    (Text.replaceChar '\\' ['\\', '\\'] t))

/-- The entries as `LIKE` patterns; `none` (NULL) if no entry mentions `.*`. -/
def queueScopeLikePatterns (scope : List Text) : Option (List Text) :=
  if Text.contains ['.', '*'] (Text.join unitSeparator scope) then
    some (Text.split unitSeparator (Text.regexpReplace scopeRegex scopeTemplate
      (escapeLike (Text.join unitSeparator scope))))
  else none

/-- The SQL predicate; `none` would be an error raised by `LIKE`. -/
def queueInKeyScope (queueName : Text) : Option (List Text) → Option Bool
  | none => some true
  | some scope =>
    if scope.length = 0 ∨ ['*'] ∈ scope ∨ queueName ∈ scope then some true
    else match queueScopeLikePatterns scope with
      | none => some false
      | some patterns => Text.likeAny queueName patterns

/-! ## Escaping -/

def escapeChar (c : Char) : Text := if c = '\\' ∨ c = '%' ∨ c = '_' then ['\\', c] else [c]

theorem escapeLike_eq (t : Text) : escapeLike t = t.flatMap escapeChar := by
  unfold escapeLike Text.replaceChar
  rw [flatMap_assoc, flatMap_assoc]
  congr 1
  funext c
  unfold escapeChar
  by_cases h₁ : c = '\\'
  · subst h₁; rfl
  by_cases h₂ : c = '%'
  · subst h₂; rfl
  by_cases h₃ : c = '_'
  · subst h₃; rfl
  simp [h₁, h₂, h₃]

theorem escapeChar_separator : escapeChar unitSeparator = [unitSeparator] := rfl

variable {c : Char} {e name : Text} {scope : List Text}

theorem separator_not_mem_escape (h : unitSeparator ∉ e) :
    unitSeparator ∉ e.flatMap escapeChar := by
  rw [mem_flatMap]
  rintro ⟨c, hc, hmem⟩
  unfold escapeChar at hmem
  split at hmem
  · rcases mem_cons.1 hmem with hs | hs
    · exact absurd hs (by decide)
    · rw [mem_singleton.1 hs] at h; exact h hc
  · rw [mem_singleton.1 hmem] at h; exact h hc

/-- Escaping neither makes nor hides a `.*`. -/
theorem escape_eq_wildcard : e.flatMap escapeChar = ['.', '*'] ↔ e = ['.', '*'] := by
  constructor
  · intro h
    have plain : ∀ {c : Char} {t u : Text}, escapeChar c ++ t = '.' :: u ∨ escapeChar c ++ t = '*' :: u →
        escapeChar c = [c] := by
      intro c t u h
      unfold escapeChar at h ⊢
      split
      · next hc =>
        rw [if_pos hc] at h
        rcases h with h | h <;> cases h
      · rfl
    cases e with
    | nil => cases h
    | cons a e =>
      rw [flatMap_cons] at h
      rw [plain (.inl h), singleton_append, List.cons.injEq] at h
      obtain ⟨rfl, h⟩ := h
      cases e with
      | nil => cases h
      | cons b e =>
        rw [flatMap_cons] at h
        rw [plain (.inr h), singleton_append, List.cons.injEq] at h
        obtain ⟨rfl, h⟩ := h
        cases e with
        | nil => rfl
        | cons d e =>
          rw [flatMap_cons] at h
          unfold escapeChar at h
          split at h <;> cases h
  · rintro rfl
    rfl

/-! ## The rewrite, entry by entry -/

def rewriteEntry : Text → Text
  | [] => []
  | c :: t => c :: if t = ['.', '*'] then ['.', '%'] else rewriteEntry t

theorem run_scopeRegex_last (hc : c ≠ unitSeparator) :
    scopeRegex.run (c :: ['.', '*'] ++ []) = [⟨[c, '.', '*'], [], [(1, [c]), (2, [])]⟩] := by
  simp [scopeRegex, Text.Regex.run, hc]

theorem run_scopeRegex_next (hc : c ≠ unitSeparator) (v : Text) :
    scopeRegex.run (c :: ['.', '*', unitSeparator] ++ v) =
      [⟨[c, '.', '*', unitSeparator], v, [(1, [c]), (2, [unitSeparator])]⟩] := by
  simp [scopeRegex, Text.Regex.run, hc]

/-- Where a match starts: before a `.*` at the end of an entry. -/
theorem run_scopeRegex_ne_nil {t : Text} (h : scopeRegex.run (c :: t) ≠ []) :
    c ≠ unitSeparator ∧ ∃ v, t = '.' :: '*' :: v ∧ (v = [] ∨ ∃ u, v = unitSeparator :: u) := by
  by_cases hc : c = unitSeparator
  · exact absurd (by simp [scopeRegex, Text.Regex.run, hc]) h
  refine ⟨hc, ?_⟩
  match t with
  | [] => exact absurd (by simp [scopeRegex, Text.Regex.run, hc]) h
  | [a] => exact absurd (by by_cases ha : a = '.' <;> simp [scopeRegex, Text.Regex.run, hc, ha]) h
  | a :: b :: v =>
    by_cases ha : a = '.'
    · by_cases hb : b = '*'
      · refine ⟨v, by rw [ha, hb], ?_⟩
        cases v with
        | nil => exact .inl rfl
        | cons d u =>
          by_cases hd : d = unitSeparator
          · exact .inr ⟨u, by rw [hd]⟩
          · exact absurd (by simp [scopeRegex, Text.Regex.run, hc, ha, hb, hd]) h
      · exact absurd (by simp [scopeRegex, Text.Regex.run, hc, ha, hb]) h
    · exact absurd (by simp [scopeRegex, Text.Regex.run, hc, ha]) h

theorem regexpReplace_separator (v : Text) :
    Text.regexpReplace scopeRegex scopeTemplate (unitSeparator :: v) =
      unitSeparator :: Text.regexpReplace scopeRegex scopeTemplate v := by
  refine Text.regexpReplace_cons_of_none ?_
  by_contra h
  exact (run_scopeRegex_ne_nil h).1 rfl

theorem regexpReplace_entry (he : unitSeparator ∉ e) {w : Text}
    (hw : w = [] ∨ ∃ v, w = unitSeparator :: v) :
    Text.regexpReplace scopeRegex scopeTemplate (e ++ w) =
      rewriteEntry e ++ Text.regexpReplace scopeRegex scopeTemplate w := by
  induction e with
  | nil => rfl
  | cons c e ih =>
    obtain ⟨hc, he⟩ : c ≠ unitSeparator ∧ unitSeparator ∉ e := by
      rw [mem_cons, not_or] at he
      exact ⟨Ne.symm he.1, he.2⟩
    rw [rewriteEntry]
    by_cases hstar : e = ['.', '*']
    · subst hstar
      rw [if_pos rfl]
      rcases hw with rfl | ⟨v, rfl⟩
      · exact Text.regexpReplace_of_match (run_scopeRegex_last hc)
      · rw [regexpReplace_separator]
        exact Text.regexpReplace_of_match (run_scopeRegex_next hc v)
    · rw [if_neg hstar, cons_append, cons_append, ← ih he]
      refine Text.regexpReplace_cons_of_none ?_
      by_contra hrun
      obtain ⟨-, v, hv, hend⟩ := run_scopeRegex_ne_nil hrun
      refine hstar ?_
      -- the `.*` of the match lies in `e`, and `e` ends with it
      match e, he, hv with
      | [], _, hv =>
        rcases hw with rfl | ⟨u, rfl⟩
        · cases hv
        · exact absurd (List.cons.inj hv).1 (by decide)
      | [a], _, hv =>
        rcases hw with rfl | ⟨u, rfl⟩
        · cases hv
        · exact absurd (List.cons.inj (List.cons.inj hv).2).1 (by decide)
      | [a, b], _, hv =>
        obtain ⟨ha, hv⟩ := List.cons.inj hv
        rw [ha, (List.cons.inj hv).1]
      | a :: b :: d :: e, he, hv =>
        have hv := (List.cons.inj (List.cons.inj hv).2).2
        rcases hend with rfl | ⟨u, rfl⟩
        · cases hv
        · rw [← (List.cons.inj hv).1] at he
          simp at he

theorem regexpReplace_join {es : List Text} (h : ∀ e ∈ es, unitSeparator ∉ e) :
    Text.regexpReplace scopeRegex scopeTemplate (Text.join unitSeparator es) =
      Text.join unitSeparator (es.map rewriteEntry) := by
  induction es with
  | nil => rfl
  | cons e es ih =>
    rw [Text.join_cons, map_cons, Text.join_cons, regexpReplace_entry (h e mem_cons_self)]
    · congr 1
      by_cases hes : es = []
      · subst hes; rfl
      · rw [if_neg hes, if_neg (by simpa using hes), regexpReplace_separator,
          ih fun x hx => h x (mem_cons_of_mem _ hx)]
    · split
      · exact .inl rfl
      · exact .inr ⟨_, rfl⟩

/-! ## The patterns of the entries -/

/-- What `LIKE` makes of a rewritten entry. -/
def entryItems : Text → List Text.LikeItem
  | [] => []
  | c :: t => .lit c :: if t = ['.', '*'] then [.lit '.', .any] else entryItems t

theorem rewriteEntry_ne_nil (h : e ≠ []) : rewriteEntry e ≠ [] := by
  cases e with
  | nil => exact absurd rfl h
  | cons c t => exact cons_ne_nil _ _

theorem separator_not_mem_rewriteEntry (h : unitSeparator ∉ e) :
    unitSeparator ∉ rewriteEntry e := by
  induction e with
  | nil => exact h
  | cons c e ih =>
    rw [mem_cons, not_or] at h
    rw [rewriteEntry, mem_cons, not_or]
    refine ⟨h.1, ?_⟩
    split
    · decide
    · exact ih h.2

/-- Escaping and rewriting an entry raises no error, and `LIKE` reads the entry back. -/
theorem parseLike_rewriteEntry (e : Text) :
    Text.parseLike (rewriteEntry (e.flatMap escapeChar)) = some (entryItems e) := by
  induction e with
  | nil => rfl
  | cons c e ih =>
    have hrest : Text.parseLike (if e.flatMap escapeChar = ['.', '*'] then ['.', '%']
        else rewriteEntry (e.flatMap escapeChar)) =
        some (if e = ['.', '*'] then [.lit '.', .any] else entryItems e) := by
      simp only [escape_eq_wildcard]
      split
      · rfl
      · exact ih
    rw [flatMap_cons, entryItems]
    by_cases hc : c = '\\' ∨ c = '%' ∨ c = '_'
    · have hne : ¬ (c :: e.flatMap escapeChar = ['.', '*']) := by
        intro h
        rw [(List.cons.inj h).1] at hc
        exact absurd hc (by decide)
      rw [escapeChar, if_pos hc]
      show Text.parseLike (rewriteEntry ('\\' :: c :: e.flatMap escapeChar)) = _
      rw [rewriteEntry, if_neg hne, rewriteEntry, Text.parseLike_escaped, hrest]
      rfl
    · rw [escapeChar, if_neg hc, singleton_append, rewriteEntry]
      simp only [not_or] at hc
      rw [Text.parseLike_lit hc, hrest]
      rfl

theorem entryItems_pattern {r : Text} (h : r ≠ []) :
    entryItems (r ++ ['.', '*']) = (r ++ ['.']).map .lit ++ [.any] := by
  induction r with
  | nil => exact absurd rfl h
  | cons c r ih =>
    rw [cons_append, entryItems]
    by_cases hr : r = []
    · subst hr; rfl
    · have hne : ¬ (r ++ ['.', '*'] = ['.', '*']) := by
        intro he
        have hlen := congrArg List.length he
        simp only [length_append] at hlen
        exact hr (length_eq_zero_iff.1 (by omega))
      rw [if_neg hne, ih hr]
      rfl

theorem entryItems_exact (h : ∀ r, r ≠ [] → e ≠ r ++ ['.', '*']) :
    entryItems e = e.map .lit := by
  induction e with
  | nil => rfl
  | cons c e ih =>
    have hne : e ≠ ['.', '*'] := by
      rintro rfl
      exact h [c] (cons_ne_nil _ _) rfl
    rw [entryItems, if_neg hne, ih fun r _ he => h (c :: r) (cons_ne_nil _ _) (by rw [he]; rfl)]
    rfl

/-- Exactly the entries `prefix.*` have a prefix. -/
theorem queuePatternPrefix_eq_some {stem : Text} : queuePatternPrefix e = some stem ↔
    ∃ r, r ≠ [] ∧ e = r ++ ['.', '*'] ∧ stem = r ++ ['.'] ∧ '*' ∉ r := by
  constructor
  · intro h
    unfold queuePatternPrefix at h
    split at h
    · next hlast =>
      dsimp only at h
      split at h
      · next hc =>
        obtain ⟨hlen, hdot, hstar⟩ := hc
        obtain ⟨r, hr⟩ := getLast?_eq_some_iff.1 hdot
        obtain ⟨e', he⟩ := getLast?_eq_some_iff.1 hlast
        rw [he, dropLast_concat] at hr hlen hstar h
        refine ⟨r, ?_, by rw [he, hr]; simp, by rw [← Option.some.inj h, hr], ?_⟩
        · rintro rfl
          rw [hr] at hlen
          exact absurd hlen (by decide)
        · rw [hr, mem_append, not_or] at hstar
          exact hstar.1
      · cases h
    · cases h
  · rintro ⟨r, hr, rfl, rfl, hstar⟩
    have hsplit : r ++ ['.', '*'] = (r ++ ['.']) ++ ['*'] := by simp
    have hlen : 1 < utf8Len (r ++ ['.']) := by
      cases r with
      | nil => exact absurd rfl hr
      | cons c r =>
        have hpos := Char.utf8Size_pos c
        have hdot : Char.utf8Size '.' = 1 := rfl
        simp only [utf8Len, map_append, map_cons, map_nil, sum_append,
          sum_cons, sum_nil, cons_append, hdot]
        omega
    unfold queuePatternPrefix
    rw [hsplit, if_pos (by simp), dropLast_concat]
    dsimp only
    rw [if_pos ⟨hlen, by simp, by simp [hstar]⟩]

/-- **One entry**: the pattern in SQL accepts what the handlers accept. -/
theorem likeMatch_entryItems (hn : '*' ∉ name) (he : e ≠ ['*']) :
    Text.likeMatch (entryItems e) name = queuePatternMatches e name := by
  rw [queuePatternMatches, if_neg he, Bool.eq_iff_iff]
  by_cases hpat : ∃ r, r ≠ [] ∧ e = r ++ ['.', '*']
  · obtain ⟨r, hr, rfl⟩ := hpat
    rw [entryItems_pattern hr, Text.likeMatch_lits]
    by_cases hstar : '*' ∈ r
    · -- a second star: such an entry covers no name without one
      have hnone : queuePatternPrefix (r ++ ['.', '*']) = none := by
        rw [Option.eq_none_iff_forall_not_mem]
        intro stem hstem
        obtain ⟨r', -, hr', -, hno⟩ := queuePatternPrefix_eq_some.1 hstem
        rw [append_cancel_right hr'] at hstar
        exact hno hstar
      rw [hnone]
      constructor
      · rintro ⟨v, rfl, -⟩
        exact absurd (by simp [hstar]) hn
      · intro h
        rw [← beq_iff_eq.1 h] at hn
        exact absurd (by simp) hn
    · rw [queuePatternPrefix_eq_some.2 ⟨r, hr, rfl, rfl, hstar⟩]
      show _ ↔ (r ++ ['.']).isPrefixOf name = true
      rw [List.isPrefixOf_iff_prefix]
      constructor
      · rintro ⟨v, rfl, -⟩
        exact prefix_append _ _
      · rintro ⟨v, rfl⟩
        exact ⟨v, rfl, Text.likeMatch_any v⟩
  · have hexact : ∀ r, r ≠ [] → e ≠ r ++ ['.', '*'] := fun r hr h => hpat ⟨r, hr, h⟩
    have hnone : queuePatternPrefix e = none := by
      rw [Option.eq_none_iff_forall_not_mem]
      intro stem hstem
      obtain ⟨r, hr, h, -⟩ := queuePatternPrefix_eq_some.1 hstem
      exact hexact r hr h
    have hlits := Text.likeMatch_lits e [] name
    rw [append_nil] at hlits
    rw [entryItems_exact hexact, hlits, hnone]
    show _ ↔ (e == name) = true
    rw [beq_iff_eq]
    constructor
    · rintro ⟨v, rfl, hv⟩
      rw [List.isEmpty_iff.1 hv, append_nil]
    · rintro rfl
      exact ⟨[], (append_nil e).symm, rfl⟩

/-! ## The whole list -/

theorem mapM_eq_some_map {α β γ : Type} {f : α → β} {g : β → Option γ} {k : α → γ} (l : List α)
    (h : ∀ a ∈ l, g (f a) = some (k a)) : (l.map f).mapM g = some (l.map k) := by
  induction l with
  | nil => rfl
  | cons a l ih =>
    rw [map_cons, mapM_cons, h a mem_cons_self,
      ih fun b hb => h b (mem_cons_of_mem _ hb)]
    rfl

theorem queueScopeLikePatterns_eq (hs : ∀ e ∈ scope, unitSeparator ∉ e)
    (h : Text.contains ['.', '*'] (Text.join unitSeparator scope) = true) :
    queueScopeLikePatterns scope =
      some (scope.map fun e => rewriteEntry (e.flatMap escapeChar)) := by
  have hesc : ∀ t ∈ scope.map (fun e => e.flatMap escapeChar), unitSeparator ∉ t := by
    intro t ht
    obtain ⟨e, he, rfl⟩ := mem_map.1 ht
    exact separator_not_mem_escape (hs e he)
  rw [queueScopeLikePatterns, if_pos h, escapeLike_eq, Text.flatMap_join escapeChar_separator,
    regexpReplace_join hesc, map_map]
  have hjoin : Text.join unitSeparator scope ≠ [] := by
    intro hnil
    rw [hnil] at h
    exact absurd h (by decide)
  congr 1
  refine Text.split_join (fun t ht => ?_) (Text.join_map_ne_nil (fun e he => ?_) hjoin)
  · obtain ⟨e, he, rfl⟩ := mem_map.1 ht
    exact separator_not_mem_rewriteEntry (separator_not_mem_escape (hs e he))
  · refine rewriteEntry_ne_nil ?_
    obtain ⟨c, e, rfl⟩ := exists_cons_of_ne_nil he
    show (c :: e).flatMap escapeChar ≠ []
    rw [flatMap_cons, escapeChar]
    split <;> exact cons_ne_nil _ _

example : queueScopeLikePatterns ["orders.*".toList, "a_b".toList, ".*".toList] =
    some ["orders.%".toList, "a\\_b".toList, ".*".toList] := by decide +kernel

theorem queuePatternMatches_self (hn : '*' ∉ name) :
    queuePatternMatches name name = true := by
  have hnone : queuePatternPrefix name = none := by
    rw [Option.eq_none_iff_forall_not_mem]
    intro stem hstem
    obtain ⟨r, -, rfl, -⟩ := queuePatternPrefix_eq_some.1 hstem
    exact hn (by simp)
  unfold queuePatternMatches
  split
  · rfl
  · rw [hnone]
    exact beq_self_eq_true name

/-- Without a `.*` anywhere an entry covers only its own name. -/
theorem eq_of_queuePatternMatches (he : e ∈ scope)
    (hstar : e ≠ ['*'])
    (h : Text.contains ['.', '*'] (Text.join unitSeparator scope) = false)
    (hm : queuePatternMatches e name = true) : e = name := by
  have hnone : queuePatternPrefix e = none := by
    rw [Option.eq_none_iff_forall_not_mem]
    intro stem hstem
    obtain ⟨r, -, rfl, -⟩ := queuePatternPrefix_eq_some.1 hstem
    have hin : ['.', '*'] <:+: Text.join unitSeparator scope :=
      (suffix_append r _).isInfix.trans (Text.infix_join he)
    exact absurd hin (of_decide_eq_false h)
  rw [queuePatternMatches, if_neg hstar, hnone] at hm
  exact beq_iff_eq.1 hm

theorem queueInKeyScope_restricted
    (hs : ∀ e ∈ scope, unitSeparator ∉ e) (hn : '*' ∉ name) (hne : scope ≠ [])
    (hstar : ['*'] ∉ scope) :
    queueInKeyScope name (some scope) = some (scope.any fun e => queuePatternMatches e name) := by
  have hstar' : ∀ e ∈ scope, e ≠ ['*'] := fun e he h => hstar (h ▸ he)
  rw [queueInKeyScope]
  by_cases hmem : name ∈ scope
  · rw [if_pos (.inr (.inr hmem))]
    have hany : (scope.any fun e => queuePatternMatches e name) = true :=
      any_eq_true.2 ⟨name, hmem, queuePatternMatches_self hn⟩
    rw [hany]
  rw [if_neg (by simp [hne, hstar, hmem])]
  cases hc : Text.contains ['.', '*'] (Text.join unitSeparator scope) with
  | false =>
    have hnull : queueScopeLikePatterns scope = none := by
      rw [queueScopeLikePatterns, hc]
      rfl
    rw [hnull]
    refine congrArg some (Eq.symm ?_)
    rw [any_eq_false]
    intro e he hm
    exact hmem (eq_of_queuePatternMatches he (hstar' e he) hc hm ▸ he)
  | true =>
    rw [queueScopeLikePatterns_eq hs hc]
    show Text.likeAny name _ = _
    rw [Text.likeAny, mapM_eq_some_map scope fun e _ => parseLike_rewriteEntry e, Option.map_some,
      any_map]
    congr 1
    rw [Bool.eq_iff_iff, any_eq_true, any_eq_true]
    refine exists_congr fun e => and_congr_right fun he => ?_
    rw [← likeMatch_entryItems hn (hstar' e he)]
    rfl

/-- **The two checks agree** on every list whose entries do not mention the
separator, accepted lists among them, and every name without a star; the SQL
predicate raises no error. -/
theorem queue_scope_checks_agree (alphanumeric : Char → Bool) {scope : List Text} {name : Text}
    (hs : (alphanumeric unitSeparator = false ∧ validateQueues alphanumeric scope = .ok ()) ∨
      ∀ e ∈ scope, unitSeparator ∉ e) (hn : '*' ∉ name) :
    queueInKeyScope name (queueScopeFilter scope) = some (queueScopeAllows scope name) := by
  have hs : ∀ e ∈ scope, unitSeparator ∉ e :=
    hs.elim (fun h => separator_not_mem_of_validateQueues h.1 h.2) id
  unfold queueScopeFilter queueScopeAllows
  by_cases hne : scope = []
  · subst hne; rfl
  have hempty : scope.isEmpty = false := by simpa using hne
  by_cases hstar : ['*'] ∈ scope
  · have hun : queueScopeIsUnrestricted scope = true := by
      rw [queueScopeIsUnrestricted, hempty, Bool.false_or, any_eq_true]
      exact ⟨['*'], hstar, rfl⟩
    have hall : (scope.any fun q => queuePatternMatches q name) = true :=
      any_eq_true.2 ⟨['*'], hstar, rfl⟩
    rw [if_pos hun, hempty, hall]
    rfl
  · have hres : queueScopeIsUnrestricted scope = false := by
      rw [queueScopeIsUnrestricted, hempty, Bool.false_or, any_eq_false]
      intro q hq h
      exact hstar (beq_iff_eq.1 h ▸ hq)
    rw [hres, hempty, Bool.false_or]
    exact queueInKeyScope_restricted hs hn hne hstar

/-- The scope `orders.*`, `a%b_` with a name below the prefix: accepted on both sides. -/
theorem queue_scope_checks_agree_orders :
    queueInKeyScope "orders.eu".toList (queueScopeFilter ["orders.*".toList, "a%b_".toList]) =
      some true :=
  queue_scope_checks_agree (fun _ => false) (.inr (by decide)) (by decide)

end Spooled
