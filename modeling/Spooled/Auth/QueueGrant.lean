import Spooled.Auth.QueueScope
import Mathlib

/-!
# Queue grants between API keys

A key may give a new key, or an updated one, only queues it reaches itself:
`can_grant_queues` compares the two lists entry by entry. Entries describe
infinite sets of names, so that the comparison is right has two sides. Nothing
beyond the granter's names can be granted, along any chain of grants; and
nothing within them is refused, because finitely many exact names never cover
what a `prefix.*` entry covers.
-/

namespace Spooled

open List

/-- Does the list cover the whole requested entry, itself possibly `prefix.*`? -/
def queueScopeCovers (scope : List Text) (requested : Text) : Bool :=
  match queuePatternPrefix requested with
  | some stem => scope.any fun own =>
      own == ['*'] || own == requested || (queuePatternPrefix own).any (·.isPrefixOf stem)
  | none => queueScopeAllows scope requested

/-- May a key with the list `scope` give `requested` to a key it creates or updates? -/
def canGrantQueues (scope requested : List Text) : Bool :=
  if queueScopeIsUnrestricted scope then true
  else !requested.isEmpty && !requested.any (· == ['*']) && requested.all (queueScopeCovers scope)

/-! ## Restricted lists -/

variable {name stem : Text} {scope : List Text}

theorem queueScopeIsUnrestricted_iff :
    queueScopeIsUnrestricted scope = true ↔ scope = [] ∨ ['*'] ∈ scope := by
  unfold queueScopeIsUnrestricted
  rw [Bool.or_eq_true, List.isEmpty_iff, any_eq_true]
  constructor
  · rintro (h | ⟨q, hq, he⟩)
    · exact .inl h
    · rw [beq_iff_eq] at he
      exact .inr (he ▸ hq)
  · rintro (h | h)
    · exact .inl h
    · exact .inr ⟨_, h, beq_self_eq_true _⟩

theorem queueScopeAllows_iff (h : scope ≠ []) :
    queueScopeAllows scope name = true ↔ ∃ q ∈ scope, queuePatternMatches q name = true := by
  unfold queueScopeAllows
  rw [Bool.or_eq_true, List.isEmpty_iff, any_eq_true]
  exact or_iff_right h

theorem canGrantQueues_iff {requested : List Text}
    (hr : queueScopeIsUnrestricted scope = false) : canGrantQueues scope requested = true ↔
      requested ≠ [] ∧ ['*'] ∉ requested ∧ ∀ q ∈ requested, queueScopeCovers scope q = true := by
  unfold canGrantQueues
  rw [hr, if_neg Bool.false_ne_true, Bool.and_eq_true, Bool.and_eq_true, all_eq_true,
    Bool.not_eq_true', Bool.not_eq_true', isEmpty_eq_false_iff, any_eq_false, and_assoc]
  refine and_congr_right fun _ => and_congr_left fun _ => ?_
  constructor
  · intro h hmem
    exact h _ hmem (beq_self_eq_true _)
  · rintro h q hq he
    rw [beq_iff_eq] at he
    exact h (he ▸ hq)

/-! ## Soundness -/

/-- A `prefix.*` entry matches the names that start with its prefix. -/
theorem queuePatternMatches_of_stem {e : Text} (h : queuePatternPrefix e = some stem) :
    queuePatternMatches e name = stem.isPrefixOf name := by
  have hne : e ≠ ['*'] := by
    rintro rfl
    cases h
  unfold queuePatternMatches
  rw [if_neg hne, h]

theorem queueScopeAllows_of_covers {q : Text} (hs : scope ≠ [])
    (hq : q ≠ ['*']) (hc : queueScopeCovers scope q = true)
    (hm : queuePatternMatches q name = true) : queueScopeAllows scope name = true := by
  unfold queueScopeCovers at hc
  cases hp : queuePatternPrefix q with
  | none =>
    -- the entry is a name, and the only one it matches
    rw [hp] at hc
    unfold queuePatternMatches at hm
    rw [if_neg hq, hp] at hm
    rw [← beq_iff_eq.1 hm]
    exact hc
  | some stem =>
    rw [hp] at hc
    rw [queuePatternMatches_of_stem hp] at hm
    obtain ⟨own, hown, hc⟩ := any_eq_true.1 hc
    rw [queueScopeAllows_iff hs]
    refine ⟨own, hown, ?_⟩
    simp only [Bool.or_eq_true, beq_iff_eq, Option.any_eq_true] at hc
    rcases hc with (rfl | rfl) | ⟨stem', hp', hpre⟩
    · rfl
    · rw [queuePatternMatches_of_stem hp]
      exact hm
    · rw [queuePatternMatches_of_stem hp']
      rw [List.isPrefixOf_iff_prefix] at hpre hm ⊢
      exact hpre.trans hm

/-- **One grant** of a restricted key: the new key is restricted and reaches no further. -/
theorem granted_within {requested : List Text}
    (hr : queueScopeIsUnrestricted scope = false) (h : canGrantQueues scope requested = true) :
    queueScopeIsUnrestricted requested = false ∧
      ∀ name, queueScopeAllows requested name = true → queueScopeAllows scope name = true := by
  obtain ⟨hne, hstar, hcov⟩ := (canGrantQueues_iff hr).1 h
  have hs : scope ≠ [] := by
    rintro rfl
    cases hr
  constructor
  · rw [← Bool.not_eq_true, queueScopeIsUnrestricted_iff]
    rintro (hnil | hmem)
    · exact hne hnil
    · exact hstar hmem
  · intro name hname
    obtain ⟨q, hq, hm⟩ := (queueScopeAllows_iff hne).1 hname
    have hq' : q ≠ ['*'] := by
      rintro rfl
      exact hstar hq
    exact queueScopeAllows_of_covers hs hq' (hcov q hq) hm

/-! ## Completeness -/

/-- A name under `stem` that is longer than every entry of the list. -/
def longName (scope : List Text) (stem : Text) : Text :=
  stem ++ List.replicate (scope.flatten.length + 1) 'a'

theorem length_lt_longName {q : Text} (stem : Text) (hq : q ∈ scope) :
    q.length < (longName scope stem).length := by
  have hle : q.length ≤ scope.flatten.length := (sublist_flatten_of_mem hq).length_le
  unfold longName
  rw [length_append, length_replicate]
  omega

theorem star_not_mem_longName (h : '*' ∉ stem) :
    '*' ∉ longName scope stem := by
  unfold longName
  rw [mem_append, not_or]
  refine ⟨h, fun hmem => ?_⟩
  exact absurd (eq_of_mem_replicate hmem) (by decide)

theorem prefix_of_prefix_longName {r : Text}
    (h : r ++ ['.'] <+: longName scope stem) : r ++ ['.'] <+: stem := by
  unfold longName at h
  rcases prefix_or_prefix_of_prefix h (prefix_append stem _) with h' | ⟨u, hu⟩
  · exact h'
  -- otherwise the dot is one of the `a`s
  rcases eq_nil_or_concat u with rfl | ⟨u, c, rfl⟩
  · rw [append_nil] at hu
    rw [hu]
  · rw [concat_eq_append, ← append_assoc] at hu
    obtain ⟨-, hc⟩ := append_inj' hu rfl
    rw [← hu, append_assoc, prefix_append_right_inj] at h
    have hmem : c ∈ List.replicate (scope.flatten.length + 1) 'a' :=
      h.subset (mem_append_right u mem_cons_self)
    rw [(List.cons.inj hc).1] at hmem
    exact absurd (eq_of_mem_replicate hmem) (by decide)

/-- **No list of exact names is enough**: a restricted list that reaches the long
name has a `prefix.*` entry at least as broad as the stem. -/
theorem prefix_of_allows_longName (hr : queueScopeIsUnrestricted scope = false)
    (h : queueScopeAllows scope (longName scope stem) = true) :
    ∃ own ∈ scope, ∃ stem', queuePatternPrefix own = some stem' ∧ stem' <+: stem := by
  have hr' : ¬ (scope = [] ∨ ['*'] ∈ scope) := by
    rw [← queueScopeIsUnrestricted_iff, hr]
    exact Bool.false_ne_true
  rw [not_or] at hr'
  obtain ⟨own, hown, hm⟩ := (queueScopeAllows_iff hr'.1).1 h
  have hstar : own ≠ ['*'] := by
    rintro rfl
    exact hr'.2 hown
  cases hp : queuePatternPrefix own with
  | none =>
    unfold queuePatternMatches at hm
    rw [if_neg hstar, hp] at hm
    have hlt := length_lt_longName stem hown
    rw [beq_iff_eq.1 hm] at hlt
    exact absurd hlt (Nat.lt_irrefl _)
  | some stem' =>
    rw [queuePatternMatches_of_stem hp, isPrefixOf_iff_prefix] at hm
    obtain ⟨r, -, -, rfl, -⟩ := queuePatternPrefix_eq_some.1 hp
    exact ⟨own, hown, _, hp, prefix_of_prefix_longName hm⟩

section Valid

variable {alphanumeric : Char → Bool}

/-- In an accepted entry a star stands alone or ends a `prefix.*`. -/
theorem star_not_mem_of_validateQueue {q : Text} (h : validateQueue alphanumeric q = .ok ())
    (hstar : q ≠ ['*']) (hp : queuePatternPrefix q = none) : '*' ∉ q := by
  intro hmem
  unfold validateQueue at h
  split at h
  · cases h
  split at h
  · cases h
  split at h
  · cases h
  · next hbad => exact hbad ⟨hmem, hstar, hp⟩

theorem covers_of_allows {scope : List Text} {q : Text}
    (hr : queueScopeIsUnrestricted scope = false) (hv : validateQueue alphanumeric q = .ok ())
    (hq : q ≠ ['*']) (h : ∀ name, '*' ∉ name → queuePatternMatches q name = true →
      queueScopeAllows scope name = true) : queueScopeCovers scope q = true := by
  unfold queueScopeCovers
  cases hp : queuePatternPrefix q with
  | none =>
    have hstar := star_not_mem_of_validateQueue hv hq hp
    exact h q hstar (queuePatternMatches_self hstar)
  | some stem =>
    obtain ⟨r, -, -, rfl, hstar⟩ := queuePatternPrefix_eq_some.1 hp
    have hlong : queueScopeAllows scope (longName scope (r ++ ['.'])) = true := by
      apply h
      · apply star_not_mem_longName
        rw [mem_append, not_or]
        exact ⟨hstar, by decide⟩
      · rw [queuePatternMatches_of_stem hp, isPrefixOf_iff_prefix]
        exact prefix_append _ _
    obtain ⟨own, hown, stem', hp', hpre⟩ := prefix_of_allows_longName hr hlong
    rw [any_eq_true]
    refine ⟨own, hown, ?_⟩
    rw [hp', Bool.or_eq_true]
    exact .inr (List.isPrefixOf_iff_prefix.2 hpre)

/-- **Nothing within reach is refused.** -/
theorem canGrantQueues_of_within {scope requested : List Text} (hne : requested ≠ [])
    (hv : validateQueues alphanumeric requested = .ok ())
    (h : ∀ name, '*' ∉ name → queueScopeAllows requested name = true →
      queueScopeAllows scope name = true) : canGrantQueues scope requested = true := by
  cases hr : queueScopeIsUnrestricted scope with
  | true =>
    unfold canGrantQueues
    rw [if_pos hr]
  | false =>
    have hmatch : ∀ q ∈ requested, ∀ name, '*' ∉ name → queuePatternMatches q name = true →
        queueScopeAllows scope name = true := fun q hq name hn hm =>
      h name hn ((queueScopeAllows_iff hne).2 ⟨q, hq, hm⟩)
    have hstar : ['*'] ∉ requested := by
      -- a star reaches the long name under the empty stem
      intro hmem
      have hlong : queueScopeAllows scope (longName scope []) = true :=
        hmatch _ hmem _ (star_not_mem_longName not_mem_nil) rfl
      obtain ⟨own, -, stem', hp, hpre⟩ := prefix_of_allows_longName hr hlong
      obtain ⟨r, -, -, rfl, -⟩ := queuePatternPrefix_eq_some.1 hp
      rw [prefix_nil] at hpre
      exact absurd hpre (append_ne_nil_of_right_ne_nil r (cons_ne_nil _ _))
    refine (canGrantQueues_iff hr).2 ⟨hne, hstar, fun q hq => ?_⟩
    apply covers_of_allows hr (validateQueue_of_mem hv q hq) _ (hmatch q hq)
    rintro rfl
    exact hstar hq

/-! ## Chains of grants -/

variable (alphanumeric)

/-- A key with the list `scope` creates one with the list `requested`, or updates one to it. -/
def Grants (scope requested : List Text) : Prop :=
  validateQueues alphanumeric requested = .ok () ∧ canGrantQueues scope requested = true

/-- **No escalation through grants.** Along a chain of grants from a restricted
key nobody is unrestricted and nobody reaches a name the first key does not;
and an accepted list within the granter's reach is never refused. -/
theorem no_queue_escalation :
    (∀ (first : List Text) (chain : List (List Text)), queueScopeIsUnrestricted first = false →
      List.IsChain (Grants alphanumeric) (first :: chain) →
      ∀ key ∈ first :: chain, queueScopeIsUnrestricted key = false ∧
        ∀ name, queueScopeAllows key name = true → queueScopeAllows first name = true) ∧
    ∀ scope requested : List Text, requested ≠ [] →
      validateQueues alphanumeric requested = .ok () →
      (∀ name, '*' ∉ name → queueScopeAllows requested name = true →
        queueScopeAllows scope name = true) → canGrantQueues scope requested = true := by
  refine ⟨fun first chain hr hchain => ?_, fun scope requested => canGrantQueues_of_within⟩
  induction chain generalizing first with
  | nil =>
    intro key hkey
    rw [mem_singleton.1 hkey]
    exact ⟨hr, fun _ h => h⟩
  | cons second chain ih =>
    rw [isChain_cons_cons] at hchain
    obtain ⟨hr', hwithin⟩ := granted_within hr hchain.1.2
    intro key hkey
    rcases mem_cons.1 hkey with rfl | hkey
    · exact ⟨hr, fun _ h => h⟩
    · obtain ⟨hkr, hkw⟩ := ih second hr' hchain.2 key hkey
      exact ⟨hkr, fun name hname => hwithin name (hkw name hname)⟩

/-- `orders.*` to `orders.eu.*` to `orders.eu.west`. -/
theorem no_queue_escalation_orders :
    queueScopeAllows ["orders.*".toList] "orders.eu.west".toList = true ∧
      canGrantQueues ["orders.*".toList] ["orders.eu.*".toList] = true := by
  obtain ⟨hsound, hcomplete⟩ := no_queue_escalation fun c => c.isAlphanum
  constructor
  · have hchain := hsound ["orders.*".toList] [["orders.eu.*".toList], ["orders.eu.west".toList]]
      (by decide) (by
        simp only [isChain_cons_cons, isChain_singleton, and_true]
        exact ⟨⟨by decide +kernel, by decide⟩, by decide +kernel, by decide⟩)
    exact (hchain ["orders.eu.west".toList] (by decide)).2 _ (by decide)
  · apply hcomplete _ _ (by decide) (by decide +kernel)
    intro name _ hname
    exact (granted_within (by decide) (by decide)).2 name hname

end Valid

end Spooled
