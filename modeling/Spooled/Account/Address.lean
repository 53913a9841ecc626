import Spooled.Account.Step

/-!
# One organization per address

An email login resolves an organization by its confirmed billing address. No
constraint keeps these addresses apart: every request that is about to give an
organization an address looks whether another one has it, and writes later. The
invariant is that an address between the two is free, and that two requests are
never between them with one address. The second half is not the code's doing, so it
is the condition of the result.
-/

namespace Spooled.Account

variable {s : Registry} {os : List AccountProc} {p p' : AccountProc} {q : Option AccountProc}
  {c : AccountCommand} {e : Email} {i : OrgId}

/-! ## Addresses -/

def Registry.Holder (s : Registry) (e : Email) (i : OrgId) : Prop :=
  ∃ o ∈ s.orgs.rows, o.id = i ∧ o.loginEmail = some e

/-- An address, and the organization that is to have it; `none`: a new one. -/
abbrev Reservation := Email × Option OrgId

def Registry.Free (s : Registry) (r : Reservation) : Prop := ∀ i, s.Holder r.1 i → r.2 = some i

def Registry.Unambiguous (s : Registry) : Prop := ∀ e i j, s.Holder e i → s.Holder e j → i = j

theorem free_of_not_taken {exclude : Option OrgId} (h : s.billingEmailTaken e exclude = false) :
    s.Free (e, exclude) := by
  rintro i ⟨o, ho, rfl, he⟩
  have hno := List.any_eq_false.1 h o ho
  rw [he] at hno
  cases exclude with
  | none => simp at hno
  | some j =>
    simp only [beq_self_eq_true, Bool.true_and, Option.all_some, bne_iff_ne, ne_eq,
      Decidable.not_not] at hno
    exact congrArg some hno.symm

theorem earliest_eq_none {l : List Organization} (h : Registry.earliest l = none) : l = [] := by
  cases l with
  | nil => rfl
  | cons o l =>
    simp only [Registry.earliest] at h
    split at h
    · nomatch h
    · split at h <;> nomatch h

variable {o : Organization} {r : Reservation} {t : Time}

theorem earliest_mem {l : List Organization} (h : Registry.earliest l = some o) : o ∈ l := by
  induction l generalizing o with
  | nil => nomatch h
  | cons a l ih =>
    simp only [Registry.earliest] at h
    split at h
    · cases h
      exact List.mem_cons_self
    · next b hb =>
      split at h
      · cases h
        exact List.mem_cons_of_mem _ (ih hb)
      · cases h
        exact List.mem_cons_self

theorem free_of_unresolved (h : s.verifiedOrgByEmail e = none) : s.Free (e, none) := by
  rintro i ⟨o, ho, -, he⟩
  have hnil := earliest_eq_none (Option.map_eq_none_iff.1 h)
  have hmem : o ∈ s.orgs.rows.filter (·.loginEmail == some e) :=
    List.mem_filter.2 ⟨ho, beq_iff_eq.2 he⟩
  rw [hnil] at hmem
  exact absurd hmem List.not_mem_nil

/-! ## Between the check and the write -/

def SignupPhase.reserved : SignupPhase → Option Email
  | find | checkEmail .. => none
  | checkSlug _ e | insert _ e | insertKey _ e _ | consume _ e _ | commit _ e _ => some e

def CreatePhase.isChecked : CreatePhase → Bool
  | checkEmail => false
  | _ => true

def ConfirmPhase.reserved : ConfirmPhase → Option Email
  | previous e | update e .. | revokeCodes e .. | revokeKeys e .. | commit e .. => some e
  | _ => none

/-- The row an admin's update has read, and does it drop the address? -/
def PatchPhase.plan : PatchPhase → Option (Organization × Bool)
  | update o dropped | revokeCodes o dropped _ | revokeKeys o dropped .. | commit o dropped .. =>
    some (o, dropped)
  | _ => none

/-- The address that an admin's update gives or gives back. -/
def Patch.address (p : Patch) (o : Organization) (dropped : Bool) : Option Email :=
  match p.email with
  | some e => some e
  | none => if p.restoring o && o.verifiedAt.isSome && !dropped then o.billingEmail else none

namespace AccountProc

def reserve : AccountProc → Option Reservation
  | signup p => p.phase.reserved.map (·, none)
  | create p => if p.byAdmin && p.phase.isChecked then p.email.map (·, none) else none
  | confirm p => p.phase.reserved.map (·, some p.org)
  | patch p => (p.phase.plan.bind fun x => p.address x.1 x.2).map (·, some p.org)
  | _ => none

def checking : AccountProc → Option Reservation
  | signup p =>
    match p.phase with
    | .checkEmail _ e => some (e, none)
    | _ => none
  | create p => if p.byAdmin && !p.phase.isChecked then p.email.map (·, none) else none
  | confirm p =>
    match p.phase with
    | .checkTaken e => some (e, some p.org)
    | _ => none
  | patch p =>
    match p.phase with
    | .check o => (p.address o false).map (·, some p.org)
    | _ => none
  | _ => none

end AccountProc

/-- **A request reserves only what it has found free.** -/
theorem AccountProc.reserve_of_stay (h : p.act s os = some (.stay p'))
    (hr : p'.reserve = some r) : p.reserve = some r ∨ p.checking = some r ∧ s.Free r := by
  cases p.turns.of_stay h with
  | update | delete | sendCode | login => nomatch hr
  | signup hgoes =>
    clear h
    simp only [reserve, checking] at hr ⊢
    cases hgoes with
    | found => nomatch hr
    | free h hf =>
      cases hr
      rw [h]
      exact .inr ⟨rfl, free_of_unresolved hf⟩
    | slug h | insert h | insertKey h | consume h =>
      rw [h]
      exact .inl hr
  | create hgoes =>
    clear h
    simp only [reserve, checking] at hr ⊢
    cases hgoes with
    | free h hf =>
      right
      rw [h]
      split at hr
      · next hb =>
        obtain ⟨e, he, rfl⟩ := Option.map_eq_some_iff.1 hr
        refine ⟨?_, free_of_not_taken (hf e he)⟩
        rw [Bool.and_eq_true] at hb
        rw [hb.1, he]
        rfl
      · nomatch hr
    | insert h | insertKey h =>
      rw [h]
      exact .inl hr
  | confirm hgoes =>
    clear h
    simp only [reserve, checking] at hr ⊢
    cases hgoes with
    | begins hphase => obtain rfl | ⟨e, rfl⟩ | ⟨e, c, m, rfl⟩ | ⟨c, rfl⟩ := hphase <;> nomatch hr
    | free h hf =>
      cases hr
      rw [h]
      exact .inr ⟨rfl, free_of_not_taken hf⟩
    | previous h | updated h | same h | replaces h | revoked h =>
      rw [h]
      exact .inl hr
  | @patch p phase hgoes =>
    clear h
    simp only [reserve, checking] at hr ⊢
    cases hgoes with
    | read => nomatch hr
    | free h he hf =>
      rw [h]
      simp only [PatchPhase.plan, Option.bind_some, Patch.address, he] at hr ⊢
      cases hr
      exact .inr ⟨rfl, free_of_not_taken hf⟩
    | restores h he hd =>
      rw [h]
      simp only [PatchPhase.plan, Option.bind_some, Patch.address, he] at hr ⊢
      obtain ⟨e, hkeep, rfl⟩ := Option.map_eq_some_iff.1 hr
      split at hkeep
      · next hb =>
        simp only [Bool.and_eq_true, Bool.not_eq_true'] at hb
        obtain ⟨⟨hrestore, hver⟩, rfl⟩ := hb
        have hrestore : p.restoring _ = true := hrestore
        simp only [hrestore, hver, hkeep, Option.any_some, Bool.and_self, Bool.true_and] at hd ⊢
        exact .inr ⟨rfl, free_of_not_taken hd.symm⟩
      · nomatch hkeep
    | updated h | same h | replaces h | revoked h =>
      rw [h]
      exact .inl hr

/-! ## What a write may rely on -/

/-- The columns an admin's update writes back from what it has read. -/
def Organization.agrees (o existing : Organization) : Bool :=
  o.isLive == existing.isLive && o.billingEmail == existing.billingEmail &&
    o.verifiedAt.isSome == existing.verifiedAt.isSome

/-- An admin's update without an address holds the row as it has read it. -/
def Patch.Holds (s : Registry) (p : Patch) : Prop :=
  p.email = none → p.phase.isOpen = true → ∀ x ∈ p.phase.plan, x.2 = false →
    ∃ o, s.orgs.find p.org = some o ∧ o.agrees x.1 = true

theorem OrgWrite.loginEmail_admin {tier : PlanTier} {email : Option Email} {vouched dropped : Bool}
    (h : ((admin tier email vouched dropped t).apply o).loginEmail = some e) :
    tier ≠ .deleted ∧ email = some e ∧ dropped = false ∧ (vouched = true ∨ o.verifiedAt.isSome) := by
  cases dropped with
  | true => simp [apply, Organization.loginEmail] at h
  | false =>
    simp only [apply, Organization.loginEmail, Organization.isLive, Option.ite_none_right_eq_some,
      Bool.and_eq_true, bne_iff_ne, Bool.false_eq_true, if_false] at h
    obtain ⟨⟨htier, hver⟩, hemail⟩ := h
    refine ⟨htier, hemail, rfl, ?_⟩
    cases vouched with
    | true => exact .inl rfl
    | false => exact .inr hver

theorem OrgWrite.loginEmail_verify {new : Email}
    (h : ((verify new t).apply o).loginEmail = some e) : new = e := by
  unfold Organization.loginEmail at h
  split at h
  · exact Option.some.inj h
  · nomatch h

theorem OrgWrite.loginEmail_user {email : Option Email}
    (h : ((user email).apply o).loginEmail = some e) : o.loginEmail = some e := by
  cases email with
  | none => exact h
  | some new =>
    simp only [apply] at h
    split at h
    · exact h
    · split at h
      · exact h
      · simp [Organization.loginEmail] at h

theorem Patch.loginEmail_of_commit {p : Patch} {x : Organization} {dropped : Bool}
    (hp : p.email = none → dropped = false → o.agrees x = true)
    (h : (OrgWrite.apply o (.admin (p.newTier x) (p.newEmail x dropped) p.email.isSome dropped t)).loginEmail
      = some e) : o.loginEmail = some e ∨ p.address x dropped = some e := by
  obtain ⟨htier, hemail, rfl, hver⟩ := OrgWrite.loginEmail_admin h
  simp only [newEmail, Bool.false_eq_true, if_false] at hemail
  unfold address
  cases he : p.email with
  | some new =>
    rw [he] at hemail
    exact .inr hemail
  | none =>
    have hag := hp he rfl
    rw [he] at hemail hver
    have hver : o.verifiedAt.isSome = true := by simpa using hver
    have hemail : x.billingEmail = some e := by simpa using hemail
    simp only [Organization.agrees, Bool.and_eq_true, beq_iff_eq] at hag
    obtain ⟨⟨hlive, hbill⟩, hv⟩ := hag
    cases hx : x.isLive with
    | true =>
      left
      simp only [Organization.loginEmail, hlive, hx, hver, hbill, hemail, Bool.and_self, if_true]
    | false =>
      right
      have hrestore : p.restoring x = true := by
        simp only [restoring, hx, Bool.not_false, Bool.true_and, bne_iff_ne]
        exact htier
      simp only [hrestore, ← hv, hver, Bool.not_false, Bool.and_self, if_true, hemail]

theorem AccountCommand.orgs_of_aside (h : c.isAside = true) : (c.run s).orgs = s.orgs := by
  cases c with
  | insertCode | chargeCode | useCode | advance => rfl
  | _ => nomatch h

theorem Registry.holder_write {w : OrgWrite} {j : OrgId}
    (ho : o ∈ (s.write j w).rows) (he : o.loginEmail = some e) :
    s.Holder e o.id ∨
      o.id = j ∧ ∃ o₀, s.orgs.find j = some o₀ ∧ (w.apply o₀).loginEmail = some e := by
  obtain ⟨o₀, ho₀, rfl⟩ := Registry.mem_write.1 ho
  split at he
  · next hj =>
    rw [if_pos hj, w.apply_id]
    have hj := beq_iff_eq.1 hj
    exact .inr ⟨hj, o₀, hj ▸ Table.find_key ho₀, he⟩
  · next hj =>
    rw [if_neg hj]
    exact .inl ⟨o₀, ho₀, rfl, he⟩

theorem holder_of_run (h : p.Runs s os c q) (hp : ∀ x, p = .patch x → x.Holds s)
    (hi : (c.run s).Holder e i) :
    s.Holder e i ∨ p.reserve = some (e, none) ∧ i = s.nextId ∨ p.reserve = some (e, some i) := by
  obtain ⟨o, ho, rfl, he⟩ := hi
  cases h with
  | signup h =>
    rcases Table.mem_insert.1 ho with ho | ⟨-, rfl⟩
    · exact .inl ⟨o, ho, rfl, he⟩
    · cases he
      refine .inr (.inl ⟨?_, rfl⟩)
      simp only [AccountProc.reserve, h]
      rfl
  | @create p t h =>
    rcases Table.mem_insert.1 ho with ho | ⟨-, rfl⟩
    · exact .inl ⟨o, ho, rfl, he⟩
    · refine .inr (.inl ⟨?_, rfl⟩)
      simp only [Organization.loginEmail, Option.ite_none_right_eq_some, Bool.and_eq_true,
        Create.verifiedAt] at he
      obtain ⟨⟨-, hver⟩, hemail⟩ := he
      split at hver
      · next hadmin =>
        simp only [AccountProc.reserve, h, hadmin.1, hemail]
        rfl
      · nomatch hver
  | confirm h =>
    rcases Registry.holder_write ho he with hold | ⟨hid, o₀, ho₀, hnew⟩
    · exact .inl hold
    · obtain rfl := OrgWrite.loginEmail_verify hnew
      refine .inr (.inr ?_)
      simp only [AccountProc.reserve, h, hid]
      rfl
  | @patch p x dropped t burned revoked h =>
    rcases Registry.holder_write ho he with hold | ⟨hid, o₀, ho₀, hnew⟩
    · exact .inl hold
    · have hag : p.email = none → dropped = false → o₀.agrees x = true := by
        intro hemail hd
        obtain ⟨o', ho', hag⟩ := hp p rfl hemail (by rw [h]; rfl) (x, dropped) (by rw [h]; rfl) hd
        rw [ho₀] at ho'
        exact Option.some.inj ho' ▸ hag
      rcases Patch.loginEmail_of_commit hag hnew with hold | haddr
      · exact .inl ⟨o₀, Table.mem_of_find ho₀, (Table.key_of_find ho₀).trans hid.symm, hold⟩
      · refine .inr (.inr ?_)
        simp only [AccountProc.reserve, h, PatchPhase.plan, Option.bind_some, haddr, hid]
        rfl
  | update h =>
    rcases Registry.holder_write ho he with hold | ⟨hid, o₀, ho₀, hnew⟩
    · exact .inl hold
    · exact .inl ⟨o₀, Table.mem_of_find ho₀, (Table.key_of_find ho₀).trans hid.symm,
        OrgWrite.loginEmail_user hnew⟩
  | softDelete h =>
    rcases Registry.holder_write ho he with hold | ⟨hid, o₀, ho₀, hnew⟩
    · exact .inl hold
    · simp [OrgWrite.apply, Organization.loginEmail, Organization.isLive] at hnew
  | hardDelete h =>
    exact .inl ⟨o, (Table.mem_delete.1 ho).1, rfl, he⟩
  | insertKey | issue => exact .inl ⟨o, ho, rfl, he⟩
  | aside hc =>
    rw [AccountCommand.orgs_of_aside hc] at ho
    exact .inl ⟨o, ho, rfl, he⟩

/-! ## The invariant -/

def Reservation.Clashes (r r' : Reservation) : Prop := r.1 = r'.1 ∧ (r.2 = none ∨ r.2 ≠ r'.2)

instance (r r' : Reservation) : Decidable (r.Clashes r') := inferInstanceAs (Decidable (_ ∧ _))

theorem Reservation.Clashes.symm {r' : Reservation} (h : r.Clashes r') : r'.Clashes r := by
  refine ⟨h.1.symm, ?_⟩
  rcases h.2 with hn | hne
  · cases hr : r'.2 with
    | none => exact .inl rfl
    | some i =>
      rw [hn]
      exact .inr nofun
  · exact .inr (Ne.symm hne)

theorem Reservation.eq_of_not_clashes {j : Option OrgId} (h : ¬ Clashes (e, some i) (e, j)) :
    j = some i := by
  by_contra hj
  exact h ⟨rfl, .inr (Ne.symm hj)⟩

/-- An admin's update without an address writes back what the row holds. -/
def AccountProc.rereads (s : Registry) : AccountProc → Bool
  | patch ⟨org, _, none, .update o false⟩ => (s.orgs.find org).all (·.agrees o)
  | _ => true

/-- Nobody checks an address that another request has checked and not written yet, and an admin's
update without an address finds the row as it was read. -/
@[reducible] def addressesInTurn : PoolSpec.Allow accountRequests.pool :=
  .onRun accountRequests.pool fun s os p => decide (∀ q ∈ os, ∀ r ∈ AccountProc.checking p,
    ∀ r' ∈ AccountProc.reserve q, ¬ r.Clashes r') && AccountProc.rereads s p

structure AccountProc.Reserves (s : Registry) (p : AccountProc) : Prop where
  free : ∀ r ∈ p.reserve, s.Free r
  row : ∀ x, p = .patch x → x.Holds s

def AccountProc.Disjoint (p q : AccountProc) : Prop :=
  ∀ r ∈ p.reserve, ∀ r' ∈ q.reserve, ¬ r.Clashes r'

theorem AccountAsk.reserve_proc (a : AccountAsk) : a.proc.reserve = none := by
  cases a with
  | create email byAdmin tier => cases byAdmin <;> rfl
  | _ => rfl

theorem AccountAsk.patch_proc {a : AccountAsk} {x : Patch} (h : a.proc = .patch x) :
    x.phase = .read := by
  cases a with
  | patch =>
    cases h
    rfl
  | _ => nomatch h

theorem Patch.holds_of_goes {p : Patch} {phase : PatchPhase} (h : p.Goes s os phase)
    (hrow : AccountProc.rereads s (.patch p) = true) (hp : p.Holds s) :
    Patch.Holds s { p with phase } := by
  intro hemail hopen x hx hd
  cases h with
  | read | free | restores => nomatch hopen
  | @updated o dropped h hfree ho =>
    obtain ⟨row, hrow'⟩ := Option.isSome_iff_exists.1 ho
    cases hx
    subst hd
    refine ⟨row, hrow', ?_⟩
    obtain ⟨org, tier, email, phase⟩ := p
    cases h
    cases hemail
    simpa [AccountProc.rereads, hrow'] using hrow
  | same h | replaces h | revoked h => exact hp hemail (by rw [h]; rfl) x (by rw [h]; exact hx) hd

theorem AccountProc.reserve_of_run (h : p.Runs s os c (some p')) : p'.reserve = none := by
  cases h with
  | confirm | patch | insertKey => rfl
  | aside hc hq =>
    have hq := hq p' rfl
    unfold onCode at hq
    split at hq <;> first | rfl | cases hq

theorem AccountProc.onPatch_of_run {x : Patch} (h : p.Runs s os c (some (.patch x))) :
    x.phase = .answered := by
  cases h with
  | patch => rfl
  | aside hc hq => exact absurd (hq _ rfl) (by simp [onCode])

theorem unambiguous_of_run {s' : Registry} (hs : s.Unambiguous) (hfree : ∀ r ∈ p.reserve, s.Free r)
    (h : ∀ e i, s'.Holder e i → s.Holder e i ∨ p.reserve = some (e, none) ∧ i = s.nextId ∨
      p.reserve = some (e, some i)) : s'.Unambiguous := by
  intro e i j hi hj
  rcases h e i hi with hold | ⟨hnew, hid⟩ | hown
  · rcases h e j hj with hold' | ⟨hnew, -⟩ | hown
    · exact hs e i j hold hold'
    · have hno : none = some i := hfree (e, none) hnew i hold
      nomatch hno
    · exact (Option.some.inj (hfree (e, some j) hown i hold)).symm
  · rcases h e j hj with hold | ⟨-, hid'⟩ | hown
    · have hno : none = some j := hfree (e, none) hnew j hold
      nomatch hno
    · exact hid.trans hid'.symm
    · nomatch hnew.symm.trans hown
  · rcases h e j hj with hold | ⟨hnew, -⟩ | hown'
    · exact Option.some.inj (hfree (e, some i) hown j hold)
    · nomatch hown.symm.trans hnew
    · have hsame := hown.symm.trans hown'
      cases hsame
      rfl

theorem free_of_run {s' : Registry} (hr : s.Free r)
    (hdisj : ∀ r' ∈ p.reserve, ¬ r'.Clashes r)
    (h : ∀ e i, s'.Holder e i → s.Holder e i ∨ p.reserve = some (e, none) ∧ i = s.nextId ∨
      p.reserve = some (e, some i)) : s'.Free r := by
  intro i hi
  rcases h r.1 i hi with hi | ⟨hp, -⟩ | hp
  · exact hr i hi
  · exact absurd ⟨rfl, .inl rfl⟩ (hdisj _ hp)
  · exact Reservation.eq_of_not_clashes (hdisj _ hp)

/-- **Addresses are reserved by one request at a time.** -/
theorem addresses_kept : PoolSpec.Kept accountRequests.pool addressesInTurn
    (fun s => s.Fresh ∧ s.Unambiguous) (fun s p => True ∧ AccountProc.Reserves s p)
    fun _ p q => AccountProc.Apart p q ∧ AccountProc.Disjoint p q := by
  refine (accountRequests_kept addressesInTurn).over ?_
  refine ⟨fun h r hr r' hr' => ?_, fun {s a} _ _ hs => ⟨hs, ?_⟩, fun {s a q} _ _ _ _ hq => ⟨hq, ?_⟩,
    id, fun {s os p p'} h hA hb hb₂ => ?_, fun {s os p s' p' tell} he hA hb hb₂ => ?_⟩
  · exact fun hc => h r' hr' r hr hc.symm
  · refine ⟨fun r hr => ?_, fun x hx hemail hopen => ?_⟩
    · nomatch (AccountAsk.reserve_proc a).symm.trans hr
    · rw [AccountAsk.patch_proc hx] at hopen
      nomatch hopen
  · intro r hr
    nomatch (AccountAsk.reserve_proc a).symm.trans hr
  · replace h := CommandSpec.pool_stay h
    have hreserve : ∀ r ∈ p'.reserve, p.reserve = some r ∨ p.checking = some r ∧ s.Free r :=
      fun r hr => AccountProc.reserve_of_stay h hr
    refine ⟨⟨fun r hr => ?_, fun x hx => ?_⟩, fun q hq r hr r' hr' => ?_⟩
    · rcases hreserve r hr with hold | ⟨-, hfree⟩
      · exact hb₂.own.free r hold
      · exact hfree
    · subst hx
      cases p.turns.of_stay h with
      | patch hgoes =>
        exact Patch.holds_of_goes hgoes (Bool.and_eq_true_iff.1 hA).2 (hb₂.own.row _ rfl)
    · rcases hreserve r hr with hold | ⟨hcheck, -⟩
      · exact hb₂.pair q hq r hold r' hr'
      · exact of_decide_eq_true (Bool.and_eq_true_iff.1 hA).1 q hq r hcheck r' hr'
  · obtain ⟨c, h, rfl, rfl⟩ := CommandSpec.pool_share he
    have hruns := AccountProc.runs h
    have hholder : ∀ e i, (c.run s).Holder e i → s.Holder e i ∨
        p.reserve = some (e, none) ∧ i = s.nextId ∨ p.reserve = some (e, some i) :=
      fun e i => holder_of_run hruns hb₂.own.row
    refine ⟨unambiguous_of_run hb₂.store hb₂.own.free hholder, fun r hr => ?_, fun q hq => ⟨?_, ?_⟩,
      fun _ _ _ _ _ h => h⟩
    · cases hr
      refine ⟨⟨fun r hr => ?_, fun x hx hemail hopen => ?_⟩, fun q _ r hr => ?_⟩
      · nomatch (AccountProc.reserve_of_run hruns).symm.trans hr
      · subst hx
        rw [AccountProc.onPatch_of_run hruns] at hopen
        nomatch hopen
      · nomatch (AccountProc.reserve_of_run hruns).symm.trans hr
    · exact fun r hr => free_of_run ((hb₂.others q hq).free r hr) (hb₂.pair q hq · · r hr) hholder
    · rintro x rfl hemail hopen y hy hd
      obtain ⟨o, ho, hag⟩ := (hb₂.others _ hq).row x rfl hemail hopen y hy hd
      have hl : AccountProc.orgLock (.patch x) = some x.org := if_pos hopen
      exact ⟨o, hruns.find_of_lock hb.store hq hl (hb.pair _ hq) ho, hag⟩

/-! ## The result -/

def accountSystem : Machine :=
  accountRequests.pool.machine fun s => s.Fresh ∧ s.Unambiguous

theorem verifiedOrgByEmail_of_mem (hs : s.Unambiguous) (ho : o ∈ s.orgs.rows)
    (he : o.loginEmail = some e) : s.verifiedOrgByEmail e = some o.id := by
  have hmem : o ∈ s.orgs.rows.filter (·.loginEmail == some e) :=
    List.mem_filter.2 ⟨ho, beq_iff_eq.2 he⟩
  cases hf : Registry.earliest (s.orgs.rows.filter (·.loginEmail == some e)) with
  | none =>
    rw [earliest_eq_none hf] at hmem
    exact absurd hmem List.not_mem_nil
  | some b =>
    obtain ⟨hb, hbe⟩ := List.mem_filter.1 (earliest_mem hf)
    unfold Registry.verifiedOrgByEmail
    rw [hf]
    exact congrArg some (hs e b.id o.id ⟨b, hb, rfl, beq_iff_eq.1 hbe⟩ ⟨o, ho, rfl, he⟩)

/-- **One live organization per confirmed address**, and a login by the address finds it. -/
theorem one_organization_per_address {x : Pool Registry AccountProc}
    {h : List (Pool Registry AccountProc × PoolLabel AccountAsk)} (hr : accountSystem.Run x h)
    (hC : accountSystem.Steps addressesInTurn.step h) {o : Organization}
    (ho : o ∈ x.store.orgs.rows) (hlive : o.isLive = true) (hver : o.verifiedAt.isSome = true)
    {e : Email} (he : o.billingEmail = some e) :
    (∀ o' ∈ x.store.orgs.rows, o'.isLive = true → o'.verifiedAt.isSome = true →
      o'.billingEmail = some e → o' = o) ∧ x.store.verifiedOrgByEmail e = some o.id := by
  have hinv := (addresses_kept.invariant (fun _ hs => hs) hr hC).store.2
  have hlogin : ∀ o' : Organization, o'.isLive = true → o'.verifiedAt.isSome = true →
      o'.billingEmail = some e → o'.loginEmail = some e := by
    intro o' hl hv hb
    simp only [Organization.loginEmail, hl, hv, hb, Bool.and_self, if_true]
  refine ⟨fun o' ho' hl hv hb => ?_, verifiedOrgByEmail_of_mem hinv ho (hlogin o hlive hver he)⟩
  exact Table.eq_of_key ho' ho (hinv e o'.id o.id ⟨o', ho', rfl, hlogin o' hl hv hb⟩
    ⟨o, ho, rfl, hlogin o hlive hver he⟩)

/-! ## Two signups -/

def newRegistry : Pool Registry AccountProc := ⟨{ orgs := .empty, nextId := 1 }, []⟩

theorem newRegistry_init : newRegistry.store.Fresh ∧ newRegistry.store.Unambiguous :=
  ⟨⟨nofun, nofun⟩, fun _ _ _ ⟨_, ho, _⟩ => absurd ho List.not_mem_nil⟩

/-- The owner of an address proves it with a code and gets a signup token. -/
def proveAddress (e code token : Text) : List (PoolLabel AccountAsk) :=
  [.ask (.startLogin e code), .run 0, .run 0, .ask (.login e code (some true) token), .run 0,
    .run 0, .run 0, .run 0]

/-- A signup up to the check of its address, and the rest of it. -/
def signUp (token : Text) : List (PoolLabel AccountAsk) :=
  [.ask (.signup token false false), .run 0, .run 0]

def completeSignup : List (PoolLabel AccountAsk) := List.replicate 5 (.run 0)

/-- The second signup is refused. -/
theorem one_organization_per_address_kept : ∃ x h, accountSystem.Run x h ∧
    accountSystem.Steps addressesInTurn.step h ∧
    ∃ o ∈ x.store.orgs.rows, o.billingEmail = some ['a'] ∧
      x.store.verifiedOrgByEmail ['a'] = some o.id ∧ ∀ o' ∈ x.store.orgs.rows,
        o'.isLive = true → o'.verifiedAt.isSome = true → o'.billingEmail = some ['a'] → o' = o := by
  obtain ⟨x, h, hr, hC, hp⟩ := addressesInTurn.run_of_exec (fun s => s.Fresh ∧ s.Unambiguous)
    (proveAddress ['a'] ['1'] ['s'] ++ proveAddress ['a'] ['2'] ['t'] ++ signUp ['s'] ++
      completeSignup ++ signUp ['t']) newRegistry
    (fun x => x.1.store.orgs.rows == [⟨5, .free, some ['a'], some 0, none⟩])
    ⟨newRegistry_init, rfl⟩ (by decide +kernel)
  have hmem : (⟨5, .free, some ['a'], some 0, none⟩ : Organization) ∈ x.store.orgs.rows := by
    rw [beq_iff_eq.1 hp]
    exact List.mem_cons_self
  have hone := one_organization_per_address hr hC hmem rfl rfl rfl
  exact ⟨x, h, hr, hC, _, hmem, rfl, hone.2, hone.1⟩

/-- Two tokens for one address: both signups find it free, then both commit. -/
theorem two_signups_share_address : ∃ x h, accountSystem.Run x h ∧
    ∃ o ∈ x.store.orgs.rows, ∃ o' ∈ x.store.orgs.rows, o.id ≠ o'.id ∧
      o.isLive = true ∧ o'.isLive = true ∧ o.verifiedAt.isSome = true ∧ o'.verifiedAt.isSome = true ∧
      o.billingEmail = some ['a'] ∧ o'.billingEmail = some ['a'] := by
  obtain ⟨x, h, hr, hp⟩ := Machine.Run.of_exec accountSystem
    (proveAddress ['a'] ['1'] ['s'] ++ proveAddress ['a'] ['2'] ['t'] ++ signUp ['s'] ++
      signUp ['t'] ++ completeSignup ++ completeSignup) newRegistry
    (fun x => x.1.store.orgs.rows ==
      [⟨5, .free, some ['a'], some 0, none⟩, ⟨7, .free, some ['a'], some 0, none⟩])
    ⟨newRegistry_init, rfl⟩ (by decide +kernel)
  have hrows := beq_iff_eq.1 hp
  refine ⟨x, h, hr, ⟨5, .free, some ['a'], some 0, none⟩, ?_, ⟨7, .free, some ['a'], some 0, none⟩,
    ?_, by decide, rfl, rfl, rfl, rfl, rfl, rfl⟩
  · rw [hrows]
    exact List.mem_cons_self
  · rw [hrows]
    exact List.mem_cons_of_mem _ List.mem_cons_self

end Spooled.Account
