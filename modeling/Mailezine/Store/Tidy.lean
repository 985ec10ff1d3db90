import Mailezine.Store.Wellformed

/-! Tidy accounts.

    A well-formed account may still hold documents that no index row reaches. In a tidy account nothing
    is left over: every mailbox document has its sentinel, every index row belongs to a mailbox that is
    there and names a document that carries the mailbox's name, and every Email document has a row.
    Renaming and deleting a mailbox write several rows; each is shown to lead from one tidy account to
    the next as a whole. -/

namespace Mailezine.Store
open Mailstore Schemes

/-- Nothing is left over in the account. -/
structure Account.Tidy (x : Account) : Prop extends Account.Wf x where
  sentinel : ∀ (id : Nat) (md : MailboxDoc), x.mailboxes[id]? = some md → md.sentinel = true
  home : ∀ mb uid id : Nat, x.row mb uid = some id → ∃ (md : MailboxDoc) (d : EmailDoc),
    x.mailboxes[mb]? = some md ∧ x.emails[id]? = some d ∧ d.mailbox = md.name
  reached : ∀ (id : Nat) (d : EmailDoc), x.emails[id]? = some d → ∃ mb uid, x.row mb uid = some id

theorem tidy_empty : ({} : Account).Tidy := by
  refine ⟨?_, ?_, ?_, ?_⟩
  · constructor <;> simp [Account.row, Account.tomb]
  all_goals simp [Account.row]

section
variable {x : Account} {name : Str} {mb uid id m : Nat}

theorem Account.Tidy.withLinks (h : x.Tidy) (links : Names Nat) : (x.withLinks links).Tidy :=
  ⟨h.toWf.withLinks links, h.sentinel, h.home, h.reached⟩

theorem Account.Wf.logChange (h : x.Wf) (col : Collection) (c : Change) : (x.logChange col c).Wf :=
  ⟨h.row_uid, h.row_doc, h.row_inj, h.doc_id, h.doc_uid, h.tomb_row, h.name_mailbox, h.mailbox_name⟩

theorem Account.Grows.logChange {y : Account} (h : x.Grows y) (col : Collection) (c : Change) :
    x.Grows (y.logChange col c) :=
  ⟨h.lastUID, h.lastEmail, h.modSeq, h.row, h.doc, h.tomb, h.name, h.mailbox⟩

theorem Account.Tidy.logChange (h : x.Tidy) (col : Collection) (c : Change) : (x.logChange col c).Tidy :=
  ⟨h.toWf.logChange col c, h.sentinel, h.home, h.reached⟩

/-- Mailbox names are unique. -/
theorem Account.Wf.name_inj (h : x.Wf) {id id' : Nat} {md md' : MailboxDoc}
    (hd : x.mailboxes[id]? = some md) (hd' : x.mailboxes[id']? = some md') (hn : md.name = md'.name) :
    id = id' := by
  obtain ⟨-, nm, hnm, hidx⟩ := h.mailbox_name id md hd
  obtain ⟨-, nm', hnm', hidx'⟩ := h.mailbox_name id' md' hd'
  rw [hnm, hnm', Option.some.injEq] at hn
  rw [hn, hidx', Option.some.injEq] at hidx
  exact hidx.symm

/-! ### Single writes -/

theorem Account.Tidy.addMailbox (h : x.Tidy) (hnew : x.nameIdx[name]? = none) : (x.addMailbox name).Tidy := by
  refine ⟨h.toWf.addMailbox hnew, fun id md hd => ?_, fun mb uid id hr => ?_, h.reached⟩
  · rw [mailboxes_addMailbox] at hd
    split_ifs at hd
    · obtain rfl := Option.some.inj hd
      simp [MailboxDoc.put]
    · exact h.sentinel id md hd
  · obtain ⟨md, d, hmd, hd, hl⟩ := h.home mb uid id hr
    have hle := (h.mailbox_name mb md hmd).1
    refine ⟨md, d, ?_, hd, hl⟩
    rw [mailboxes_addMailbox, if_neg (by omega)]
    exact hmd

theorem Account.Tidy.putMailbox (h : x.Tidy) {md f : MailboxDoc} (hd : x.mailboxes[mb]? = some md)
    (hn : f.name = none) (hm : ∀ m, f.modSeq = some m → x.modSeq mb ≤ m) : (x.putMailbox mb f).Tidy := by
  refine ⟨h.toWf.putMailbox hd hn hm, fun id e he => ?_, fun mb' uid id hr => ?_, h.reached⟩
  · rw [mailboxes_putMailbox hd] at he
    split_ifs at he
    · obtain rfl := Option.some.inj he
      simp [MailboxDoc.put, h.sentinel mb md hd]
    · exact h.sentinel id e he
  · obtain ⟨e, d, he, hd', hl⟩ := h.home mb' uid id hr
    rw [mailboxes_putMailbox hd]
    split_ifs with hmb
    · subst hmb
      obtain rfl := Option.mem_unique hd he
      exact ⟨_, d, rfl, hd', by simp [MailboxDoc.put, hn, hl]⟩
    · exact ⟨e, d, he, hd', hl⟩

theorem Account.Tidy.bump (h : x.Tidy) (hm : x.modSeq mb ≤ m) (hex : (x.mailboxes[mb]?).isSome) :
    (x.bump mb m).Tidy := by
  obtain ⟨md, hd⟩ := Option.isSome_iff_exists.mp hex
  exact h.putMailbox hd rfl fun _ hf => hm.trans (le_of_eq (Option.some.inj hf))

/-- A delivery that carries the name of its mailbox. -/
theorem Account.Tidy.delivered (h : x.Tidy) {r : DeliverRequest} {md : MailboxDoc}
    (hmd : x.mailboxes[r.mailboxID]? = some md) (hb : r.fields.blob.isSome)
    (hl : r.fields.mailbox = md.name) : (x.delivered r).Tidy := by
  have hex : (x.mailboxes[r.mailboxID]?).isSome := by simp [hmd]
  have hbump := h.bump (Nat.le_succ (x.modSeq r.mailboxID)) hex
  have hmail : ∀ id : Nat, (x.delivered r).mailboxes[id]? =
      if r.mailboxID = id then some { md with modSeq := some (x.modSeq r.mailboxID + 1) }
      else x.mailboxes[id]? := by
    intro id
    have : (x.delivered r).mailboxes[id]? =
        (x.putMailbox r.mailboxID { modSeq := some (x.modSeq r.mailboxID + 1) }).mailboxes[id]? := rfl
    rw [this, mailboxes_putMailbox hmd]
    simp [MailboxDoc.put]
  refine ⟨h.toWf.delivered hex hb, hbump.sentinel, fun mb uid id hr => ?_, fun id d hd => ?_⟩
  · rw [row_delivered] at hr
    rw [hmail, h.toWf.emails_delivered]
    split_ifs at hr with hrow
    · obtain rfl := Option.some.inj hr
      rw [if_pos hrow.1, if_pos rfl]
      exact ⟨_, _, rfl, rfl, hl⟩
    · obtain ⟨md', d, hmd', hd, hl'⟩ := h.home mb uid id hr
      have hle := h.doc_id id d hd
      rw [if_neg (show ¬x.lastEmail + 1 = id by omega)]
      split_ifs with hmb
      · subst hmb
        obtain rfl := Option.mem_unique hmd hmd'
        exact ⟨_, d, rfl, hd, hl'⟩
      · exact ⟨md', d, hmd', hd, hl'⟩
  · rw [h.toWf.emails_delivered] at hd
    split_ifs at hd with hid
    · refine ⟨r.mailboxID, x.lastUID r.mailboxID + 1, ?_⟩
      rw [row_delivered, if_pos ⟨rfl, rfl⟩, hid]
    · obtain ⟨mb, uid, hr⟩ := h.reached id d hd
      refine ⟨mb, uid, ?_⟩
      rw [row_delivered, if_neg]
      · exact hr
      · rintro ⟨rfl, rfl⟩
        have := h.row_uid _ _ _ hr
        omega

theorem EmailDoc.FlagsOnly.put_mailbox {d new : EmailDoc} (h : new.FlagsOnly m) :
    (d.put new).mailbox = d.mailbox := by
  rw [h.rest]
  simp [EmailDoc.put]

theorem Account.Tidy.updateEmail (h : x.Tidy) {d : EmailDoc} (hr : x.row mb uid = some id)
    (hd : d.FlagsOnly m) (hm : m ≤ x.modSeq mb) : (x.updateEmail (id, d)).Tidy := by
  refine ⟨h.toWf.updateEmail (h.toWf.owns hr) hd hm, h.sentinel, fun mb' uid' id' hr' => ?_,
    fun id' d' hd' => ?_⟩
  · obtain ⟨md, e, hmd, he, hl⟩ := h.home mb' uid' id' hr'
    rw [emails_updateEmail]
    split_ifs with hid
    · exact ⟨md, _, hmd, rfl, by rw [he, Option.getD_some, hd.put_mailbox, hl]⟩
    · exact ⟨md, e, hmd, he, hl⟩
  · rw [emails_updateEmail] at hd'
    split_ifs at hd' with hid
    · exact ⟨mb, uid, hid ▸ hr⟩
    · exact h.reached id' d' hd'

/-- A batch of flag updates of messages that are there. -/
theorem Account.Tidy.updateEmails : ∀ (docs : List (Nat × EmailDoc)) {x : Account}, x.Tidy →
    m ≤ x.modSeq mb → (∀ u ∈ docs, (∃ uid, x.row mb uid = some u.1) ∧ u.2.FlagsOnly m) →
    (docs.foldl Account.updateEmail x).Tidy
  | [], _, h, _, _ => h
  | u :: docs, x, h, hm, hdocs => by
    obtain ⟨⟨uid, hr⟩, hf⟩ := hdocs u (by simp)
    have hone : (x.updateEmail u).Tidy := h.updateEmail hr hf hm
    exact Account.Tidy.updateEmails docs hone hm fun v hv => hdocs v (by simp [hv])

/-- A document that is there is in the row it owns. -/
theorem Account.Tidy.row_of_owns (h : x.Tidy) {d : EmailDoc} (ho : x.Owns mb uid id)
    (hd : x.emails[id]? = some d) : x.row mb uid = some id := by
  obtain ⟨mb', uid', hr⟩ := h.reached id d hd
  obtain ⟨rfl, rfl⟩ := ho.only mb' uid' hr
  exact hr

theorem Account.Tidy.delete (h : x.Tidy) {d : EmailDoc} (ho : x.Owns mb uid id)
    (hd : x.emails[id]? = some d) (tomb : Option Nat) : (x.delete id d (removal mb uid tomb)).Tidy := by
  have hrow := h.row_of_owns ho hd
  refine ⟨h.toWf.delete ho d tomb, ?_, fun mb' uid' id' hr => ?_, fun id' d' hd' => ?_⟩
  · cases tomb <;> exact h.sentinel
  · rw [row_delete] at hr
    split_ifs at hr with hrow'
    obtain ⟨md, e, hmd, he, hl⟩ := h.home mb' uid' id' hr
    refine ⟨md, e, by cases tomb <;> exact hmd, ?_, hl⟩
    rw [emails_delete, if_neg]
    · exact he
    · rintro rfl
      exact hrow' (h.row_inj mb uid mb' uid' id hrow hr)
  · rw [emails_delete] at hd'
    split_ifs at hd' with hid
    obtain ⟨mb', uid', hr⟩ := h.reached id' d' hd'
    refine ⟨mb', uid', ?_⟩
    rw [row_delete, if_neg]
    · exact hr
    · rintro ⟨rfl, rfl⟩
      exact hid (Option.mem_unique hrow hr)

theorem Account.Tidy.no_phantom (h : x.Tidy) {d : EmailDoc} (hd : x.emails[id]? = some d) : ¬x.Phantom id := by
  intro hp
  obtain ⟨mb, uid, hr⟩ := h.reached id d hd
  obtain ⟨d', hd', -, hu, -⟩ := h.row_doc mb uid id hr
  rw [hp.2 d' hd'] at hu
  cases hu

/-! ### Creating, renaming and deleting a mailbox -/

/-- The three commits of `CreateMailbox` add up to the one of `EnsureMailboxDoc`. -/
theorem addMailbox_eq (x : Account) (name : Str) (hid : x.lastMailbox + 1 = id) :
    ((((x.takeMailboxID id).putMailbox id { sentinel := true }).putMailbox id
      (newMailboxFields name id)).putName name id) = x.addMailbox name := by
  subst hid
  have hmap : ((x.mailboxes.insert (x.lastMailbox + 1)
        (((x.mailboxes[x.lastMailbox + 1]?).getD {}).put { sentinel := true })).insert
        (x.lastMailbox + 1) ((((x.mailboxes[x.lastMailbox + 1]?).getD {}).put { sentinel := true }).put
          (newMailboxFields name (x.lastMailbox + 1)))) =
      x.mailboxes.insert (x.lastMailbox + 1) (((x.mailboxes[x.lastMailbox + 1]?).getD {}).put
        { newMailboxFields name (x.lastMailbox + 1) with sentinel := true }) := by
    refine Std.ExtTreeMap.ext_getElem? fun k => ?_
    rw [getElem?_insert_row, getElem?_insert_row, getElem?_insert_row]
    split_ifs
    · simp [MailboxDoc.put, newMailboxFields]
    · rfl
  simp only [Account.addMailbox, Account.putName, Account.putMailbox, Account.takeMailboxID,
    Std.ExtTreeMap.getElem?_insert_self, Option.getD_some]
  rw [hmap]

/-- The rows that `RenameMailbox` writes in its first commit. -/
def Account.rename (x : Account) (mb : Nat) (old new : Str) : Account :=
  [.dropName old, .putName new mb].foldl Account.indexOp
    ((x.putMailbox mb { name := some new }).logChange .mailbox ⟨mb, .update, none⟩)

/-- Each message gets the new name, one commit after the other. -/
def Account.relabel (x : Account) (new : Str) (ids : List Nat) : Account :=
  ids.foldl (fun x id => x.updateEmail (id, { mailbox := some new })) x

theorem relabel_eq (new : Str) : ∀ (ids : List Nat) (x : Account), ∃ emails lastChange log,
    x.relabel new ids = { x with emails := emails, lastChange := lastChange, log := log } ∧
    ∀ id : Nat, emails[id]? = if id ∈ ids then
      some (((x.emails[id]?).getD {}).put { mailbox := some new }) else x.emails[id]?
  | [], x => ⟨x.emails, x.lastChange, x.log, rfl, by simp⟩
  | i :: ids, x => by
    obtain ⟨E, c, l, heq, hE⟩ := relabel_eq new ids (x.updateEmail (i, { mailbox := some new }))
    refine ⟨E, c, l, heq, fun id => ?_⟩
    rw [hE, emails_updateEmail]
    by_cases hi : i = id
    · subst hi
      by_cases hmem : i ∈ ids <;> simp [hmem, EmailDoc.put]
    · have hne : ¬id = i := fun e => hi e.symm
      simp [hi, hne]

/-- After a rename every row of the mailbox names a document with the new name. -/
theorem Account.Tidy.renamed (h : x.Tidy) {old new : Str} (hidx : x.nameIdx[old]? = some mb)
    (hnew : x.nameIdx[new]? = none) {ids : List Nat} (hids : ∀ id, id ∈ ids ↔ ∃ uid, x.row mb uid = some id) :
    ((x.rename mb old new).relabel new ids).Tidy := by
  obtain ⟨md₀, hmd₀, hname₀⟩ := h.name_mailbox old mb hidx
  obtain ⟨E, c, l, heq, hE⟩ := relabel_eq new ids (x.rename mb old new)
  generalize (x.rename mb old new).relabel new ids = y at heq ⊢
  have hemails : ∀ id : Nat, y.emails[id]? = if id ∈ ids then
      some (((x.emails[id]?).getD {}).put { mailbox := some new }) else x.emails[id]? := by
    intro id
    rw [heq]; exact hE id
  have hmail : ∀ id : Nat, y.mailboxes[id]? =
      if mb = id then some (md₀.put { name := some new }) else x.mailboxes[id]? := by
    intro id
    rw [heq]; exact mailboxes_putMailbox hmd₀ id
  have hnames : ∀ nm : Str, y.nameIdx[nm]? =
      if new = nm then some mb else if old = nm then none else x.nameIdx[nm]? := by
    intro nm
    rw [heq]
    change ((x.nameIdx.erase old).insert new mb)[nm]? = _
    rw [getElem?_insert_row, getElem?_erase_row]
  have hseq : ∀ mb', y.modSeq mb' = x.modSeq mb' := by
    intro mb'
    rw [heq]
    change (x.putMailbox mb { name := some new }).modSeq mb' = _
    rw [modSeq_putMailbox]
    split_ifs <;> rfl
  have hrow : ∀ mb' uid, y.row mb' uid = x.row mb' uid := by
    intro mb' uid
    rw [heq]; rfl
  refine ⟨⟨?_, ?_, ?_, ?_, ?_, ?_, ?_, ?_⟩, ?_, ?_, ?_⟩
  · rw [heq]; exact h.row_uid
  · intro mb' uid id hr
    rw [hrow] at hr
    obtain ⟨d, hd, hs, hu, hb, hle⟩ := h.row_doc mb' uid id hr
    rw [hemails, hseq]
    split_ifs
    · exact ⟨_, rfl, by simpa [hd, EmailDoc.put] using ⟨hs, hu, hb, hle⟩⟩
    · exact ⟨d, hd, hs, hu, hb, hle⟩
  · intro mb₁ uid₁ mb₂ uid₂ id h₁ h₂
    rw [hrow] at h₁ h₂
    exact h.row_inj mb₁ uid₁ mb₂ uid₂ id h₁ h₂
  · intro id d hd
    rw [hemails] at hd
    rw [heq]
    split_ifs at hd with hid
    · obtain ⟨uid, hr⟩ := (hids id).mp hid
      exact (h.toWf.owns hr).id_le
    · exact h.doc_id id d hd
  · intro id d hd hs
    rw [hemails] at hd
    split_ifs at hd with hid
    · obtain ⟨uid, hr⟩ := (hids id).mp hid
      obtain ⟨d', hd', -, hu, -⟩ := h.row_doc mb uid id hr
      obtain rfl := Option.some.inj hd
      simp [hd', EmailDoc.put, hu]
    · exact h.doc_uid id d hd hs
  · rw [heq]; exact h.tomb_row
  · intro nm id hid
    rw [hnames] at hid
    rw [hmail]
    split_ifs at hid with h₁ h₂
    · obtain rfl := Option.some.inj hid
      rw [if_pos rfl]
      exact ⟨_, rfl, by simp [MailboxDoc.put, h₁]⟩
    · obtain ⟨md, hmd, hn⟩ := h.name_mailbox nm id hid
      rw [if_neg]
      · exact ⟨md, hmd, hn⟩
      · rintro rfl
        obtain rfl := Option.mem_unique hmd₀ hmd
        exact h₂ (Option.mem_unique hname₀ hn)
  · intro id md hmd
    have hlast : y.lastMailbox = x.lastMailbox := by rw [heq]; rfl
    rw [hmail] at hmd
    rw [hlast]
    split_ifs at hmd with hid
    · subst hid
      obtain rfl := Option.some.inj hmd
      refine ⟨(h.mailbox_name mb md₀ hmd₀).1, new, by simp [MailboxDoc.put], ?_⟩
      rw [hnames, if_pos rfl]
    · obtain ⟨hle, nm, hn, hi⟩ := h.mailbox_name id md hmd
      refine ⟨hle, nm, hn, ?_⟩
      rw [hnames, if_neg, if_neg]
      · exact hi
      · rintro rfl
        exact hid (Option.mem_unique hidx hi)
      · rintro rfl
        rw [hnew] at hi
        cases hi
  · intro id md hmd
    rw [hmail] at hmd
    split_ifs at hmd
    · obtain rfl := Option.some.inj hmd
      simp [MailboxDoc.put, h.sentinel mb md₀ hmd₀]
    · exact h.sentinel id md hmd
  · intro mb' uid id hr
    rw [hrow] at hr
    obtain ⟨md, d, hmd, hd, hl⟩ := h.home mb' uid id hr
    rw [hmail, hemails]
    by_cases hmb : mb = mb'
    · subst hmb
      rw [if_pos rfl, if_pos ((hids id).mpr ⟨uid, hr⟩)]
      exact ⟨_, _, rfl, rfl, by simp [EmailDoc.put, MailboxDoc.put]⟩
    · rw [if_neg hmb, if_neg]
      · exact ⟨md, d, hmd, hd, hl⟩
      · intro hmem
        obtain ⟨uid', hr'⟩ := (hids id).mp hmem
        exact hmb (h.row_inj mb uid' mb' uid id hr' hr).1
  · intro id d hd
    rw [hemails] at hd
    simp only [hrow]
    split_ifs at hd with hid
    · exact ⟨mb, (hids id).mp hid⟩
    · exact h.reached id d hd

/-- An empty mailbox can go, with its name. -/
theorem Account.Tidy.dropMailbox (h : x.Tidy) (hidx : x.nameIdx[name]? = some mb)
    (hempty : ∀ uid, x.row mb uid = none) : ((x.dropMailbox mb).dropName name).Tidy := by
  obtain ⟨md₀, hmd₀, hname₀⟩ := h.name_mailbox name mb hidx
  have hmail : ∀ id : Nat, ((x.dropMailbox mb).dropName name).mailboxes[id]? =
      if mb = id then none else x.mailboxes[id]? := fun id => getElem?_erase_row _ _ _
  have hnames : ∀ nm : Str, ((x.dropMailbox mb).dropName name).nameIdx[nm]? =
      if name = nm then none else x.nameIdx[nm]? := fun nm => getElem?_erase_row _ _ _
  have hne : ∀ {mb' uid id}, x.row mb' uid = some id → mb ≠ mb' := by
    rintro mb' uid id hr rfl
    rw [hempty] at hr
    cases hr
  refine ⟨⟨h.row_uid, ?_, h.row_inj, h.doc_id, h.doc_uid, h.tomb_row, ?_, ?_⟩, ?_, ?_, h.reached⟩
  · intro mb' uid id hr
    have hseq : ((x.dropMailbox mb).dropName name).modSeq mb' = x.modSeq mb' := by
      unfold Account.modSeq
      rw [hmail, if_neg (hne hr)]
    rw [hseq]
    exact h.row_doc mb' uid id hr
  · intro nm id hid
    rw [hnames] at hid
    split_ifs at hid with hnm
    obtain ⟨md, hmd, hn⟩ := h.name_mailbox nm id hid
    rw [hmail, if_neg]
    · exact ⟨md, hmd, hn⟩
    · rintro rfl
      obtain rfl := Option.mem_unique hmd₀ hmd
      exact hnm (Option.mem_unique hname₀ hn)
  · intro id md hmd
    rw [hmail] at hmd
    split_ifs at hmd with hid
    obtain ⟨hle, nm, hn, hi⟩ := h.mailbox_name id md hmd
    refine ⟨hle, nm, hn, ?_⟩
    rw [hnames, if_neg]
    · exact hi
    · rintro rfl
      exact hid (Option.mem_unique hidx hi)
  · intro id md hmd
    rw [hmail] at hmd
    split_ifs at hmd
    exact h.sentinel id md hmd
  · intro mb' uid id hr
    obtain ⟨md, d, hmd, hd, hl⟩ := h.home mb' uid id hr
    exact ⟨md, d, by rw [hmail, if_neg (hne hr)]; exact hmd, hd, hl⟩

end

end Mailezine.Store
