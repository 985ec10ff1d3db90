import Mailezine.Store.Links

/-! Well-formed accounts, and what no transaction takes back.

    `Account.Wf` is the agreement of an account's key spaces: index rows name live documents, each
    document is in one row, tombstones name UIDs that are gone, the name index and the mailbox
    documents name each other. `Account.Grows` is the part of an account's history that is monotone:
    identities are handed out once, so a row or a document that is new has a new identity. `Owns` is
    the fact that follows from a row and is never lost again: no other document will have this UID and
    no other row this document. -/

namespace Mailezine.Store
open Mailstore Schemes

/-! ### Rows of the indexes -/

/-- The email-index row of a UID. -/
def Account.row (x : Account) (mb uid : Nat) : Option Nat := (x.emailIdx mb)[uid]?

/-- The tombstone under a modseq and a UID. -/
def Account.tomb (x : Account) (mb m uid : Nat) : Option Nat := (x.expungeIdx mb)[(m, uid)]?

section rows
variable (x : Account) (mb mb' uid uid' id m : Nat)

@[simp] theorem row_putRow : (x.putRow mb uid id).row mb' uid' =
    if mb = mb' ∧ uid = uid' then some id else x.row mb' uid' := by
  unfold Account.row
  by_cases h : mb' = mb
  · subst h; simp
  · have : ¬(mb = mb') := fun e => h e.symm
    simp [h, this]

@[simp] theorem row_dropRow : (x.dropRow mb uid).row mb' uid' =
    if mb = mb' ∧ uid = uid' then none else x.row mb' uid' := by
  unfold Account.row
  by_cases h : mb' = mb
  · subst h; simp
  · have : ¬(mb = mb') := fun e => h e.symm
    simp [h, this]

@[simp] theorem tomb_putTombstone (m' : Nat) : (x.putTombstone mb m uid).tomb mb' m' uid' =
    if mb = mb' ∧ m = m' ∧ uid = uid' then some uid else x.tomb mb' m' uid' := by
  unfold Account.tomb
  by_cases h : mb' = mb
  · subst h; simp [Prod.ext_iff]
  · have : ¬(mb = mb') := fun e => h e.symm
    simp [h, this]

@[simp] theorem modSeq_putMailbox (fields : MailboxDoc) : (x.putMailbox id fields).modSeq mb =
    if id = mb then (fields.modSeq).getD (x.modSeq mb) else x.modSeq mb := by
  unfold Account.modSeq
  by_cases h : id = mb
  · subst h
    cases hm : x.mailboxes[id]? <;> cases hf : fields.modSeq <;> simp [MailboxDoc.put, hm, hf]
  · simp [h]

end rows

/-! ### The invariant of an account -/

/-- The key spaces of an account agree with each other. -/
structure Account.Wf (x : Account) : Prop where
  row_uid : ∀ mb uid id : Nat, x.row mb uid = some id → uid ≤ x.lastUID mb
  row_doc : ∀ mb uid id : Nat, x.row mb uid = some id → ∃ d : EmailDoc, x.emails[id]? = some d ∧
    d.sentinel = true ∧ d.uid = some uid ∧ d.blob.isSome ∧ d.modSeq.getD 0 ≤ x.modSeq mb
  row_inj : ∀ mb uid mb' uid' id : Nat, x.row mb uid = some id → x.row mb' uid' = some id →
    mb = mb' ∧ uid = uid'
  doc_id : ∀ (id : Nat) (d : EmailDoc), x.emails[id]? = some d → id ≤ x.lastEmail
  doc_uid : ∀ (id : Nat) (d : EmailDoc), x.emails[id]? = some d → d.sentinel = true → d.uid.isSome
  tomb_row : ∀ mb m uid v : Nat, x.tomb mb m uid = some v →
    v = uid ∧ uid ≤ x.lastUID mb ∧ x.row mb uid = none
  name_mailbox : ∀ (name : Str) (id : Nat), x.nameIdx[name]? = some id →
    ∃ d : MailboxDoc, x.mailboxes[id]? = some d ∧ d.name = some name
  mailbox_name : ∀ (id : Nat) (d : MailboxDoc), x.mailboxes[id]? = some d →
    id ≤ x.lastMailbox ∧ ∃ name, d.name = some name ∧ x.nameIdx[name]? = some id

/-- What stays once it holds: counters and modseqs only rise, rows and documents that are new have
    new identities, names and tombstones stay. -/
structure Account.Grows (x y : Account) : Prop where
  lastUID : ∀ mb, x.lastUID mb ≤ y.lastUID mb
  lastEmail : x.lastEmail ≤ y.lastEmail
  modSeq : ∀ mb, x.modSeq mb ≤ y.modSeq mb
  row : ∀ mb uid id : Nat, y.row mb uid = some id →
    x.row mb uid = some id ∨ (x.lastUID mb < uid ∧ x.lastEmail < id)
  doc : ∀ (id : Nat) (d : EmailDoc) (uid : Nat), y.emails[id]? = some d → d.uid = some uid →
    (∃ d' : EmailDoc, x.emails[id]? = some d' ∧ d'.uid = some uid) ∨ x.lastEmail < id
  tomb : ∀ mb m uid v : Nat, x.tomb mb m uid = some v → y.tomb mb m uid = some v
  name : ∀ (name : Str) (id : Nat), x.nameIdx[name]? = some id → y.nameIdx[name]? = some id
  mailbox : ∀ (id : Nat) (d : MailboxDoc), x.mailboxes[id]? = some d →
    ∃ d' : MailboxDoc, y.mailboxes[id]? = some d' ∧ d'.name = d.name

theorem Account.Grows.refl (x : Account) : x.Grows x where
  lastUID _ := le_rfl
  lastEmail := le_rfl
  modSeq _ := le_rfl
  row _ _ _ h := Or.inl h
  doc _ d _ h hu := Or.inl ⟨d, h, hu⟩
  tomb _ _ _ _ h := h
  name _ _ h := h
  mailbox _ d h := ⟨d, h, rfl⟩

theorem Account.Grows.trans {x y z : Account} (h : x.Grows y) (h' : y.Grows z) : x.Grows z where
  lastUID mb := (h.lastUID mb).trans (h'.lastUID mb)
  lastEmail := h.lastEmail.trans h'.lastEmail
  modSeq mb := (h.modSeq mb).trans (h'.modSeq mb)
  row mb uid id hz := by
    rcases h'.row mb uid id hz with hy | ⟨hu, hd⟩
    · exact h.row mb uid id hy
    · exact Or.inr ⟨(h.lastUID mb).trans_lt hu, h.lastEmail.trans_lt hd⟩
  doc id d uid hz hu := by
    rcases h'.doc id d uid hz hu with ⟨d', hy, hu'⟩ | hd
    · exact h.doc id d' uid hy hu'
    · exact Or.inr (h.lastEmail.trans_lt hd)
  tomb mb m uid v hx := h'.tomb mb m uid v (h.tomb mb m uid v hx)
  name nm id hx := h'.name nm id (h.name nm id hx)
  mailbox id d hx := by
    obtain ⟨d', hy, hn⟩ := h.mailbox id d hx
    obtain ⟨d'', hz, hn'⟩ := h'.mailbox id d' hy
    exact ⟨d'', hz, hn'.trans hn⟩

/-- This UID of this mailbox was given to this document. -/
structure Account.Owns (x : Account) (mb uid id : Nat) : Prop where
  uid_le : uid ≤ x.lastUID mb
  id_le : id ≤ x.lastEmail
  row : ∀ id' : Nat, x.row mb uid = some id' → id' = id
  only : ∀ mb' uid' : Nat, x.row mb' uid' = some id → mb' = mb ∧ uid' = uid
  doc : ∀ (d : EmailDoc) (u : Nat), x.emails[id]? = some d → d.uid = some u → u = uid

theorem Account.Wf.owns {x : Account} (h : x.Wf) {mb uid id : Nat} (hr : x.row mb uid = some id) :
    x.Owns mb uid id := by
  obtain ⟨d, hd, -, hu, -, -⟩ := h.row_doc mb uid id hr
  refine ⟨h.row_uid mb uid id hr, h.doc_id id d hd, ?_, ?_, ?_⟩
  · intro id' hr'
    rw [hr] at hr'
    exact (Option.some.inj hr').symm
  · intro mb' uid' hr'
    exact h.row_inj mb' uid' mb uid id hr' hr
  · intro d' u hd' hu'
    rw [hd, Option.some.injEq] at hd'
    subst hd'
    rw [hu, Option.some.injEq] at hu'
    exact hu'.symm

theorem Account.Owns.grows {x y : Account} {mb uid id : Nat} (h : x.Owns mb uid id)
    (hg : x.Grows y) : y.Owns mb uid id where
  uid_le := h.uid_le.trans (hg.lastUID mb)
  id_le := h.id_le.trans hg.lastEmail
  row id' hr := by
    rcases hg.row mb uid id' hr with hx | ⟨hu, -⟩
    · exact h.row id' hx
    · have := h.uid_le; omega
  only mb' uid' hr := by
    rcases hg.row mb' uid' id hr with hx | ⟨-, hd⟩
    · exact h.only mb' uid' hx
    · have := h.id_le; omega
  doc d u hd hu := by
    rcases hg.doc id d u hd hu with ⟨d', hd', hu'⟩ | hd'
    · exact h.doc d' u hd' hu'
    · have := h.id_le; omega

/-- A document without a UID row: what a flag update leaves when the message is already deleted. -/
def Account.Phantom (x : Account) (id : Nat) : Prop :=
  id ≤ x.lastEmail ∧ ∀ d : EmailDoc, x.emails[id]? = some d → d.uid = none

theorem Account.Phantom.grows {x y : Account} {id : Nat} (h : x.Phantom id) (hg : x.Grows y) :
    y.Phantom id := by
  refine ⟨h.1.trans hg.lastEmail, fun d hd => ?_⟩
  by_contra hu
  obtain ⟨u, hu⟩ := Option.ne_none_iff_exists'.mp hu
  rcases hg.doc id d u hd hu with ⟨d', hd', hu'⟩ | hlt
  · rw [h.2 d' hd'] at hu'
    cases hu'
  · have := h.1; omega

/-! ### Mailbox documents, names and links -/

theorem Account.Wf.withLinks {x : Account} (h : x.Wf) (links : Names Nat) : (x.withLinks links).Wf :=
  ⟨h.row_uid, h.row_doc, h.row_inj, h.doc_id, h.doc_uid, h.tomb_row, h.name_mailbox, h.mailbox_name⟩

theorem Account.grows_withLinks (x : Account) (links : Names Nat) : x.Grows (x.withLinks links) :=
  let h := Account.Grows.refl x
  ⟨h.lastUID, h.lastEmail, h.modSeq, h.row, h.doc, h.tomb, h.name, h.mailbox⟩

/-- The account after `EnsureMailboxDoc` created a mailbox. -/
def Account.addMailbox (x : Account) (name : Str) : Account :=
  let id := x.lastMailbox + 1
  ((x.takeMailboxID id).putMailbox id { newMailboxFields name id with sentinel := true }).putName
    name id

section addMailbox
variable {x : Account} {name : Str}

theorem Account.Wf.no_next_mailbox (h : x.Wf) : x.mailboxes[x.lastMailbox + 1]? = none := by
  by_contra hne
  obtain ⟨d, hd⟩ := Option.ne_none_iff_exists'.mp hne
  have := (h.mailbox_name _ d hd).1
  omega

theorem mailboxes_addMailbox (x : Account) (name : Str) (id : Nat) :
    (x.addMailbox name).mailboxes[id]? = if x.lastMailbox + 1 = id then some (((x.mailboxes[id]?).getD {}).put
        { newMailboxFields name id with sentinel := true }) else x.mailboxes[id]? := by
  unfold Account.addMailbox
  by_cases h : x.lastMailbox + 1 = id
  · subst h; simp
  · simp [h]

theorem nameIdx_addMailbox (x : Account) (name nm : Str) : (x.addMailbox name).nameIdx[nm]? =
      if name = nm then some (x.lastMailbox + 1) else x.nameIdx[nm]? := by
  simp [Account.addMailbox]

theorem Account.Wf.modSeq_addMailbox (h : x.Wf) (mb : Nat) : (x.addMailbox name).modSeq mb = x.modSeq mb := by
  unfold Account.modSeq
  rw [mailboxes_addMailbox]
  split_ifs with hid
  · subst hid
    simp [h.no_next_mailbox, MailboxDoc.put, newMailboxFields]
  · rfl

theorem Account.Wf.addMailbox (h : x.Wf) (hnew : x.nameIdx[name]? = none) : (x.addMailbox name).Wf where
  row_uid := h.row_uid
  row_doc mb uid id hr := by
    rw [h.modSeq_addMailbox]
    exact h.row_doc mb uid id hr
  row_inj := h.row_inj
  doc_id := h.doc_id
  doc_uid := h.doc_uid
  tomb_row := h.tomb_row
  name_mailbox nm id hid := by
    rw [nameIdx_addMailbox] at hid
    rw [mailboxes_addMailbox]
    split_ifs at hid with hnm
    · obtain rfl := Option.some.inj hid
      subst hnm
      exact ⟨_, if_pos rfl, by simp [MailboxDoc.put, newMailboxFields]⟩
    · obtain ⟨d, hd, hn⟩ := h.name_mailbox nm id hid
      have hle := (h.mailbox_name id d hd).1
      rw [if_neg (by omega)]
      exact ⟨d, hd, hn⟩
  mailbox_name id d hd := by
    rw [mailboxes_addMailbox] at hd
    have hlast : (x.addMailbox name).lastMailbox = x.lastMailbox + 1 := rfl
    rw [hlast]
    split_ifs at hd with hid
    · subst hid
      obtain rfl := Option.some.inj hd
      refine ⟨le_rfl, name, by simp [MailboxDoc.put, newMailboxFields], ?_⟩
      rw [nameIdx_addMailbox, if_pos rfl]
    · obtain ⟨hle, nm, hn, hi⟩ := h.mailbox_name id d hd
      refine ⟨by omega, nm, hn, ?_⟩
      rw [nameIdx_addMailbox, if_neg]
      · exact hi
      · rintro rfl
        rw [hnew] at hi
        cases hi

theorem Account.Wf.grows_addMailbox (h : x.Wf) (hnew : x.nameIdx[name]? = none) :
    x.Grows (x.addMailbox name) where
  lastUID _ := le_rfl
  lastEmail := le_rfl
  modSeq mb := by rw [h.modSeq_addMailbox]
  row _ _ _ hr := Or.inl hr
  doc _ d _ hd hu := Or.inl ⟨d, hd, hu⟩
  tomb _ _ _ _ ht := ht
  name nm id hid := by
    rw [nameIdx_addMailbox, if_neg]
    · exact hid
    · rintro rfl
      rw [hnew] at hid
      cases hid
  mailbox id d hd := by
    have hle := (h.mailbox_name id d hd).1
    rw [mailboxes_addMailbox, if_neg (by omega)]
    exact ⟨d, hd, rfl⟩

end addMailbox

/-- A name-index row that says what the document says is there already. -/
theorem Account.Wf.putName_eq {x : Account} (h : x.Wf) {name : Str} {id : Nat} {d : MailboxDoc}
    (hd : x.mailboxes[id]? = some d) (hn : d.name = some name) : x.putName name id = x := by
  obtain ⟨-, nm, hnm, hi⟩ := h.mailbox_name id d hd
  rw [hn, Option.some.injEq] at hnm
  subst hnm
  have : x.nameIdx.insert name id = x.nameIdx := by
    refine Std.ExtTreeMap.ext_getElem? fun k => ?_
    rw [getElem?_insert_row]
    split_ifs with hk
    · rw [← hk]; exact hi.symm
    · rfl
  unfold Account.putName
  rw [this]

section putMailbox
variable {x : Account} {mb : Nat} {d f : MailboxDoc}

theorem mailboxes_putMailbox (hd : x.mailboxes[mb]? = some d) (id : Nat) :
    (x.putMailbox mb f).mailboxes[id]? = if mb = id then some (d.put f) else x.mailboxes[id]? := by
  simp [hd]

theorem modSeq_le_putMailbox (hm : ∀ m, f.modSeq = some m → x.modSeq mb ≤ m) (mb' : Nat) :
    x.modSeq mb' ≤ (x.putMailbox mb f).modSeq mb' := by
  rw [modSeq_putMailbox]
  split_ifs with h
  · subst h
    cases hf : f.modSeq with
    | none => exact le_rfl
    | some m => exact hm m hf
  · exact le_rfl

/-- Writing fields of a mailbox document that is there: its name stays and its modseq rises. -/
theorem Account.Wf.putMailbox (h : x.Wf) (hd : x.mailboxes[mb]? = some d) (hn : f.name = none)
    (hm : ∀ m, f.modSeq = some m → x.modSeq mb ≤ m) : (x.putMailbox mb f).Wf := by
  refine ⟨h.row_uid, ?_, h.row_inj, h.doc_id, h.doc_uid, h.tomb_row, ?_, ?_⟩
  · intro mb' uid id hr
    obtain ⟨e, he, hs, hu, hb, hle⟩ := h.row_doc mb' uid id hr
    exact ⟨e, he, hs, hu, hb, hle.trans (modSeq_le_putMailbox hm mb')⟩
  · intro nm id hid
    obtain ⟨e, he, hnm⟩ := h.name_mailbox nm id hid
    rw [mailboxes_putMailbox hd]
    split_ifs with hmb
    · subst hmb
      obtain rfl := Option.mem_unique hd he
      exact ⟨_, rfl, by simp [MailboxDoc.put, hn, hnm]⟩
    · exact ⟨e, he, hnm⟩
  · intro id e he
    rw [mailboxes_putMailbox hd] at he
    split_ifs at he with hmb
    · subst hmb
      obtain rfl := Option.some.inj he
      simpa [MailboxDoc.put, hn] using h.mailbox_name mb d hd
    · exact h.mailbox_name id e he

theorem Account.grows_putMailbox (hd : x.mailboxes[mb]? = some d) (hn : f.name = none)
    (hm : ∀ m, f.modSeq = some m → x.modSeq mb ≤ m) : x.Grows (x.putMailbox mb f) := by
  let h := Account.Grows.refl x
  refine ⟨h.lastUID, h.lastEmail, modSeq_le_putMailbox hm, h.row, h.doc, h.tomb, h.name, ?_⟩
  intro id e he
  rw [mailboxes_putMailbox hd]
  split_ifs with hmb
  · subst hmb
    obtain rfl := Option.mem_unique hd he
    exact ⟨_, rfl, by simp [MailboxDoc.put, hn]⟩
  · exact ⟨e, he, rfl⟩

end putMailbox

/-- Raise a mailbox's modseq. -/
def Account.bump (x : Account) (mb m : Nat) : Account := x.putMailbox mb { modSeq := some m }

section bump
variable {x : Account} {mb m : Nat}

theorem modSeq_bump (mb' : Nat) : (x.bump mb m).modSeq mb' = if mb = mb' then m else x.modSeq mb' := by
  simp [Account.bump]

theorem Account.Wf.bump (h : x.Wf) (hm : x.modSeq mb ≤ m) (hex : (x.mailboxes[mb]?).isSome) :
    (x.bump mb m).Wf := by
  obtain ⟨d, hd⟩ := Option.isSome_iff_exists.mp hex
  exact h.putMailbox hd rfl fun _ hf => hm.trans (le_of_eq (Option.some.inj hf))

theorem Account.grows_bump (hm : x.modSeq mb ≤ m) (hex : (x.mailboxes[mb]?).isSome) :
    x.Grows (x.bump mb m) := by
  obtain ⟨d, hd⟩ := Option.isSome_iff_exists.mp hex
  exact Account.grows_putMailbox hd rfl fun _ hf => hm.trans (le_of_eq (Option.some.inj hf))

end bump

/-! ### Delivering, updating and deleting documents -/

section deliver
variable {x : Account} {r : DeliverRequest}

/-- The document a delivery writes. -/
def DeliverRequest.document (r : DeliverRequest) (ids : DeliverResult) : EmailDoc :=
  { r.fields with sentinel := true, uid := some ids.uid, modSeq := some ids.modSeq }

/-- The account after a delivery but for the blob link. -/
abbrev Account.delivered (x : Account) (r : DeliverRequest) : Account :=
  x.deliver r (x.nextIDs r.mailboxID)

theorem row_delivered (mb uid : Nat) : (x.delivered r).row mb uid =
    if r.mailboxID = mb ∧ x.lastUID r.mailboxID + 1 = uid then some (x.lastEmail + 1) else x.row mb uid := by
  unfold Account.delivered Account.deliver Account.nextIDs
  rw [row_putRow]
  rfl

theorem modSeq_delivered (mb : Nat) : (x.delivered r).modSeq mb =
    if r.mailboxID = mb then x.modSeq mb + 1 else x.modSeq mb := by
  have : (x.delivered r).modSeq mb = (x.bump r.mailboxID (x.modSeq r.mailboxID + 1)).modSeq mb := rfl
  rw [this, modSeq_bump]
  split_ifs with h
  · rw [h]
  · rfl

theorem lastUID_delivered (mb : Nat) : (x.delivered r).lastUID mb =
    if r.mailboxID = mb then x.lastUID mb + 1 else x.lastUID mb := by
  have : (x.delivered r).lastUID mb =
      Function.update x.lastUID r.mailboxID (x.lastUID r.mailboxID + 1) mb := rfl
  rw [this, Function.update_apply]
  by_cases h : mb = r.mailboxID
  · rw [if_pos h, if_pos h.symm, h]
  · rw [if_neg h, if_neg fun e => h e.symm]

theorem Account.Wf.no_next_email (h : x.Wf) : x.emails[x.lastEmail + 1]? = none := by
  by_contra hne
  obtain ⟨d, hd⟩ := Option.ne_none_iff_exists'.mp hne
  have := h.doc_id _ d hd
  omega

theorem Account.Wf.emails_delivered (h : x.Wf) (id : Nat) : (x.delivered r).emails[id]? =
    if x.lastEmail + 1 = id then some (r.document (x.nextIDs r.mailboxID)) else x.emails[id]? := by
  unfold Account.delivered Account.deliver Account.nextIDs
  by_cases hid : x.lastEmail + 1 = id
  · subst hid
    simp [h.no_next_email, EmailDoc.empty_put, DeliverRequest.document]
  · simp [hid]

theorem Account.Wf.delivered (h : x.Wf) (hex : (x.mailboxes[r.mailboxID]?).isSome)
    (hb : r.fields.blob.isSome) : (x.delivered r).Wf := by
  have hbump := h.bump (Nat.le_succ (x.modSeq r.mailboxID)) hex
  have hnew : ∀ mb uid id : Nat, x.row mb uid = some id → id ≤ x.lastEmail := by
    intro mb uid id hr
    exact (h.owns hr).id_le
  refine ⟨?_, ?_, ?_, ?_, ?_, ?_, hbump.name_mailbox, hbump.mailbox_name⟩
  · intro mb uid id hr
    rw [row_delivered] at hr
    rw [lastUID_delivered]
    split_ifs at hr with hrow
    · rw [if_pos hrow.1, ← hrow.1]
      omega
    · have := h.row_uid mb uid id hr
      split_ifs <;> omega
  · intro mb uid id hr
    rw [row_delivered] at hr
    rw [h.emails_delivered, modSeq_delivered]
    split_ifs at hr with hrow
    · obtain rfl := Option.some.inj hr
      rw [if_pos rfl, if_pos hrow.1, ← hrow.1]
      exact ⟨_, rfl, rfl, by rw [← hrow.2]; rfl, hb, le_rfl⟩
    · have hle := hnew mb uid id hr
      obtain ⟨d, hd, hs, hu, hbl, hm⟩ := h.row_doc mb uid id hr
      rw [if_neg (by omega)]
      exact ⟨d, hd, hs, hu, hbl, by split_ifs <;> omega⟩
  · intro mb uid mb' uid' id hr hr'
    rw [row_delivered] at hr hr'
    split_ifs at hr with hrow
    · obtain rfl := Option.some.inj hr
      split_ifs at hr' with hrow'
      · exact ⟨hrow.1.symm.trans hrow'.1, hrow.2.symm.trans hrow'.2⟩
      · have := hnew mb' uid' _ hr'
        omega
    · split_ifs at hr' with hrow'
      · obtain rfl := Option.some.inj hr'
        have := hnew mb uid _ hr
        omega
      · exact h.row_inj mb uid mb' uid' id hr hr'
  · intro id d hd
    have hlast : (x.delivered r).lastEmail = x.lastEmail + 1 := rfl
    rw [h.emails_delivered] at hd
    rw [hlast]
    split_ifs at hd with hid
    · omega
    · have := h.doc_id id d hd
      omega
  · intro id d hd hs
    rw [h.emails_delivered] at hd
    split_ifs at hd with hid
    · obtain rfl := Option.some.inj hd
      rfl
    · exact h.doc_uid id d hd hs
  · intro mb m uid v ht
    obtain ⟨hv, hle, hnone⟩ := h.tomb_row mb m uid v ht
    refine ⟨hv, ?_, ?_⟩
    · rw [lastUID_delivered]
      split_ifs <;> omega
    · rw [row_delivered, if_neg]
      · exact hnone
      · rintro ⟨rfl, rfl⟩
        omega

theorem Account.Wf.grows_delivered (h : x.Wf) (hex : (x.mailboxes[r.mailboxID]?).isSome) :
    x.Grows (x.delivered r) := by
  have hbump := Account.grows_bump (Nat.le_succ (x.modSeq r.mailboxID)) hex
  refine ⟨?_, Nat.le_succ _, hbump.modSeq, ?_, ?_, hbump.tomb, hbump.name, hbump.mailbox⟩
  · intro mb
    rw [lastUID_delivered]
    split_ifs <;> omega
  · intro mb uid id hr
    rw [row_delivered] at hr
    split_ifs at hr with hrow
    · obtain rfl := Option.some.inj hr
      obtain ⟨rfl, rfl⟩ := hrow
      exact Or.inr ⟨Nat.lt_succ_self _, Nat.lt_succ_self _⟩
    · exact Or.inl hr
  · intro id d uid hd hu
    rw [h.emails_delivered] at hd
    split_ifs at hd with hid
    · exact Or.inr (by omega)
    · exact Or.inl ⟨d, hd, hu⟩

end deliver

section update
variable {x : Account}

/-- A document update that writes flags, keywords and a modseq, and nothing else. -/
structure EmailDoc.FlagsOnly (d : EmailDoc) (m : Nat) : Prop where
  modSeq : d.modSeq = some m
  rest : d = { flags := d.flags, keywords := d.keywords, modSeq := d.modSeq }

theorem EmailDoc.FlagsOnly.put {d new : EmailDoc} {m : Nat} (h : new.FlagsOnly m) :
    (d.put new).sentinel = d.sentinel ∧ (d.put new).uid = d.uid ∧ (d.put new).blob = d.blob ∧
      (d.put new).modSeq = some m := by
  rw [h.rest]
  simp [EmailDoc.put, h.modSeq]

theorem emails_updateEmail (u : Nat × EmailDoc) (id : Nat) : (x.updateEmail u).emails[id]? =
    if u.1 = id then some (((x.emails[id]?).getD {}).put u.2) else x.emails[id]? := by
  unfold Account.updateEmail
  by_cases h : u.1 = id
  · subst h; simp
  · simp [h]

theorem Account.Wf.updateEmail (h : x.Wf) {mb uid id m : Nat} {d : EmailDoc}
    (ho : x.Owns mb uid id) (hd : d.FlagsOnly m) (hm : m ≤ x.modSeq mb) : (x.updateEmail (id, d)).Wf := by
  refine ⟨h.row_uid, ?_, h.row_inj, ?_, ?_, h.tomb_row, h.name_mailbox, h.mailbox_name⟩
  · intro mb' uid' id' hr
    obtain ⟨d', hd', hs, hu, hb, hle⟩ := h.row_doc mb' uid' id' hr
    have hseq : (x.updateEmail (id, d)).modSeq mb' = x.modSeq mb' := rfl
    rw [emails_updateEmail, hseq]
    split_ifs with hid
    · change id = id' at hid
      subst hid
      obtain ⟨rfl, rfl⟩ := ho.only mb' uid' hr
      obtain ⟨ps, pu, pb, pm⟩ := hd.put (d := d')
      refine ⟨_, rfl, ?_⟩
      rw [hd', Option.getD_some, ps, pu, pb, pm]
      exact ⟨hs, hu, hb, hm⟩
    · exact ⟨d', hd', hs, hu, hb, hle⟩
  · intro id' d' hd'
    rw [emails_updateEmail] at hd'
    split_ifs at hd' with hid
    · change id = id' at hid
      exact hid ▸ ho.id_le
    · exact h.doc_id id' d' hd'
  · intro id' d' hd' hs
    rw [emails_updateEmail] at hd'
    split_ifs at hd' with hid
    · obtain rfl := Option.some.inj hd'
      obtain ⟨ps, pu, -, -⟩ := hd.put (d := (x.emails[id']?).getD {})
      rw [ps] at hs
      rw [pu]
      cases hx : x.emails[id']? with
      | none => rw [hx] at hs; cases hs
      | some e => rw [hx] at hs; exact h.doc_uid id' e hx hs
    · exact h.doc_uid id' d' hd' hs

theorem Account.grows_updateEmail {id m : Nat} {d : EmailDoc} (hd : d.FlagsOnly m) :
    x.Grows (x.updateEmail (id, d)) := by
  have h := Account.Grows.refl x
  refine ⟨h.lastUID, h.lastEmail, h.modSeq, h.row, ?_, h.tomb, h.name, h.mailbox⟩
  intro id' d' uid hd' hu
  rw [emails_updateEmail] at hd'
  split_ifs at hd' with hid
  · obtain rfl := Option.some.inj hd'
    rw [hd.put.2.1] at hu
    cases hx : x.emails[id']? with
    | none => rw [hx] at hu; cases hu
    | some e => rw [hx] at hu; exact Or.inl ⟨e, rfl, hu⟩
  · exact Or.inl ⟨d', hd', hu⟩

/-- A batch of flag updates of one mailbox keeps the account well-formed and its history. -/
theorem Account.Wf.updateEmails {mb m : Nat} : ∀ {docs : List (Nat × EmailDoc)} {x : Account},
    x.Wf → m ≤ x.modSeq mb → (∀ u ∈ docs, (∃ uid, x.Owns mb uid u.1) ∧ u.2.FlagsOnly m) →
    (docs.foldl Account.updateEmail x).Wf ∧ x.Grows (docs.foldl Account.updateEmail x)
  | [], x, h, _, _ => ⟨h, Account.Grows.refl x⟩
  | u :: docs, x, h, hm, hdocs => by
    obtain ⟨⟨uid, ho⟩, hf⟩ := hdocs u (by simp)
    have hg : x.Grows (x.updateEmail u) := Account.grows_updateEmail hf
    have hrest : ∀ v ∈ docs, (∃ uid, (x.updateEmail u).Owns mb uid v.1) ∧ v.2.FlagsOnly m := by
      intro v hv
      obtain ⟨⟨uid', ho'⟩, hf'⟩ := hdocs v (by simp [hv])
      exact ⟨⟨uid', ho'.grows hg⟩, hf'⟩
    obtain ⟨hwf, hg'⟩ := Account.Wf.updateEmails (h.updateEmail ho hf hm)
      (hm.trans (hg.modSeq mb)) hrest
    exact ⟨hwf, hg.trans hg'⟩

end update

section delete
variable {x : Account} {mb uid id : Nat}

/-- The index rows that go with a message: its row, and a tombstone under a modseq. -/
def removal (mb uid : Nat) (tomb : Option Nat) : List IndexOp :=
  .dropRow mb uid :: (tomb.map fun m => .putTombstone mb m uid).toList

theorem emails_delete (d : EmailDoc) (tomb : Option Nat) (id' : Nat) :
    (x.delete id d (removal mb uid tomb)).emails[id']? = if id = id' then none else x.emails[id']? := by
  cases tomb <;> simp [Account.delete, removal, Account.indexOp]

theorem row_delete (d : EmailDoc) (tomb : Option Nat) (mb' uid' : Nat) :
    (x.delete id d (removal mb uid tomb)).row mb' uid' =
      if mb = mb' ∧ uid = uid' then none else x.row mb' uid' := by
  cases tomb
  · exact row_dropRow _ mb mb' uid uid'
  · exact row_dropRow _ mb mb' uid uid'

theorem tomb_delete (d : EmailDoc) (tomb : Option Nat) (mb' m uid' : Nat) :
    (x.delete id d (removal mb uid tomb)).tomb mb' m uid' =
      if mb = mb' ∧ tomb = some m ∧ uid = uid' then some uid else x.tomb mb' m uid' := by
  cases tomb with
  | none => simp only [reduceCtorEq, false_and, and_false, if_false]; rfl
  | some m' =>
    simp only [Option.some.injEq]
    exact tomb_putTombstone _ mb mb' uid uid' m' m

/-- Deleting the document that owns a UID, with its rows. -/
theorem Account.Wf.delete (h : x.Wf) (ho : x.Owns mb uid id) (d : EmailDoc) (tomb : Option Nat) :
    (x.delete id d (removal mb uid tomb)).Wf := by
  have hkeep : (x.delete id d (removal mb uid tomb)).lastUID = x.lastUID ∧
      (x.delete id d (removal mb uid tomb)).lastEmail = x.lastEmail ∧
      (∀ mb', (x.delete id d (removal mb uid tomb)).modSeq mb' = x.modSeq mb') := by
    cases tomb <;> exact ⟨rfl, rfl, fun _ => rfl⟩
  obtain ⟨hU, hE, hM⟩ := hkeep
  refine ⟨?_, ?_, ?_, ?_, ?_, ?_, ?_, ?_⟩
  · intro mb' uid' id' hr
    rw [row_delete] at hr
    rw [hU]
    split_ifs at hr
    exact h.row_uid mb' uid' id' hr
  · intro mb' uid' id' hr
    rw [row_delete] at hr
    rw [hM, emails_delete]
    split_ifs at hr with hrow
    rw [if_neg]
    · exact h.row_doc mb' uid' id' hr
    · rintro rfl
      obtain ⟨rfl, rfl⟩ := ho.only mb' uid' hr
      exact hrow ⟨rfl, rfl⟩
  · intro mb₁ uid₁ mb₂ uid₂ id' h₁ h₂
    rw [row_delete] at h₁ h₂
    split_ifs at h₁ h₂
    exact h.row_inj mb₁ uid₁ mb₂ uid₂ id' h₁ h₂
  · intro id' d' hd'
    rw [emails_delete] at hd'
    rw [hE]
    split_ifs at hd'
    exact h.doc_id id' d' hd'
  · intro id' d' hd' hs
    rw [emails_delete] at hd'
    split_ifs at hd'
    exact h.doc_uid id' d' hd' hs
  · intro mb' m uid' v ht
    rw [tomb_delete] at ht
    rw [row_delete, hU]
    split_ifs at ht with hnew
    · obtain ⟨rfl, -, rfl⟩ := hnew
      obtain rfl := Option.some.inj ht
      exact ⟨rfl, ho.uid_le, if_pos ⟨rfl, rfl⟩⟩
    · obtain ⟨hv, hle, hnone⟩ := h.tomb_row mb' m uid' v ht
      refine ⟨hv, hle, ?_⟩
      split_ifs
      · rfl
      · exact hnone
  · cases tomb <;> exact h.name_mailbox
  · cases tomb <;> exact h.mailbox_name

theorem Account.Wf.grows_delete (hwf : x.Wf) (mb uid id : Nat) (d : EmailDoc) (tomb : Option Nat) :
    x.Grows (x.delete id d (removal mb uid tomb)) := by
  have h := Account.Grows.refl x
  refine ⟨?_, ?_, ?_, ?_, ?_, ?_, ?_, ?_⟩
  · cases tomb <;> exact h.lastUID
  · cases tomb <;> exact h.lastEmail
  · cases tomb <;> exact h.modSeq
  · intro mb' uid' id' hr
    rw [row_delete] at hr
    split_ifs at hr
    exact Or.inl hr
  · intro id' d' u hd' hu
    rw [emails_delete] at hd'
    split_ifs at hd'
    exact Or.inl ⟨d', hd', hu⟩
  · intro mb' m uid' v ht
    rw [tomb_delete]
    split_ifs with hnew
    · rw [(hwf.tomb_row mb' m uid' v ht).1, hnew.2.2]
    · exact ht
  · cases tomb <;> exact h.name
  · cases tomb <;> exact h.mailbox

/-- Deleting what is left of a document that is gone. -/
theorem Account.Wf.deletePhantom (h : x.Wf) (hp : x.Phantom id) (d : EmailDoc) :
    (x.delete id d []).Wf ∧ x.Grows (x.delete id d []) := by
  have hem : ∀ id' : Nat, (x.delete id d []).emails[id']? =
      if id = id' then none else x.emails[id']? := by
    intro id'
    simp [Account.delete]
  have hg := Account.Grows.refl x
  refine ⟨⟨h.row_uid, ?_, h.row_inj, ?_, ?_, h.tomb_row, h.name_mailbox, h.mailbox_name⟩,
    ⟨hg.lastUID, hg.lastEmail, hg.modSeq, hg.row, ?_, hg.tomb, hg.name, hg.mailbox⟩⟩
  · intro mb uid id' hr
    obtain ⟨d', hd', hs, hu, hb, hle⟩ := h.row_doc mb uid id' hr
    rw [hem, if_neg]
    · exact ⟨d', hd', hs, hu, hb, hle⟩
    · rintro rfl
      rw [hp.2 d' hd'] at hu
      cases hu
  · intro id' d' hd'
    rw [hem] at hd'
    split_ifs at hd'
    exact h.doc_id id' d' hd'
  · intro id' d' hd' hs
    rw [hem] at hd'
    split_ifs at hd'
    exact h.doc_uid id' d' hd' hs
  · intro id' d' u hd' hu
    rw [hem] at hd'
    split_ifs at hd'
    exact Or.inl ⟨d', hd', hu⟩

end delete

end Mailezine.Store
