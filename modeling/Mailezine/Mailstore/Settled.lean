import Mailezine.Mailstore.Sequential

/-! Operations on a store that a crash has left behind.

    After a crash an account need not be well-formed: there may be mailbox documents without a name or
    without an index row. What the resolution of names needs is less: each row of the name index names a
    document that carries the name. The operations are followed here step by step as they run one after
    the other; all but the deletion and the renaming of a mailbox keep the names that there are. -/

namespace Mailezine.Mailstore.Crash
open Gostd Schemes Store

/-! ### The name index -/

/-- Every row of the name index names a document that carries the name, and no document has an ID that
    was not given out. -/
structure Sure (x : Account) : Prop where
  name : ∀ (name : Str) (id : Nat), x.nameIdx[name]? = some id →
    ∃ md : MailboxDoc, x.mailboxes[id]? = some md ∧ md.name.getD [] = name
  last : ∀ (id : Nat) (md : MailboxDoc), x.mailboxes[id]? = some md → id ≤ x.lastMailbox

/-- The two accounts have the same mailboxes. -/
structure SameNames (x y : Account) : Prop where
  mailboxes : y.mailboxes = x.mailboxes
  nameIdx : y.nameIdx = x.nameIdx
  last : y.lastMailbox = x.lastMailbox

section
variable {x y : Account} {name : Str} {id mb m : Nat} {md f : MailboxDoc}

theorem SameNames.trans {z : Account} (h : SameNames x y) (h' : SameNames y z) : SameNames x z :=
  ⟨h'.mailboxes.trans h.mailboxes, h'.nameIdx.trans h.nameIdx, h'.last.trans h.last⟩

theorem SameNames.sure (h : SameNames x y) (hx : Sure x) : Sure y := by
  refine ⟨fun name id hid => ?_, fun id md hd => ?_⟩
  · rw [h.nameIdx] at hid
    rw [h.mailboxes]
    exact hx.name name id hid
  · rw [h.mailboxes] at hd
    rw [h.last]
    exact hx.last id md hd

theorem Sure.name_le (h : Sure x) (hidx : x.nameIdx[name]? = some id) : id ≤ x.lastMailbox := by
  obtain ⟨md, hd, -⟩ := h.name name id hidx
  exact h.last id md hd

theorem Sure.name_inj (h : Sure x) {name' : Str} (hidx : x.nameIdx[name]? = some id)
    (hidx' : x.nameIdx[name']? = some id) : name = name' := by
  obtain ⟨md, hd, hn⟩ := h.name name id hidx
  obtain ⟨md', hd', hn'⟩ := h.name name' id hidx'
  rw [hd] at hd'
  obtain rfl := Option.some.inj hd'
  exact hn.symm.trans hn'

theorem mailboxes_putMailbox' (id' : Nat) : (x.putMailbox mb f).mailboxes[id']? =
    if mb = id' then some (((x.mailboxes[mb]?).getD {}).put f) else x.mailboxes[id']? := by
  simp

/-- A document gets fields, but no other name while an index row names it. -/
theorem Sure.putMailbox (h : Sure x) (hle : mb ≤ x.lastMailbox)
    (hf : f.name = none ∨ ∀ nm : Str, x.nameIdx[nm]? ≠ some mb) : Sure (x.putMailbox mb f) := by
  refine ⟨fun name id hid => ?_, fun id md hd => ?_⟩
  · obtain ⟨md, hd, hn⟩ := h.name name id hid
    rw [mailboxes_putMailbox']
    split_ifs with heq
    · subst heq
      rcases hf with hf | hf
      · exact ⟨_, rfl, by simp [hd, MailboxDoc.put, hf, hn]⟩
      · exact absurd hid (hf name)
    · exact ⟨md, hd, hn⟩
  · rw [mailboxes_putMailbox'] at hd
    split_ifs at hd with heq
    · exact heq ▸ hle
    · exact h.last id md hd

theorem Sure.takeMailboxID (h : Sure x) (hle : x.lastMailbox ≤ m) : Sure (x.takeMailboxID m) :=
  ⟨h.name, fun id md hd => (h.last id md hd).trans hle⟩

theorem Sure.putName (h : Sure x) (hd : x.mailboxes[id]? = some md) (hn : md.name.getD [] = name) :
    Sure (x.putName name id) := by
  refine ⟨fun name' id' hid => ?_, h.last⟩
  rw [Account.putName_nameIdx, getElem?_insert_row] at hid
  split_ifs at hid with heq
  · obtain rfl := Option.some.inj hid
    exact ⟨md, hd, hn.trans heq⟩
  · exact h.name name' id' hid

/-- A new document, which no index row names. -/
theorem Sure.newMailbox (h : Sure x) (f : MailboxDoc) :
    Sure ((x.takeMailboxID (x.lastMailbox + 1)).putMailbox (x.lastMailbox + 1) f) ∧
      ∀ nm : Str, x.nameIdx[nm]? ≠ some (x.lastMailbox + 1) := by
  have hfree : ∀ nm : Str, x.nameIdx[nm]? ≠ some (x.lastMailbox + 1) := by
    intro nm hid
    have := h.name_le hid
    omega
  exact ⟨(h.takeMailboxID (Nat.le_succ _)).putMailbox le_rfl (Or.inr hfree), hfree⟩

theorem Sure.addMailbox (h : Sure x) (name : Str) : Sure (x.addMailbox name) := by
  refine (h.newMailbox _).1.putName ((mailboxes_putMailbox' _).trans (if_pos rfl)) ?_
  simp [MailboxDoc.put, newMailboxFields]

theorem sameNames_withLinks (x : Account) (links : Names Nat) : SameNames x (x.withLinks links) :=
  ⟨rfl, rfl, rfl⟩

theorem sameNames_delete (x : Account) (id m : Nat) (d : EmailDoc) (fields : Option EmailDoc) :
    SameNames x (x.delete id d (deletionRows mb m fields)) := by
  unfold deletionRows
  cases fields.bind (·.uid) with
  | none => exact ⟨rfl, rfl, rfl⟩
  | some uid =>
    simp only
    split_ifs
    · exact ⟨rfl, rfl, rfl⟩
    · exact ⟨rfl, rfl, rfl⟩

theorem sameNames_updateEmails : ∀ (docs : List (Nat × EmailDoc)) (x : Account),
    SameNames x (docs.foldl Account.updateEmail x)
  | [], _ => ⟨rfl, rfl, rfl⟩
  | u :: docs, x =>
    have hone : SameNames x (x.updateEmail u) := ⟨rfl, rfl, rfl⟩
    hone.trans (sameNames_updateEmails docs (x.updateEmail u))

/-- A delivery writes the modseq of its mailbox, and no other mailbox field. -/
theorem sameNames_delivered (x : Account) (r : DeliverRequest) :
    SameNames (x.putMailbox r.mailboxID { modSeq := some (x.nextIDs r.mailboxID).modSeq })
      (x.delivered r) := ⟨rfl, rfl, rfl⟩

end

/-! ### Nodes -/

/-- The name index of every account is right, and the ID cache says what registry and index say. -/
structure Settled (n : Node) : Prop where
  sure : ∀ a, Sure (n.kv.account a)
  ids_account : ∀ (email : Str) (e : Nat × Nat), n.ids.account email = some e →
    n.kv.registry[email]? = some e.1
  ids_mailbox : ∀ (a : Nat) (name : Str) (e : Nat × Nat), n.ids.mailbox a name = some e →
    (n.kv.account a).nameIdx[name]? = some e.1

/-- Nothing that a name stands for is lost. -/
structure Kept (n n' : Node) : Prop where
  settled : Settled n'
  registry : ∀ (email : Str) (a : Nat), n.kv.registry[email]? = some a → n'.kv.registry[email]? = some a
  name : ∀ (a : Nat) (name : Str) (id : Nat), (n.kv.account a).nameIdx[name]? = some id →
    (n'.kv.account a).nameIdx[name]? = some id
  last : ∀ a, (n.kv.account a).lastMailbox ≤ (n'.kv.account a).lastMailbox

/-- Resolving names gives out no UIDs and takes no time. -/
structure Looked (n n' : Node) : Prop extends Kept n n' where
  lastUID : ∀ a, (n'.kv.account a).lastUID = (n.kv.account a).lastUID
  clock : n'.store.now = n.store.now

section
variable {n n' n'' : Node} {a mb : Nat} {y : Account} {kv' : KV}

theorem Kept.refl (h : Settled n) : Kept n n := ⟨h, fun _ _ h => h, fun _ _ _ h => h, fun _ => le_rfl⟩

theorem Kept.trans (h : Kept n n') (h' : Kept n' n'') : Kept n n'' where
  settled := h'.settled
  registry email a ha := h'.registry email a (h.registry email a ha)
  name a nm id hid := h'.name a nm id (h.name a nm id hid)
  last a := (h.last a).trans (h'.last a)

theorem Looked.refl (h : Settled n) : Looked n n := ⟨Kept.refl h, fun _ => rfl, rfl⟩

theorem Looked.trans (h : Looked n n') (h' : Looked n' n'') : Looked n n'' :=
  ⟨h.toKept.trans h'.toKept, fun a => (h'.lastUID a).trans (h.lastUID a), h'.clock.trans h.clock⟩

/-- A change of one account that keeps its names. -/
theorem kept_of_touches (hn : Settled n) (ht : Touches a y n.kv kv') (hy : Sure y)
    (hname : ∀ (nm : Str) (id : Nat), (n.kv.account a).nameIdx[nm]? = some id → y.nameIdx[nm]? = some id)
    (hlast : (n.kv.account a).lastMailbox ≤ y.lastMailbox) : Kept n (n.withKV kv') := by
  have hidx : ∀ (c : Nat) (nm : Str) (id : Nat), (n.kv.account c).nameIdx[nm]? = some id →
      (kv'.account c).nameIdx[nm]? = some id := by
    intro c nm id hid
    obtain ⟨l, hl⟩ := ht.account c
    rw [hl]
    change (if a = c then y else n.kv.account c).nameIdx[nm]? = some id
    split_ifs with hc
    · subst hc; exact hname nm id hid
    · exact hid
  refine ⟨⟨fun c => ?_, fun email e he => ?_, fun c nm e he => ?_⟩, fun email c hc => ?_, hidx, fun c => ?_⟩
  · obtain ⟨l, hl⟩ := ht.account c
    rw [Node.kv_withKV, hl]
    refine (sameNames_withLinks _ l).sure ?_
    split_ifs
    · exact hy
    · exact hn.sure c
  · rw [Node.kv_withKV, ht.registry]
    exact hn.ids_account email e he
  · exact hidx c nm e.1 (hn.ids_mailbox c nm e he)
  · rw [Node.kv_withKV, ht.registry]
    exact hc
  · obtain ⟨l, hl⟩ := ht.account c
    rw [Node.kv_withKV, hl]
    change _ ≤ (if a = c then y else n.kv.account c).lastMailbox
    split_ifs with hc
    · subst hc; exact hlast
    · exact le_rfl

theorem SameNames.kept (h : SameNames (n.kv.account a) y) (hn : Settled n)
    (ht : Touches a y n.kv kv') : Kept n (n.withKV kv') :=
  kept_of_touches hn ht (h.sure (hn.sure a)) (fun nm id hid => by rw [h.nameIdx]; exact hid) h.last.ge

theorem kept_putMailbox (hn : Settled n) {f : MailboxDoc} (hle : mb ≤ (n.kv.account a).lastMailbox)
    (hf : f.name = none) (hy : SameNames ((n.kv.account a).putMailbox mb f) y)
    (ht : Touches a y n.kv kv') : Kept n (n.withKV kv') :=
  kept_of_touches hn ht (hy.sure ((hn.sure a).putMailbox hle (Or.inl hf)))
    (fun nm id hid => by rw [hy.nameIdx]; exact hid) hy.last.ge

/-- A step that no account shows. -/
theorem looked_of_quiet (h : Quiet n n') (hn : Settled n) (hclock : n'.store.now = n.store.now) :
    Looked n n' := by
  refine ⟨⟨⟨fun c => ?_, fun email e he => ?_, fun c nm e he => ?_⟩, h.registry, fun c nm id hid => ?_,
    fun c => ?_⟩, fun c => ?_, hclock⟩
  · rw [h.account]; exact hn.sure c
  · rcases h.ids_account email e he with he | he
    · exact h.registry email e.1 (hn.ids_account email e he)
    · exact he
  · rcases h.ids_mailbox c nm e he with he | he
    · rw [h.account]; exact hn.ids_mailbox c nm e he
    · exact he
  · rw [h.account]; exact hid
  · rw [h.account]
  · rw [h.account]

end

/-! ### Resolving names -/

/-- The program runs alone: every step of it meets `G`, and it ends in `Q`. -/
abbrev Along {α : Type} (G : Node → Node → Prop) (p : Op α) (n : Node) (Q : Except Err α → Node → Prop) :
    Prop :=
  Prog.Safe (· = ·) (fun (_ : Unit) s t _ => G s t) (fun _ r t => Q r t) () p n

/-- Every step of the program keeps the names, and it ends in `Q`. -/
abbrev Keeps {α : Type} (p : Op α) (n : Node) (Q : Except Err α → Node → Prop) : Prop := Along Kept p n Q

section
variable {α : Type} {G : Node → Node → Prop} {n : Node} {a mb id : Nat} {name account mailbox : Str}

theorem along_act {f : Node → Node} {k : Node → Op α} {Q : Except Err α → Node → Prop}
    (hk : G n (f n)) (h : Along G (k n) (f n) Q) : Along G (.act f k) n Q := by
  rintro t rfl
  exact ⟨(), hk, h⟩

theorem along_attempt {β : Type} {p : Op α} {k : Except Err α → Op β} {Q : Except Err β → Node → Prop}
    (h : Along G p n fun r t => Along G (k r) t Q) : Along G (p.attempt k) n Q :=
  Prog.Safe.attempt h

theorem along_bind {β : Type} {p : Op α} {k : α → Op β} {Q : Except Err β → Node → Prop}
    (h : Along G p n fun r t => match r with
      | .ok a => Along G (k a) t Q
      | .error e => Q (.error e) t) : Along G (p >>= k) n Q := by
  refine along_attempt (Prog.Safe.mono ?_ h)
  rintro _ (e | a) t ht <;> exact ht

theorem keeps_read {f : Node → Except Err α} {Q : Except Err α → Node → Prop} (hn : Settled n)
    (h : Q (f n) n) : Keeps (Prog.read f) n Q :=
  along_act (f := id) (Kept.refl hn) h

theorem keeps_get {f : KV → α} {Q : Except Err α → Node → Prop} (hn : Settled n) (h : Q (.ok (f n.kv)) n) :
    Keeps (get f) n Q :=
  keeps_read hn h

theorem keeps_peek {f : Node → α} {Q : Except Err α → Node → Prop} (hn : Settled n) (h : Q (.ok (f n)) n) :
    Keeps (peek f) n Q :=
  keeps_read hn h

variable {Q : Except Err Nat → Node → Prop}

theorem keeps_accountByEmail (hn : Settled n) (hok : ∀ a, n.kv.registry[account]? = some a → Q (.ok a) n)
    (herr : n.kv.registry[account]? = none → Q (.error .notFound) n) :
    Keeps (getE (accountByEmail account)) n Q := by
  refine keeps_read hn ?_
  unfold accountByEmail
  cases hr : n.kv.registry[account]? with
  | some a => exact hok a hr
  | none => exact herr hr

theorem keeps_cachedAccountID (hn : Settled n)
    (hok : ∀ t a, Looked n t → t.kv.registry[account]? = some a → Q (.ok a) t)
    (herr : n.kv.registry[account]? = none → Q (.error .notFound) n) : Keeps (cachedAccountID account) n Q := by
  refine along_bind (keeps_peek hn ?_)
  cases hf : fresh n.store.now (n.ids.account account) with
  | some a =>
    obtain ⟨e, he, rfl⟩ := fresh_eq_some hf
    exact hok n e.1 (Looked.refl hn) (hn.ids_account account e he)
  | none =>
    refine along_bind (keeps_accountByEmail hn (fun a hreg => ?_) herr)
    have hl := looked_of_quiet (quiet_cacheAccount hreg) hn rfl
    exact along_bind (along_act hl.toKept (hok _ a hl hreg))

theorem keeps_mailboxFields {Q : Except Err MailboxDoc → Node → Prop} (hn : Settled n)
    (hok : ∀ d, (n.kv.account a).mailboxes[id]? = some d → Q (.ok d) n) (herr : Q (.error .notFound) n) :
    Keeps (mailboxFields a id) n Q := by
  refine along_bind (keeps_get hn ?_)
  exact safe_orNotFound hok fun _ => herr

theorem looked_putName (hn : Settled n) {d : MailboxDoc} (hnone : (n.kv.account a).nameIdx[name]? = none)
    (hd : (n.kv.account a).mailboxes[id]? = some d) (hname : d.name.getD [] = name) :
    Looked n (n.withKV (n.kv.modify a (·.putName name id))) := by
  refine ⟨kept_of_touches hn (touches_modify a (·.putName name id) n.kv) ((hn.sure a).putName hd hname)
    (fun nm id' hid => ?_) le_rfl, fun c => ?_, rfl⟩
  · rw [Account.putName_nameIdx, getElem?_insert_row, if_neg]
    · exact hid
    · rintro rfl
      rw [hnone] at hid
      cases hid
  · rw [Node.kv_withKV, KV.account_modify]
    split_ifs <;> rfl

theorem keeps_findMailbox (hn : Settled n) (hnone : (n.kv.account a).nameIdx[name]? = none)
    (hok : ∀ t id, Looked n t → (t.kv.account a).nameIdx[name]? = some id → Q (.ok id) t)
    (herr : Q (.error .notFound) n) : ∀ ids : List Nat, Keeps (findMailbox a name ids) n Q
  | [] => herr
  | id :: rest => by
    refine along_bind (keeps_mailboxFields hn (fun d hd => ?_) herr)
    simp only
    split_ifs with hname
    · have hl := looked_putName hn hnone hd hname
      refine along_bind (along_act hl.toKept (hok _ id hl ?_))
      simp
    · exact keeps_findMailbox hn hnone hok herr rest

/-- The index row decides; without one the scan puts it right. -/
theorem keeps_mailboxDocID (hn : Settled n)
    (hok : ∀ t id, Looked n t → (t.kv.account a).nameIdx[name]? = some id → Q (.ok id) t)
    (herr : (n.kv.account a).nameIdx[name]? = none → Q (.error .notFound) n) :
    Keeps (mailboxDocID a name) n Q := by
  refine along_bind (keeps_get hn ?_)
  cases hidx : (n.kv.account a).nameIdx[name]? with
  | none =>
    refine along_bind (keeps_get hn ?_)
    exact keeps_findMailbox hn hidx hok (herr hidx) _
  | some id =>
    refine along_bind (keeps_get hn ?_)
    obtain ⟨d, hd, hname⟩ := (hn.sure a).name name id hidx
    simp only [hd, if_pos hname]
    exact hok n id (Looked.refl hn) hidx

theorem keeps_cachedMailboxDocID (hn : Settled n)
    (hok : ∀ t id, Looked n t → (t.kv.account a).nameIdx[name]? = some id → Q (.ok id) t)
    (herr : (n.kv.account a).nameIdx[name]? = none → Q (.error .notFound) n) :
    Keeps (cachedMailboxDocID a name) n Q := by
  refine along_bind (keeps_peek hn ?_)
  cases hf : fresh n.store.now (n.ids.mailbox a name) with
  | some id =>
    obtain ⟨e, he, rfl⟩ := fresh_eq_some hf
    exact hok n e.1 (Looked.refl hn) (hn.ids_mailbox a name e he)
  | none =>
    refine along_bind (keeps_mailboxDocID hn (fun t id ht hidx => ?_) herr)
    have hl := looked_of_quiet (quiet_cacheMailbox hidx) ht.settled rfl
    exact along_bind (along_act hl.toKept (hok _ id (ht.trans hl) hidx))

theorem keeps_resolve {Q : Except Err (Nat × Nat) → Node → Prop} (hn : Settled n)
    (hok : ∀ t a mb, Looked n t → t.kv.registry[account]? = some a →
      (t.kv.account a).nameIdx[mailbox]? = some mb → Q (.ok (a, mb)) t)
    (herr : Q (.error .notFound) n) : Keeps (resolve account mailbox) n Q := by
  refine along_bind (keeps_accountByEmail hn (fun a hreg => ?_) fun _ => herr)
  refine along_bind (keeps_mailboxDocID hn (fun t mb ht hidx => ?_) fun _ => herr)
  exact hok t a mb ht (ht.registry account a hreg) hidx

theorem keeps_ensureAccount (hn : Settled n)
    (hok : ∀ t a, Looked n t → t.kv.registry[account]? = some a → Q (.ok a) t) :
    Keeps (ensureAccount account) n Q := by
  refine along_attempt (keeps_cachedAccountID hn hok fun hnone => ?_)
  have hl := looked_of_quiet (quiet_register hnone (u32 (n.kv.lastAccount + 1))) hn rfl
  refine along_attempt ?_
  rintro t rfl
  simp only [createAccount, hnone]
  exact ⟨(), hl.toKept, hok _ _ hl (by simp)⟩

theorem keeps_ensureMailbox (hn : Settled n)
    (hok : ∀ t id, Looked n t → (t.kv.account a).nameIdx[name]? = some id → Q (.ok id) t) :
    Keeps (ensureMailbox a name) n Q := by
  refine along_attempt (keeps_cachedMailboxDocID hn hok fun hnone => ?_)
  have hl : Looked n (n.withKV (n.kv.modify a (·.addMailbox name))) := by
    refine ⟨kept_of_touches hn (touches_modify a (·.addMailbox name) n.kv) ((hn.sure a).addMailbox name)
      (fun nm id hid => ?_) (Nat.le_succ _), fun c => ?_, rfl⟩
    · rw [nameIdx_addMailbox, if_neg]
      · exact hid
      · rintro rfl
        rw [hnone] at hid
        cases hid
    · rw [Node.kv_withKV, KV.account_modify]
      split_ifs <;> rfl
  rintro t rfl
  simp only [ensureMailboxDoc, hnone]
  refine ⟨(), hl.toKept, hok _ _ hl ?_⟩
  rw [Node.kv_withKV, KV.account_modify, if_pos rfl]
  simp

end

/-! ### Messages -/

section
variable {α : Type} {cfg : Config} {n : Node} {a mb id : Nat} {name account mailbox : Str}

/-- A message that was delivered: where its names lead, and the document found there. -/
def Landed (cfg : Config) (account mailbox : Str) (msg : Incoming) (n t : Node) (uid : Nat) : Prop :=
  ∃ (a mb id m : Nat), t.kv.registry[account]? = some a ∧
    (t.kv.account a).nameIdx[mailbox]? = some mb ∧ uid = (n.kv.account a).lastUID mb + 1 ∧
    (t.kv.account a).row mb uid = some id ∧
    (t.kv.account a).emails[id]? = some { deliveryFields cfg mailbox msg n.store.now with
      sentinel := true, uid := some uid, modSeq := some m }


theorem keeps_putBlob {b data : Str} (hn : Settled n)
    (h : Q (.ok ()) (n.putBlob b data)) : Keeps (Prog.write fun n => n.putBlob b data) n Q :=
  along_act (looked_of_quiet (quiet_putBlob n b data) hn rfl).toKept h

theorem kept_deliverOne (hn : Settled n) {r : DeliverRequest}
    (hle : r.mailboxID ≤ (n.kv.account a).lastMailbox) : Kept n (n.withKV (deliverOne a r n.kv).1) :=
  kept_putMailbox hn hle rfl (sameNames_delivered _ r) (touches_deliverOne a r n.kv)

/-- A delivery writes every field of its document, whatever rows there were under its ID. -/
theorem emails_delivery (x : Account) (msg : Incoming) (now : Nat) :
    (x.delivered (deliverRequest cfg mb mailbox msg now)).emails[x.lastEmail + 1]? =
      some { deliveryFields cfg mailbox msg now with
        sentinel := true, uid := some (x.lastUID mb + 1), modSeq := some (x.modSeq mb + 1) } := by
  simp [Account.delivered, Account.deliver, Account.nextIDs, deliverRequest, deliveryFields, EmailDoc.put]

theorem landed_deliverOne {t : Node} {msg : Incoming} (h : Looked n t)
    (hreg : t.kv.registry[account]? = some a) (hidx : (t.kv.account a).nameIdx[mailbox]? = some mb) :
    Landed cfg account mailbox msg n
      (t.withKV (deliverOne a (deliverRequest cfg mb mailbox msg t.store.now) t.kv).1)
      ((t.kv.account a).lastUID mb + 1) := by
  have ht := touches_deliverOne a (deliverRequest cfg mb mailbox msg t.store.now) t.kv
  obtain ⟨l, hl⟩ := ht.account a
  rw [if_pos rfl] at hl
  refine ⟨a, mb, (t.kv.account a).lastEmail + 1, (t.kv.account a).modSeq mb + 1, ?_, ?_, ?_, ?_, ?_⟩
  · rw [Node.kv_withKV, ht.registry]
    exact hreg
  · rw [Node.kv_withKV, hl]
    exact hidx
  · rw [h.lastUID]
  · rw [Node.kv_withKV, hl]
    exact (row_delivered mb _).trans (if_pos ⟨rfl, rfl⟩)
  · rw [Node.kv_withKV, hl, ← h.clock]
    exact emails_delivery _ msg t.store.now

theorem keeps_deliver {msg : Incoming} {Q : Except Err Nat → Node → Prop} (hn : Settled n)
    (hQ : ∀ t uid, Kept n t → Landed cfg account mailbox msg n t uid → Q (.ok (u32 uid)) t) :
    Keeps (deliver cfg account mailbox msg) n Q := by
  refine along_bind (keeps_ensureAccount hn fun t₁ a h₁ hreg => ?_)
  refine along_bind (keeps_ensureMailbox h₁.settled fun t₂ mb h₂ hidx => ?_)
  refine along_bind (keeps_putBlob h₂.settled ?_)
  have h₃ := looked_of_quiet (quiet_putBlob t₂ (blobIDOf cfg msg.data) msg.data) h₂.settled rfl
  generalize t₂.putBlob (blobIDOf cfg msg.data) msg.data = t₃ at h₃ ⊢
  have h₁₃ := h₁.trans (h₂.trans h₃)
  have hidx₃ := h₃.name a mailbox mb hidx
  have hland : Landed cfg account mailbox msg n _ _ :=
    landed_deliverOne h₁₃ ((h₂.trans h₃).registry account a hreg) hidx₃
  have h₄ := kept_deliverOne (r := deliverRequest cfg mb mailbox msg t₃.store.now) h₃.settled
    ((h₃.settled.sure a).name_le hidx₃)
  refine along_bind (keeps_peek h₃.settled (along_bind (along_act h₄ ?_)))
  refine along_bind (keeps_peek h₄.settled ?_)
  simp only
  split_ifs
  · exact hQ _ _ (h₁₃.toKept.trans h₄) hland
  · refine along_bind (keeps_putBlob h₄.settled ?_)
    have h₅ := looked_of_quiet (quiet_putBlob _ (blobIDOf cfg msg.data) msg.data) h₄.settled rfl
    exact hQ _ _ (h₁₃.toKept.trans (h₄.trans h₅.toKept)) hland

/-! ### The other operations on messages -/

theorem along_mailboxEmails {G : Node → Node → Prop} {Q : Except Err (List Email) → Node → Prop}
    (hG : G n n) (h : Q (.ok (listing (n.kv.account a) mb)) n) : Along G (mailboxEmails a mb) n Q := by
  refine scan_mailboxEmails (I := (· = n)) (x := n.kv.account a) ?_ (fun s t hs hst => hst.symm.trans hs) ?_ rfl ?_
  · rintro t rfl
    exact SameView.refl mb _
  · rintro t rfl
    exact hG
  · rintro t rfl
    exact h

/-- Wherever the names of `n` were kept the program keeps them. -/
abbrev KeepsFrom (n : Node) (p : Op α) : Prop :=
  Prog.Upholds (· = ·) (fun (_ : Unit) s t _ => Kept s t) (fun _ t => Kept n t) p

variable {p : Op α} {requireDeleted : Bool} {m uid : Nat} {uids : List Nat} {dst : Str}

theorem KeepsFrom.keeps (h : KeepsFrom n p) (hn : Settled n) : Keeps p n fun _ t => Kept n t := h () n (Kept.refl hn)

theorem keepsFrom_of_keeps (h : ∀ t, Settled t → Keeps p t fun _ u => Kept t u) : KeepsFrom n p :=
  fun _ t ht => (h t ht.settled).mono fun _ _ _ hu => ht.trans hu

theorem keepsFrom_read (f : Node → Except Err α) : KeepsFrom n (Prog.read f) :=
  fun _ _ ht => keeps_read ht.settled ht

theorem keepsFrom_orNotFound (o : Option α) : KeepsFrom n (orNotFound o) := by
  cases o <;> exact .done _

/-- One commit. -/
theorem keepsFrom_atomic {f : Node → Node × Except Err α} (hf : ∀ t, Kept n t → Kept t (f t).1) :
    KeepsFrom n (Prog.atomic f) :=
  fun _ t ht => along_act (hf t ht) (ht.trans (hf t ht))

theorem keepsFrom_put {f : KV → KV} (hf : ∀ t, Kept n t → Kept t (t.withKV (f t.kv))) : KeepsFrom n (put f) :=
  fun _ t ht => along_act (hf t ht) (ht.trans (hf t ht))

theorem keepsFrom_mailboxDocID_bind {k : Nat → Op α}
    (h : ∀ t mb, (t.kv.account a).nameIdx[name]? = some mb → KeepsFrom t (k mb)) :
    KeepsFrom n (mailboxDocID a name >>= k) :=
  fun _ _ ht => along_bind (keeps_mailboxDocID ht.settled
    (fun u mb hu hidx => ((h u mb hidx).keeps hu.settled).mono fun _ _ _ hv => ht.trans (hu.toKept.trans hv))
    fun _ => ht)

theorem keepsFrom_resolve_bind {k : Nat × Nat → Op α}
    (h : ∀ t a mb, (t.kv.account a).nameIdx[mailbox]? = some mb → KeepsFrom t (k (a, mb))) :
    KeepsFrom n (resolve account mailbox >>= k) :=
  fun _ _ ht => along_bind (keeps_resolve ht.settled
    (fun u a mb hu _ hidx => ((h u a mb hidx).keeps hu.settled).mono fun _ _ _ hv =>
      ht.trans (hu.toKept.trans hv)) ht)

theorem keepsFrom_deliver {msg : Incoming} : KeepsFrom n (deliver cfg account mailbox msg) :=
  keepsFrom_of_keeps fun _ ht => keeps_deliver ht fun _ _ hu _ => hu

theorem keepsFrom_mailboxEmails : KeepsFrom n (mailboxEmails a mb) :=
  fun _ _ ht => along_mailboxEmails (Kept.refl ht.settled) ht

theorem keepsFrom_bump (hidx : (n.kv.account a).nameIdx[mailbox]? = some mb) :
    KeepsFrom n (txn (bumpMailboxModSeq a mb)) :=
  keepsFrom_atomic fun t ht =>
    kept_putMailbox (y := (t.kv.account a).bump mb ((t.kv.account a).modSeq mb + 1)) ht.settled
      ((ht.settled.sure a).name_le (ht.name a mailbox mb hidx)) rfl ⟨rfl, rfl, rfl⟩
      (touches_modify a (·.bump mb ((t.kv.account a).modSeq mb + 1)) t.kv)

theorem keepsFrom_updateEmails {docs : List (Nat × EmailDoc)} :
    KeepsFrom n (put (updateEmailsAtomically a docs)) := by
  refine keepsFrom_put fun t ht => ?_
  unfold updateEmailsAtomically
  split_ifs
  · exact Kept.refl ht.settled
  · exact (sameNames_updateEmails docs _).kept ht.settled (touches_modify a (docs.foldl Account.updateEmail) t.kv)

theorem keepsFrom_deleteEmail : KeepsFrom n (deleteEmail a id mb m requireDeleted) := by
  refine (keepsFrom_read _).bind fun fields => keepsFrom_atomic fun t ht => ?_
  simp only
  generalize (if requireDeleted = true then some flagDeleted else none) = require
  rcases deleteEmailAtomically_touches a id require (deletionRows mb m fields) t.store.now t.kv with
    ⟨he, -⟩ | ⟨d, -, -, htouch⟩
  · rw [he]; exact Kept.refl ht.settled
  · exact (sameNames_delete _ id m d _).kept ht.settled htouch

theorem keepsFrom_emailByIndexUID : KeepsFrom n (emailByIndexUID a mb uid) :=
  (keepsFrom_read _).bind fun _ => (keepsFrom_orNotFound _).bind fun _ =>
    (keepsFrom_read _).bind fun _ => (keepsFrom_orNotFound _).bind fun _ => .done _

theorem keepsFrom_getBlob {b : Str} : KeepsFrom n (getBlob b) :=
  (keepsFrom_read _).bind fun _ => keepsFrom_orNotFound _

theorem keepsFrom_setFlags {flags : List Str} : KeepsFrom n (setFlags account mailbox uid flags) :=
  keepsFrom_resolve_bind fun _ _ _ hidx => keepsFrom_emailByIndexUID.bind fun _ =>
    (keepsFrom_bump hidx).bind fun _ => keepsFrom_updateEmails

theorem keepsFrom_setFlagsBatch {updates : List FlagUpdate} :
    KeepsFrom n (setFlagsBatch account mailbox updates) := by
  unfold setFlagsBatch
  split_ifs
  · exact .done _
  · exact keepsFrom_resolve_bind fun _ _ _ hidx => (keepsFrom_read _).bind fun _ =>
      (keepsFrom_bump hidx).bind fun _ => keepsFrom_updateEmails

theorem keepsFrom_expungeEach : ∀ targets, KeepsFrom n (expungeEach a mb m requireDeleted targets)
  | [] => .done _
  | e :: rest => by
    have hrest := keepsFrom_expungeEach rest
    have hcounted := hrest.bind fun deleted => .done (.ok (e.uid :: deleted))
    refine keepsFrom_deleteEmail.attempt ?_
    rintro ((_ | _ | _) | ⟨⟩)
    · exact hcounted
    · exact .done _
    · exact hrest
    · exact hcounted

theorem keepsFrom_expungeUIDs : KeepsFrom n (expungeUIDs account mailbox uids requireDeleted) := by
  refine keepsFrom_resolve_bind fun t a mb hidx => keepsFrom_mailboxEmails.bind fun emails => ?_
  simp only
  split_ifs
  · exact .done _
  · exact (keepsFrom_bump hidx).bind fun m => keepsFrom_expungeEach _

theorem keepsFrom_copyEach : ∀ emails, KeepsFrom n (copyEach cfg account mailbox emails)
  | [] => .done _
  | _ :: rest => keepsFrom_getBlob.bind fun _ => keepsFrom_deliver.bind fun _ =>
    (keepsFrom_copyEach rest).bind fun _ => .done _

theorem keepsFrom_copy : KeepsFrom n (copy cfg account mailbox dst uids) :=
  keepsFrom_resolve_bind fun _ _ _ _ => keepsFrom_mailboxEmails.bind fun _ => keepsFrom_copyEach _

theorem keepsFrom_moveEach : ∀ emails, KeepsFrom n (moveEach cfg account mailbox a mb m emails)
  | [] => .done _
  | _ :: rest => keepsFrom_getBlob.bind fun _ => keepsFrom_deliver.bind fun _ =>
    keepsFrom_deleteEmail.bind fun _ => (keepsFrom_moveEach rest).bind fun _ => .done _

theorem keepsFrom_move : KeepsFrom n (move cfg account mailbox dst uids) := by
  refine keepsFrom_resolve_bind fun t a mb hidx => keepsFrom_mailboxEmails.bind fun emails => ?_
  split_ifs
  · exact keepsFrom_moveEach _
  · exact (keepsFrom_bump hidx).bind fun m => keepsFrom_moveEach _

end

end Mailezine.Mailstore.Crash
