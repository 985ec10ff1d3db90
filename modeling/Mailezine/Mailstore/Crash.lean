import Mailezine.Mailstore.Inventory
import Mailezine.Mailstore.Settled

/-! Delivered mail across crashes.

    Requests run one after the other. A request may be cut off between any two of its accesses; the
    process then starts anew with an empty ID cache. VISIBLE: a message that `Deliver` has accepted is
    found under its UID and listed, in every run in which no `DeleteMailbox` was cut off between the
    deletion of the mailbox document and the deletion of its row in the name index. -/

namespace Mailezine.Mailstore.Crash
open Gostd Schemes Store

/-! ### Requests -/

/-- A request to the mailstore. -/
inductive Request where
  | box (op : BoxOp)
  | ensureDefaultMailboxes (account : Str)
  | setSubscribed (account mailbox : Str) (subscribed : Bool)
  | mailboxStatus (account mailbox : Str)
  | listMessages (account mailbox : Str)
  | messageByUID (account mailbox : Str) (uid : Nat)
  | deleteAccount (account : Str)

/-- The program of a request. -/
def Request.prog (cfg : Config) : Request → Op Unit
  | .box op => op.prog cfg
  | .ensureDefaultMailboxes account => Mailstore.ensureDefaultMailboxes cfg account
  | .setSubscribed account mailbox subscribed => Mailstore.setSubscribed account mailbox subscribed
  | .mailboxStatus account mailbox => effect (Mailstore.mailboxStatus account mailbox)
  | .listMessages account mailbox => effect (Mailstore.listMessages account mailbox)
  | .messageByUID account mailbox uid => effect (Mailstore.messageByUID account mailbox uid)
  | .deleteAccount account => Mailstore.deleteAccount account

/-- What happens next: a request runs to its end, or it is cut off and the process starts anew. -/
inductive Action where
  | call (r : Request)
  | crash (r : Request) (accesses : Nat)

/-- A new process has an empty ID cache. -/
def restart (n : Node) : Node := n.withIds {}

/-- One action. -/
def step (cfg : Config) (n : Node) : Action → Node
  | .call r => ((r.prog cfg).exec n).1
  | .crash r accesses => restart ((r.prog cfg).cut accesses n)

/-- A run. -/
def run (cfg : Config) (n : Node) (acts : List Action) : Node := acts.foldl (step cfg) n

/-- The last access but two of a `DeleteMailbox` that succeeds deletes the mailbox document, the next
    one the row of the name index; a crash does not fall in between. The key-by-key purge of
    `DeleteAccount` is one access here; it is not cut off at all. -/
def allows (n : Node) : Action → Bool
  | .crash (.box (.deleteMailbox account mailbox)) accesses =>
    !(((deleteMailbox account mailbox).exec n).2.isOk &&
      accesses + 2 == (deleteMailbox account mailbox).steps n)
  | .crash (.deleteAccount _) _ => false
  | _ => true

/-- Every action of the run is allowed. -/
def steady (cfg : Config) : Node → List Action → Bool
  | _, [] => true
  | n, act :: acts => allows n act && steady cfg (step cfg n act) acts

/-! ### Requests that keep the names -/

section
variable {α : Type} {cfg : Config} {n : Node} {a mb id : Nat} {name account mailbox : Str}

variable {Q : Except Err Unit → Node → Prop} {new : Str}

theorem keepsFrom_effect {p : Op α} (h : KeepsFrom n p) : KeepsFrom n (effect p) := h.attempt fun _ => .done _

theorem keepsFrom_cachedAccountID : KeepsFrom n (cachedAccountID account) :=
  keepsFrom_of_keeps fun _ ht => keeps_cachedAccountID ht (fun _ _ hu _ => hu.toKept) fun _ => Kept.refl ht

theorem keepsFrom_cachedMailboxDocID : KeepsFrom n (cachedMailboxDocID a mailbox) :=
  keepsFrom_of_keeps fun _ ht => keeps_cachedMailboxDocID ht (fun _ _ hu _ => hu.toKept) fun _ => Kept.refl ht

theorem keepsFrom_ensureAccount : KeepsFrom n (ensureAccount account) :=
  keepsFrom_of_keeps fun _ ht => keeps_ensureAccount ht fun _ _ hu _ => hu.toKept

theorem keepsFrom_ensureMailbox : KeepsFrom n (ensureMailbox a mailbox) :=
  keepsFrom_of_keeps fun _ ht => keeps_ensureMailbox ht fun _ _ hu _ => hu.toKept

theorem keepsFrom_mailboxFields : KeepsFrom n (mailboxFields a mb) :=
  (keepsFrom_read _).bind fun _ => keepsFrom_orNotFound _

theorem keepsFrom_mailboxStatus : KeepsFrom n (mailboxStatus account mailbox) :=
  keepsFrom_cachedAccountID.bind fun _ => keepsFrom_cachedMailboxDocID.bind fun _ =>
    (keepsFrom_mailboxFields.bind fun _ => (keepsFrom_read _).bind fun _ => .done _).bind fun _ =>
      keepsFrom_mailboxEmails.bind fun _ => .done _

theorem keepsFrom_listMessages : KeepsFrom n (listMessages account mailbox) :=
  keepsFrom_resolve_bind fun _ _ _ _ => keepsFrom_mailboxEmails.bind fun _ => .done _

theorem keepsFrom_messageByUID {uid : Nat} : KeepsFrom n (messageByUID account mailbox uid) :=
  keepsFrom_resolve_bind fun _ _ _ _ => keepsFrom_emailByIndexUID.bind fun _ => .done _

theorem keepsFrom_setSubscribed {b : Bool} : KeepsFrom n (setSubscribed account mailbox b) :=
  keepsFrom_resolve_bind fun _ a mb hidx => keepsFrom_put fun t ht =>
    kept_putMailbox (f := { subscribed := some b }) ht.settled
      ((ht.settled.sure a).name_le (ht.name a mailbox mb hidx)) rfl
      (y := ((t.kv.account a).putMailbox mb { subscribed := some b }).logChange .mailbox
        ⟨mb, .update, none⟩) ⟨rfl, rfl, rfl⟩
      (touches_modify a (fun x => (x.putMailbox mb { subscribed := some b }).logChange .mailbox
        ⟨mb, .update, none⟩) t.kv)

theorem keepsFrom_ensureDefaults : ∀ (names : List Str) {n : Node}, KeepsFrom n (ensureDefaults a names)
  | [], _ => .done _
  | name :: rest, _ => by
    refine keepsFrom_ensureMailbox.bind fun _ => keepsFrom_mailboxDocID_bind fun _ mb hidx =>
      keepsFrom_mailboxFields.bind fun fields => ?_
    split_ifs
    · exact keepsFrom_ensureDefaults rest
    · refine (keepsFrom_put fun t ht => ?_).bind fun _ => keepsFrom_ensureDefaults rest
      exact kept_putMailbox ht.settled ((ht.settled.sure a).name_le (ht.name a name mb hidx)) rfl
        ⟨rfl, rfl, rfl⟩ (touches_modify a (·.putMailbox mb { subscribed := some true }) t.kv)

theorem keepsFrom_ensureDefaultMailboxes : KeepsFrom n (ensureDefaultMailboxes cfg account) :=
  keepsFrom_ensureAccount.bind fun _ => keepsFrom_ensureDefaults _

theorem keepsFrom_readEntries : ∀ ids, KeepsFrom n (readEntries a ids)
  | [] => .done _
  | _ :: rest => keepsFrom_mailboxFields.bind fun _ => (keepsFrom_read _).bind fun _ =>
    (keepsFrom_readEntries rest).bind fun _ => .done _

theorem keepsFrom_listMailboxes : KeepsFrom n (listMailboxes cfg account) :=
  keepsFrom_ensureAccount.bind fun _ => keepsFrom_ensureMailbox.bind fun _ =>
    keepsFrom_ensureDefaultMailboxes.bind fun _ => (keepsFrom_read _).bind fun _ =>
      (keepsFrom_readEntries _).bind fun _ => (keepsFrom_read _).bind fun _ => .done _

/-- `CreateDocument`: a document that no row names. -/
theorem keeps_createDocument {Q : Except Err Nat → Node → Prop} (hn : Settled n)
    (hQ : ∀ t id, Kept n t → (t.kv.account a).nameIdx = (n.kv.account a).nameIdx →
      id ≤ (t.kv.account a).lastMailbox → (∀ nm : Str, (t.kv.account a).nameIdx[nm]? ≠ some id) →
      Q (.ok id) t) : Keeps (txn (createMailboxDocument a)) n Q := by
  obtain ⟨hnew, hfree⟩ := (hn.sure a).newMailbox { sentinel := true }
  have hk : Kept n (n.withKV (createMailboxDocument a n.kv).1) := by
    refine kept_of_touches hn (touches_modify a (fun x => (x.takeMailboxID
      ((n.kv.account a).lastMailbox + 1)).putMailbox ((n.kv.account a).lastMailbox + 1)
      { sentinel := true }) n.kv) hnew (fun _ _ hid => hid) (Nat.le_succ _)
  have hacct : (n.withKV (createMailboxDocument a n.kv).1).kv.account a =
      ((n.kv.account a).takeMailboxID ((n.kv.account a).lastMailbox + 1)).putMailbox
        ((n.kv.account a).lastMailbox + 1) { sentinel := true } := by
    rw [Node.kv_withKV, createMailboxDocument, KV.account_modify, if_pos rfl]
  refine along_act hk (hQ _ _ hk ?_ ?_ ?_)
  · rw [hacct]; rfl
  · rw [hacct]; exact le_rfl
  · rw [hacct]; exact hfree

/-- The document gets its fields, among them the name, and then its row. -/
theorem keeps_nameDocument {Q : Except Err Nat → Node → Prop} (hn : Settled n)
    (hle : id ≤ (n.kv.account a).lastMailbox) (hfree : ∀ nm : Str, (n.kv.account a).nameIdx[nm]? ≠ some id)
    (hnone : (n.kv.account a).nameIdx[mailbox]? = none) (hQ : ∀ t r, Kept n t → Q r t) :
    Keeps (do
      put (putMailboxFields a id (newMailboxFields mailbox id))
      putNameRow a mailbox id
      pure (u32 id)) n Q := by
  have hk : Kept n (n.withKV (putMailboxFields a id (newMailboxFields mailbox id) n.kv)) :=
    kept_of_touches hn (touches_modify a (·.putMailbox id (newMailboxFields mailbox id)) n.kv)
      ((hn.sure a).putMailbox hle (Or.inr hfree)) (fun _ _ hid => hid) le_rfl
  have hacct : (n.withKV (putMailboxFields a id (newMailboxFields mailbox id) n.kv)).kv.account a =
      (n.kv.account a).putMailbox id (newMailboxFields mailbox id) := by
    rw [Node.kv_withKV, putMailboxFields, KV.account_modify, if_pos rfl]
  refine along_bind (along_act hk ?_)
  have hrow := looked_putName hk.settled (show _[mailbox]? = none by rw [hacct]; exact hnone)
    (by rw [hacct, mailboxes_putMailbox', if_pos rfl]) (by simp [MailboxDoc.put, newMailboxFields])
  exact along_bind (along_act hrow.toKept (hQ _ _ (hk.trans hrow.toKept)))

theorem keepsFrom_createMailbox : KeepsFrom n (createMailbox account mailbox) := by
  refine keepsFrom_ensureAccount.bind fun a => keepsFrom_of_keeps fun t₁ h₁ => ?_
  refine along_attempt (keeps_mailboxDocID h₁ (fun t₂ mb h₂ _ => h₂.toKept) fun hnone => ?_)
  refine along_bind (keeps_createDocument h₁ fun t₂ id h₂ hidx hle hfree => ?_)
  exact keeps_nameDocument h₂.settled hle hfree (by rw [hidx]; exact hnone) fun t r ht => h₂.trans ht

theorem keepsFrom_mailOp (op : MailOp) : KeepsFrom n (op.prog cfg) := by
  cases op with
  | deliver account mailbox msg => exact keepsFrom_effect keepsFrom_deliver
  | setFlags account mailbox uid flags => exact keepsFrom_setFlags
  | setFlagsBatch account mailbox updates => exact keepsFrom_setFlagsBatch
  | expunge account mailbox uids => exact keepsFrom_effect keepsFrom_expungeUIDs
  | deleteUIDs account mailbox uids => exact keepsFrom_effect keepsFrom_expungeUIDs
  | copy account src dst uids => exact keepsFrom_effect keepsFrom_copy
  | move account src dst uids => exact keepsFrom_effect keepsFrom_move

/-! ### Renaming and deleting a mailbox -/

/-- The name index of every account is right. -/
def Disk (n : Node) : Prop := ∀ a, Sure (n.kv.account a)

theorem KeepsFrom.along {p : Op α} (h : KeepsFrom n p) (hn : Settled n) :
    Along (fun _ t => Disk t) p n fun _ t => Settled t :=
  ((h.keeps hn).weaken (fun _ _ h => h) fun _ _ _ _ hk => hk.settled.sure).mono fun _ _ _ ht => ht.settled

theorem Along.of_keeps {p : Op α} {Q : Except Err α → Node → Prop} (h : Keeps p n Q) :
    Along (fun _ t => Disk t) p n Q :=
  Prog.Safe.weaken (fun _ _ h => h) (fun _ _ _ _ hk => hk.settled.sure) h

/-- Nothing is lost but what one name of account `a` stands for. -/
structure Loses (a : Nat) (name : Str) (n t : Node) : Prop where
  disk : Disk t
  ids : t.ids = n.ids
  registry : t.kv.registry = n.kv.registry
  name : ∀ (c : Nat) (nm : Str) (id : Nat), (a = c → nm ≠ name) →
    (n.kv.account c).nameIdx[nm]? = some id → (t.kv.account c).nameIdx[nm]? = some id

/-- The ID cache forgets the name as well. -/
theorem Loses.settled {t : Node} (h : Loses a name n t) (hn : Settled n) :
    Settled (t.forgetMailbox a name) := by
  refine ⟨h.disk, fun email e he => ?_, fun c nm e he => ?_⟩
  · change t.kv.registry[email]? = some e.1
    rw [h.registry]
    rw [Node.forgetMailbox, Node.withIds_ids, h.ids] at he
    exact hn.ids_account email e he
  · rw [Node.forgetMailbox, Node.withIds_ids, h.ids] at he
    obtain ⟨he, hne⟩ := forgetMailbox_mailbox he
    exact h.name c nm e.1 hne (hn.ids_mailbox c nm e he)

theorem Loses.of_modify {t : Node} {f : Account → Account} (h : Loses a name n t)
    (hf : SameNames (t.kv.account a) (f (t.kv.account a))) : Loses a name n (t.withKV (t.kv.modify a f)) := by
  refine ⟨fun c => ?_, h.ids, h.registry, fun c nm id hne hid => ?_⟩
  · rw [Node.kv_withKV, KV.account_modify]
    split_ifs with hc
    · subst hc; exact hf.sure (h.disk a)
    · exact h.disk c
  · rw [Node.kv_withKV, KV.account_modify]
    have := h.name c nm id hne hid
    split_ifs with hc
    · subst hc; rw [hf.nameIdx]; exact this
    · exact this

/-- The account after the document and the two rows were written in one commit. -/
theorem Sure.rename {x : Account} (h : Sure x) (hidx : x.nameIdx[name]? = some mb) :
    Sure (([.dropName name, .putName new mb] : List IndexOp).foldl Account.indexOp
      ((x.putMailbox mb { name := some new }).logChange .mailbox ⟨mb, .update, none⟩)) := by
  refine ⟨fun nm id hid => ?_, fun id md hd => ?_⟩
  · have hrow : (if new = nm then some mb else if name = nm then none else x.nameIdx[nm]?) = some id := by
      simpa [Account.indexOp] using hid
    change ∃ md : MailboxDoc, (x.putMailbox mb { name := some new }).mailboxes[id]? = some md ∧ _
    rw [mailboxes_putMailbox']
    split_ifs at hrow with hnew hold
    · obtain rfl := Option.some.inj hrow
      exact ⟨_, if_pos rfl, by simp [MailboxDoc.put, hnew]⟩
    · obtain ⟨md, hd, hname⟩ := h.name nm id hrow
      rw [if_neg]
      · exact ⟨md, hd, hname⟩
      · rintro rfl
        exact hold (h.name_inj hidx hrow)
  · change (x.putMailbox mb { name := some new }).mailboxes[id]? = some md at hd
    change id ≤ x.lastMailbox
    rw [mailboxes_putMailbox'] at hd
    split_ifs at hd with heq
    · exact heq ▸ h.name_le hidx
    · exact h.last id md hd

theorem loses_rename (hn : Settled n) (hidx : (n.kv.account a).nameIdx[name]? = some mb)
    (hnone : (n.kv.account a).nameIdx[new]? = none) :
    Loses a name n (n.withKV (updateMailboxAtomically a mb { name := some new }
      [.dropName name, .putName new mb] n.kv)) := by
  refine ⟨fun c => ?_, rfl, rfl, fun c nm id hne hid => ?_⟩
  · rw [Node.kv_withKV, updateMailboxAtomically, KV.account_modify]
    split_ifs with hc
    · subst hc; exact (hn.sure a).rename hidx
    · exact hn.sure c
  · rw [Node.kv_withKV, updateMailboxAtomically, KV.account_modify]
    split_ifs with hc
    · subst hc
      have hnew : new ≠ nm := by
        rintro rfl
        rw [hnone] at hid
        cases hid
      simpa [Account.indexOp, hnew, (hne rfl).symm] using hid
    · exact hid

theorem along_relabel
    (hQ : ∀ t, Loses a name n t → Q (.ok ()) t) : ∀ (emails : List Email) (t : Node), Loses a name n t →
    Along (fun _ t => Disk t) (Prog.forEach (fun e : Email =>
      put (updateEmailsAtomically a [(e.docID, { mailbox := some new })])) emails) t Q
  | [], t, ht => hQ t ht
  | e :: rest, t, ht => by
    have hl : Loses a name n (t.withKV (updateEmailsAtomically a [(e.docID, { mailbox := some new })] t.kv)) := by
      rw [updateEmailsAtomically, if_neg (by simp)]
      exact ht.of_modify (sameNames_updateEmails _ _)
    exact along_bind (along_act hl.disk (along_relabel hQ rest _ hl))

theorem along_renameMailbox {oldName newName : Str} (hn : Settled n) :
    Along (fun _ t => Disk t) (renameMailbox account oldName newName) n fun _ t => Settled t := by
  refine along_bind (Along.of_keeps (keeps_resolve hn (fun t₁ a mb h₁ _ hidx => ?_) hn))
  refine along_attempt (Along.of_keeps (keeps_mailboxDocID h₁.settled (fun t mb' ht _ => ht.settled)
    fun hnone => ?_))
  have hl := loses_rename h₁.settled hidx hnone
  refine along_bind (along_act hl.disk (along_bind (along_mailboxEmails hl.disk (along_bind ?_))))
  refine along_relabel (fun t ht => ?_) _ _ hl
  have hs := ht.settled h₁.settled
  exact along_act hs.sure hs

/-- `DeleteMailbox` up to the deletion of the mailbox document. -/
def emptyMailbox (account mailbox : Str) : Op (Nat × Nat) := do
  let (a, mb) ← resolve account mailbox
  let emails ← mailboxEmails a mb
  Prog.forEach (fun e : Email => deleteEmail a e.docID mb 0 false) emails
  pure (a, mb)

/-- The rest of `DeleteMailbox`. -/
def removeMailbox (mailbox : Str) (p : Nat × Nat) : Op Unit := do
  txn (deleteMailboxDocument p.1 p.2)
  put fun kv => kv.modify p.1 (·.dropName mailbox)
  Prog.write fun n => n.forgetMailbox p.1 mailbox

theorem deleteMailbox_eq (account mailbox : Str) :
    deleteMailbox account mailbox = emptyMailbox account mailbox >>= removeMailbox mailbox := by
  unfold deleteMailbox emptyMailbox
  simp only [Prog.bind_assoc]
  rfl

theorem keeps_emptyMailbox (hn : Settled n) : Keeps (emptyMailbox account mailbox) n fun r t =>
    Settled t ∧ ∀ a mb, r = .ok (a, mb) → (t.kv.account a).nameIdx[mailbox]? = some mb := by
  refine along_bind (keeps_resolve hn (fun t₁ a mb h₁ _ hidx => ?_) ⟨hn, by simp⟩)
  refine along_bind (along_mailboxEmails (Kept.refl h₁.settled) ?_)
  have hdel : ∀ emails, KeepsFrom t₁ (Prog.forEach (fun e : Email => deleteEmail a e.docID mb 0 false) emails) :=
    fun _ => .forEach fun _ _ => keepsFrom_deleteEmail
  refine along_bind (((hdel _).keeps h₁.settled).mono fun _ r t ht => ?_)
  rcases r with err | ⟨⟩
  · exact ⟨ht.settled, by simp⟩
  · refine ⟨ht.settled, fun a' mb' h => ?_⟩
    obtain ⟨rfl, rfl⟩ := Prod.mk.inj (Except.ok.inj h)
    exact ht.name a mailbox mb hidx

/-- Without its document and its row the mailbox is gone. -/
theorem loses_remove (hn : Settled n) (hidx : (n.kv.account a).nameIdx[mailbox]? = some mb) :
    Loses a mailbox n (n.withKV ((n.kv.modify a (·.dropMailbox mb)).modify a (·.dropName mailbox))) := by
  have hacct : ∀ c, ((n.kv.modify a (·.dropMailbox mb)).modify a (·.dropName mailbox)).account c =
      if a = c then ((n.kv.account a).dropMailbox mb).dropName mailbox else n.kv.account c := by
    intro c
    rw [KV.account_modify, KV.account_modify]
    split_ifs with hc
    · rw [hc]
    · rfl
  refine ⟨fun c => ?_, rfl, rfl, fun c nm id hne hid => ?_⟩
  · rw [Node.kv_withKV, hacct]
    split_ifs with hc
    · refine ⟨fun nm id hid => ?_, fun id md hd => ?_⟩
      · rw [Account.dropName_nameIdx, Account.dropMailbox_nameIdx, getElem?_erase_row] at hid
        split_ifs at hid with hnm
        obtain ⟨md, hd, hname⟩ := (hn.sure a).name nm id hid
        refine ⟨md, ?_, hname⟩
        rw [Account.dropName_mailboxes, Account.dropMailbox_mailboxes, getElem?_erase_row, if_neg]
        · exact hd
        · rintro rfl
          exact hnm ((hn.sure a).name_inj hidx hid)
      · rw [Account.dropName_mailboxes, Account.dropMailbox_mailboxes, getElem?_erase_row] at hd
        split_ifs at hd
        exact (hn.sure a).last id md hd
    · exact hn.sure c
  · rw [Node.kv_withKV, hacct]
    split_ifs with hc
    · subst hc
      rw [Account.dropName_nameIdx, Account.dropMailbox_nameIdx, getElem?_erase_row, if_neg (hne rfl).symm]
      exact hid
    · exact hid

/-- The three accesses of the rest, when the document is there. -/
theorem removeMailbox_eq (mailbox : Str) {d : MailboxDoc} (hd : (n.kv.account a).mailboxes[mb]? = some d) :
    let gone := (n.kv.modify a (·.dropMailbox mb)).modify a (·.dropName mailbox)
    (removeMailbox mailbox (a, mb)).exec n = ((n.withKV gone).forgetMailbox a mailbox, .ok ()) ∧
      (removeMailbox mailbox (a, mb)).steps n = 3 ∧ (removeMailbox mailbox (a, mb)).cut 2 n = n.withKV gone ∧
      ∀ i, (removeMailbox mailbox (a, mb)).cut (i + 3) n = (n.withKV gone).forgetMailbox a mailbox := by
  have hdel : deleteMailboxDocument a mb n.kv = (n.kv.modify a (·.dropMailbox mb), .ok ()) := by
    simp only [deleteMailboxDocument, hd]
  refine ⟨?_, ?_, ?_, fun i => ?_⟩
  · simp only [removeMailbox, txn, put, Prog.write, Prog.atomic, bind, Prog.bind, Prog.attempt, Prog.exec, hdel]
    rfl
  · simp only [removeMailbox, txn, put, Prog.write, Prog.atomic, bind, Prog.bind, Prog.attempt, Prog.steps, hdel]
  · simp only [removeMailbox, txn, put, Prog.write, Prog.atomic, bind, Prog.bind, Prog.attempt, Prog.cut, hdel]
    rfl
  · cases i <;> simp only [removeMailbox, txn, put, Prog.write, Prog.atomic, bind, Prog.bind,
      Prog.attempt, Prog.cut, hdel] <;> rfl

theorem exec_emptyMailbox (hn : Settled n) : Settled ((emptyMailbox account mailbox).exec n).1 ∧
    ∀ a mb, ((emptyMailbox account mailbox).exec n).2 = .ok (a, mb) →
      ((((emptyMailbox account mailbox).exec n).1).kv.account a).nameIdx[mailbox]? = some mb := by
  have hsafe : Keeps (emptyMailbox account mailbox) n _ := keeps_emptyMailbox hn
  obtain ⟨_, -, hs, hidx⟩ := hsafe.exec (I := fun _ _ => True) (fun _ _ _ => rfl)
    (fun _ _ _ _ _ _ => trivial) trivial
  exact ⟨hs, hidx⟩

theorem cut_emptyMailbox (hn : Settled n) (i : Nat) : Settled ((emptyMailbox account mailbox).cut i n) :=
  (keeps_emptyMailbox hn).cut (I := Settled) (fun _ _ => rfl) (fun _ _ _ _ _ hk => hk.settled) hn i

/-- A `DeleteMailbox` that ends leaves a settled node; cut off elsewhere than between its last commits
    it leaves the name index right. -/
theorem deleteMailbox_outcome (hn : Settled n) : Settled ((deleteMailbox account mailbox).exec n).1 ∧
    ∀ i, ¬(((deleteMailbox account mailbox).exec n).2.isOk = true ∧
      i + 2 = (deleteMailbox account mailbox).steps n) → Disk ((deleteMailbox account mailbox).cut i n) := by
  rw [deleteMailbox_eq]
  have hcut : ∀ i, Settled ((emptyMailbox account mailbox).cut i n) := cut_emptyMailbox hn
  have hempty : Settled ((emptyMailbox account mailbox).exec n).1 ∧ _ := exec_emptyMailbox hn
  generalize emptyMailbox account mailbox = p at hcut hempty ⊢
  obtain ⟨hs, hidx⟩ := hempty
  change Settled ((p.attempt _).exec n).1 ∧ ∀ i, ¬(((p.attempt _).exec n).2.isOk = true ∧
    i + 2 = (p.attempt _).steps n) → Disk ((p.attempt _).cut i n)
  simp only [Prog.exec_attempt, Prog.steps_attempt, Prog.cut_attempt]
  rcases hr : p.exec n with ⟨t, e | ⟨a, mb⟩⟩
  · rw [hr] at hs
    refine ⟨hs, fun i _ => ?_⟩
    simp only
    split_ifs
    · exact (hcut i).sure
    · cases i - p.steps n <;> exact hs.sure
  · rw [hr] at hs hidx
    obtain ⟨d, hd, -⟩ := (hs.sure a).name mailbox mb (hidx a mb rfl)
    have hl := loses_remove hs (hidx a mb rfl)
    obtain ⟨hexec, hsteps, hcut₂, hcut₃⟩ := removeMailbox_eq mailbox hd
    refine ⟨?_, fun i hgap => ?_⟩
    · change Settled ((removeMailbox mailbox (a, mb)).exec t).1
      rw [hexec]
      exact hl.settled hs
    · simp only at hgap ⊢
      split_ifs with hlt
      · exact (hcut i).sure
      · rw [hexec, hsteps] at hgap
        match hk : i - p.steps n with
        | 0 => exact hs.sure
        | 1 => exact absurd ⟨rfl, by omega⟩ hgap
        | 2 =>
          rw [hcut₂]
          exact hl.disk
        | j + 3 =>
          rw [hcut₃]
          exact (hl.settled hs).sure

/-! ### Deleting an account -/

/-- Nothing is stored under account `a`, and the rest is as it was. -/
structure Purged (a : Nat) (n t : Node) : Prop where
  account : ∀ c, t.kv.account c = if a = c then {} else n.kv.account c
  registry : t.kv.registry = n.kv.registry
  ids : t.ids = n.ids

theorem sure_empty : Sure {} := ⟨by simp, by simp⟩

theorem purged_purgeRows (a : Nat) (n : Node) : Purged a n (n.withKV (purgeRows a n.kv)) := by
  refine ⟨fun c => ?_, rfl, rfl⟩
  rw [Node.kv_withKV]
  unfold KV.account purgeRows
  rw [getElem?_erase_row]
  split_ifs <;> rfl

theorem Purged.settled {t : Node} (h : Purged a n t) (hn : Settled n) :
    Settled ((t.withKV (dropRegistry account t.kv)).forgetAccount account a) := by
  refine ⟨fun c => ?_, fun email e he => ?_, fun c nm e he => ?_⟩
  · change Sure (t.kv.account c)
    rw [h.account]
    split_ifs
    · exact sure_empty
    · exact hn.sure c
  · change (t.kv.registry.erase account)[email]? = some e.1
    change Function.update t.ids.account account none email = some e at he
    rw [Function.update_apply] at he
    split_ifs at he with hne
    rw [getElem?_erase_row, if_neg fun h => hne h.symm, h.registry]
    rw [h.ids] at he
    exact hn.ids_account email e he
  · change (t.kv.account c).nameIdx[nm]? = some e.1
    change Function.update t.ids.mailbox a (fun _ => none) c nm = some e at he
    rw [Function.update_apply] at he
    split_ifs at he with hne
    rw [h.account, if_neg fun h => hne h.symm]
    rw [h.ids] at he
    exact hn.ids_mailbox c nm e he

theorem along_claims {now : Nat}
    (hQ : ∀ t, Purged a n t → Q (.ok ()) t) : ∀ (blobs : List Str) (t : Node), Purged a n t →
    Along (fun _ _ => True) (Prog.forEach (fun b => put fun kv => kv.putClaim b now) blobs) t Q
  | [], t, ht => hQ t ht
  | b :: rest, t, ht => by
    have hp : Purged a n (t.withKV (t.kv.putClaim b now)) := ⟨ht.account, ht.registry, ht.ids⟩
    exact along_bind (along_act trivial (along_claims hQ rest _ hp))

theorem along_deleteAccount (hn : Settled n) :
    Along (fun _ _ => True) (deleteAccount account) n fun _ t => Settled t := by
  refine along_bind (Prog.Safe.weaken (fun _ _ h => h) (fun _ _ _ _ _ => trivial)
    (keeps_accountByEmail hn (fun a hreg => ?_) fun _ => hn))
  refine along_bind (along_act (f := id) trivial ?_)
  refine along_bind (along_act trivial ?_)
  refine along_bind (along_act (f := id) trivial (along_bind ?_))
  refine along_claims (fun t ht => ?_) _ _ (purged_purgeRows a n)
  have hs : Settled ((t.withKV (dropRegistry account t.kv)).forgetAccount account a) := ht.settled hn
  refine along_bind (along_act trivial ?_)
  rintro u rfl
  exact ⟨(), trivial, hs⟩

/-! ### Runs -/

/-- All other requests leave a settled node, and the name index right with every access. -/
theorem Request.along (cfg : Config) (r : Request) (hn : Settled n) :
    (∃ account mailbox, r = .box (.deleteMailbox account mailbox)) ∨ (∃ account, r = .deleteAccount account) ∨
      Along (fun _ t => Disk t) (r.prog cfg) n fun _ t => Settled t := by
  cases r with
  | box op =>
    cases op with
    | mail op => exact Or.inr (Or.inr ((keepsFrom_mailOp op).along hn))
    | append account mailbox msg => exact Or.inr (Or.inr ((keepsFrom_effect keepsFrom_deliver).along hn))
    | createMailbox account mailbox => exact Or.inr (Or.inr ((keepsFrom_effect keepsFrom_createMailbox).along hn))
    | deleteMailbox account mailbox => exact Or.inl ⟨account, mailbox, rfl⟩
    | renameMailbox account oldName newName => exact Or.inr (Or.inr (along_renameMailbox hn))
    | listMailboxes account => exact Or.inr (Or.inr ((keepsFrom_effect keepsFrom_listMailboxes).along hn))
    | tick now =>
      have hk : Kept n (n.setClock now) := ⟨⟨hn.sure, hn.ids_account, hn.ids_mailbox⟩, fun _ _ h => h,
        fun _ _ _ h => h, fun _ => le_rfl⟩
      exact Or.inr (Or.inr (.of_keeps (along_act hk hk.settled)))
  | ensureDefaultMailboxes account => exact Or.inr (Or.inr (keepsFrom_ensureDefaultMailboxes.along hn))
  | setSubscribed account mailbox b => exact Or.inr (Or.inr (keepsFrom_setSubscribed.along hn))
  | mailboxStatus account mailbox => exact Or.inr (Or.inr ((keepsFrom_effect keepsFrom_mailboxStatus).along hn))
  | listMessages account mailbox => exact Or.inr (Or.inr ((keepsFrom_effect keepsFrom_listMessages).along hn))
  | messageByUID account mailbox uid => exact Or.inr (Or.inr ((keepsFrom_effect keepsFrom_messageByUID).along hn))
  | deleteAccount account => exact Or.inr (Or.inl ⟨account, rfl⟩)

theorem settled_exec {G : Node → Node → Prop} {p : Op Unit} (h : Along G p n fun _ t => Settled t) :
    Settled (p.exec n).1 := by
  obtain ⟨_, -, hs⟩ := h.exec (I := fun _ _ => True) (fun _ _ _ => rfl) (fun _ _ _ _ _ _ => trivial) trivial
  exact hs

theorem disk_cut {p : Op Unit} (hn : Settled n)
    (h : Along (fun _ t => Disk t) p n Q) (i : Nat) : Disk (p.cut i n) :=
  h.cut (I := Disk) (fun _ _ => rfl) (fun _ _ _ _ _ hk => hk) hn.sure i

theorem settled_restart (h : Disk n) : Settled (restart n) := by
  refine ⟨h, fun email e he => ?_, fun a nm e he => ?_⟩
  · exact absurd he (by simp [restart])
  · exact absurd he (by simp [restart])

/-- The step lemma: an allowed action leaves a settled node. -/
theorem settled_step (hn : Settled n) {act : Action} (ha : allows n act = true) : Settled (step cfg n act) := by
  cases act with
  | call r =>
    rcases r.along cfg hn with ⟨account, mailbox, rfl⟩ | ⟨account, rfl⟩ | hr
    · exact (deleteMailbox_outcome hn).1
    · exact settled_exec (along_deleteAccount hn)
    · exact settled_exec hr
  | crash r i =>
    refine settled_restart ?_
    rcases r.along cfg hn with ⟨account, mailbox, rfl⟩ | ⟨account, rfl⟩ | hr
    · refine (deleteMailbox_outcome hn).2 i fun ⟨hok, hi⟩ => ?_
      simp [allows, hok, ← hi] at ha
    · exact absurd ha (by simp [allows])
    · exact disk_cut hn hr i

theorem settled_run {acts : List Action} (hn : Settled n) (hs : steady cfg n acts = true) :
    Settled (run cfg n acts) := by
  induction acts generalizing n with
  | nil => exact hn
  | cons act acts ih =>
    obtain ⟨ha, hs⟩ := Bool.and_eq_true_iff.mp hs
    exact ih (settled_step hn ha) hs

theorem settled_init : Settled {} := by
  refine ⟨fun a => ?_, fun email e he => ?_, fun a nm e he => ?_⟩
  · have hacct : ({} : Node).kv.account a = {} := by simp [KV.account]
    rw [hacct]
    exact sure_empty
  · cases he
  · cases he

end

/-! ### What is found of a delivery -/

/-- A delivered message as it is read back: flags and keywords went through their comma-joined form. -/
def received (cfg : Config) (msg : Incoming) (now uid m : Nat) : Message :=
  let split := splitFlags (normalizeFlags msg.flags msg.seen)
  let keywords := splitCSV (joinCSV (split.2 ++ msg.keywords))
  { uid := uid
    sender := msg.sender
    head := headerBlock msg.data
    body := cfg.bodyStructure msg.data
    flags := splitCSV (joinCSV split.1) ++ keywords
    keywords := keywords
    internalDate := some (msg.internalDate.getD (unix now))
    size := .ofNat msg.data.length
    modSeq := m }

section
variable {cfg : Config} {n t : Node} {account mailbox : Str} {msg : Incoming} {uid a mb : Nat}

theorem exec_resolve_sure (hn : Settled n) (hreg : n.kv.registry[account]? = some a)
    (hidx : (n.kv.account a).nameIdx[mailbox]? = some mb) :
    (resolve account mailbox).exec n = (n, .ok (a, mb)) := by
  obtain ⟨d, hd, hname⟩ := (hn.sure a).name mailbox mb hidx
  have hget : (getE (accountByEmail account)).exec n = (n, .ok a) := by
    rw [getE, Prog.exec_read, accountByEmail, hreg]
  have hdoc : (mailboxDocID a mailbox).exec n = (n, .ok mb) := by
    unfold mailboxDocID
    rw [Prog.exec_bind_ok (t := n) (a := some mb) (by rw [get, Prog.exec_read, hidx])]
    simp only
    rw [Prog.exec_bind_ok (t := n) (a := some d) (by rw [get, Prog.exec_read, hd])]
    simp only [if_pos hname, Prog.exec_pure]
  unfold resolve
  rw [Prog.exec_bind_ok hget, Prog.exec_bind_ok hdoc, Prog.exec_pure]

theorem Landed.found (h : Landed cfg account mailbox msg n t uid) (ht : Settled t) (huid : uid < 2 ^ 32) :
    ∃ m, ((messageByUID account mailbox uid).exec t).2 = .ok (received cfg msg n.store.now uid m) ∧
      ∃ l, ((listMessages account mailbox).exec t).2 = .ok l ∧ received cfg msg n.store.now uid m ∈ l := by
  obtain ⟨a, mb, id, m, hreg, hidx, -, hrow, hdoc⟩ := h
  have hres := exec_resolve_sure ht hreg hidx
  have hu : u32 uid = uid := Nat.mod_eq_of_lt huid
  obtain ⟨d, hd, hsent, hmsg⟩ : ∃ d : EmailDoc, (t.kv.account a).emails[id]? = some d ∧ d.sentinel = true ∧
      messageFromEmail (emailFromFields id d) = received cfg msg n.store.now uid m := by
    refine ⟨_, hdoc, rfl, ?_⟩
    simp [messageFromEmail, emailFromFields, deliveryFields, received, hu]
  refine ⟨m, ?_, (listing (t.kv.account a) mb).map messageFromEmail, ?_, ?_⟩
  · have hget : (emailByIndexUID a mb uid).exec t = (t, .ok (emailFromFields id d)) := by
      have hrow' : ((t.kv.account a).emailIdx mb)[uid]? = some id := hrow
      unfold emailByIndexUID
      rw [Prog.exec_bind_ok (t := t) (a := some id) (by rw [get, Prog.exec_read, hrow']),
        Prog.exec_bind_ok (t := t) (a := id) rfl,
        Prog.exec_bind_ok (t := t) (a := some d) (by rw [get, Prog.exec_read, hd])]
      rfl
    unfold messageByUID
    rw [Prog.exec_bind_ok hres]
    simp only
    rw [Prog.exec_bind_ok hget, Prog.exec_pure, hmsg]
  · unfold listMessages
    rw [Prog.exec_bind_ok hres]
    simp only
    rw [Prog.exec_bind_ok (exec_mailboxEmails a mb t), Prog.exec_pure]
  · refine List.mem_map.mpr ⟨emailFromFields id d, ?_, hmsg⟩
    refine List.mem_filterMap.mpr ⟨(uid, id), mem_scan.mpr hrow, ?_⟩
    simp [hd, hsent]

end

/-- VISIBLE: in a steady run every `Deliver` returns, and the message is found under the UID that it
    returned and is listed, as long as that mailbox has UIDs left. -/
theorem delivered_visible (cfg : Config) (acts : List Action) (account mailbox : Str) (msg : Incoming)
    (hs : steady cfg {} acts = true)
    (hroom : ∀ a mb, ((run cfg {} acts).kv.account a).lastUID mb + 1 < 2 ^ 32) :
    ∃ n uid m l, (deliver cfg account mailbox msg).exec (run cfg {} acts) = (n, .ok uid) ∧
      ((messageByUID account mailbox uid).exec n).2 = .ok (received cfg msg (run cfg {} acts).store.now uid m) ∧
      ((listMessages account mailbox).exec n).2 = .ok l ∧
      received cfg msg (run cfg {} acts).store.now uid m ∈ l := by
  have hn : Settled (run cfg {} acts) := settled_run settled_init hs
  generalize run cfg {} acts = n at hn hroom ⊢
  have hdel : Keeps (deliver cfg account mailbox msg) n fun r t =>
      ∃ uid, r = .ok (u32 uid) ∧ Settled t ∧ Landed cfg account mailbox msg n t uid :=
    keeps_deliver hn fun t uid ht hl => ⟨uid, rfl, ht.settled, hl⟩
  obtain ⟨_, -, uid, hr, ht, hl⟩ := hdel.exec (I := fun _ _ => True) (fun _ _ _ => rfl)
    (fun _ _ _ _ _ _ => trivial) trivial
  have huid : uid < 2 ^ 32 := by
    obtain ⟨a, mb, -, -, -, -, rfl, -⟩ := hl
    exact hroom a mb
  have hu : u32 uid = uid := Nat.mod_eq_of_lt huid
  obtain ⟨m, hfound, l, hlist, hmem⟩ := hl.found ht huid
  exact ⟨_, uid, m, l, Prod.ext rfl (by rw [hr, hu]), hfound, hlist, hmem⟩

/-- A `CreateMailbox` is cut off before the mailbox document has its name, and repeated. -/
def interrupted : List Action :=
  [.crash (.box (.createMailbox [1] [2])) 6, .call (.box (.createMailbox [1] [2]))]

theorem lastUID_interrupted (a mb : Nat) : ((run .plain {} interrupted).kv.account a).lastUID mb = 0 := by
  have hkv : (run .plain {} interrupted).kv =
      ((((({} : KV).register [1] 1).modify 1 fun x => (x.takeMailboxID 1).putMailbox 1 { sentinel := true }).modify 1
        fun x => (x.takeMailboxID 2).putMailbox 2 { sentinel := true }).modify 1
        (·.putMailbox 2 (newMailboxFields [2] 2))).modify 1 (·.putName [2] 2) := rfl
  rw [hkv]
  simp only [KV.account_modify]
  split_ifs <;> simp [KV.account]

theorem delivered_visible_interrupted : ∃ n uid m l,
    (deliver .plain [1] [2] {}).exec (run .plain {} interrupted) = (n, .ok uid) ∧
      ((messageByUID [1] [2] uid).exec n).2 =
        .ok (received .plain {} (run .plain {} interrupted).store.now uid m) ∧
      ((listMessages [1] [2]).exec n).2 = .ok l ∧
      received .plain {} (run .plain {} interrupted).store.now uid m ∈ l :=
  delivered_visible .plain interrupted [1] [2] {} (by decide +kernel) fun a mb => by
    rw [lastUID_interrupted]
    decide

/-- `DeleteMailbox` is cut off between its last two commits. -/
def staleRow : List Action :=
  [.call (.box (.createMailbox [1] [2])), .crash (.box (.deleteMailbox [1] [2])) 5]

/-- `EnsureMailboxDoc` adopts the row that was left; `mailboxDocID` does not. -/
theorem staleRow_hides_mail : ((deliver .plain [1] [2] {}).exec (run .plain {} staleRow)).2 = .ok 1 ∧
    ((messageByUID [1] [2] 1).exec ((deliver .plain [1] [2] {}).exec (run .plain {} staleRow)).1).2 =
      .error .notFound := by
  decide +kernel

end Mailezine.Mailstore.Crash
