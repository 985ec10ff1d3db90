import Mailezine.Mailstore.Cached

/-! The registry of accounts.

    Every step of every call leaves the registry alone, registers one address under the next number, or
    removes an address. As long as the numbers last, no two addresses stand for one account. -/

namespace Mailezine.Mailstore
open Gostd Schemes Store

/-- What a step may do to the registry. -/
inductive Mints (n n' : Node) : Prop where
  | same (registry : n'.kv.registry = n.kv.registry) (last : n'.kv.lastAccount = n.kv.lastAccount)
  | register (email : Str) (registry : n'.kv.registry = n.kv.registry.insert email (u32 (n.kv.lastAccount + 1)))
      (last : n'.kv.lastAccount = n.kv.lastAccount + 1)
  | drop (email : Str) (registry : n'.kv.registry = n.kv.registry.erase email)
      (last : n'.kv.lastAccount = n.kv.lastAccount)

/-- Unless the numbers ran out, every address has a number of its own. -/
def Roll (n : Node) : Prop :=
  n.kv.lastAccount < 2 ^ 32 → (∀ (email : Str) (a : Nat), n.kv.registry[email]? = some a → a ≤ n.kv.lastAccount) ∧
    ∀ (email email' : Str) (a : Nat), n.kv.registry[email]? = some a → n.kv.registry[email']? = some a →
      email = email'

theorem roll_empty : Roll {} := by
  refine fun _ => ⟨fun email a h => ?_, fun email email' a h => ?_⟩ <;> simp at h

theorem Mints.last_le {n n' : Node} (h : Mints n n') : n.kv.lastAccount ≤ n'.kv.lastAccount := by
  cases h with
  | same _ last => exact last.ge
  | register _ _ last => omega
  | drop _ _ last => exact last.ge

theorem Mints.roll {n n' : Node} (h : Mints n n') (hn : Roll n) : Roll n' := by
  intro hroom
  obtain ⟨hle, hinj⟩ := hn (h.last_le.trans_lt hroom)
  cases h with
  | same registry last =>
    rw [registry, last]
    exact ⟨hle, hinj⟩
  | register email registry last =>
    have hnew : u32 (n.kv.lastAccount + 1) = n.kv.lastAccount + 1 := Nat.mod_eq_of_lt (by omega)
    rw [registry, last, hnew]
    have hold : ∀ (e : Str) (a : Nat), n.kv.registry[e]? = some a → n.kv.lastAccount + 1 ≠ a := by
      intro e a he
      have := hle e a he
      omega
    refine ⟨fun e a he => ?_, fun e e' a he he' => ?_⟩
    · rw [getElem?_insert_row] at he
      split_ifs at he with h₁
      · exact (Option.some.inj he).ge
      · exact (hle e a he).trans (Nat.le_succ _)
    · rw [getElem?_insert_row] at he he'
      split_ifs at he he' with h₁ h₂ h₂
      · exact h₁.symm.trans h₂
      · exact absurd (Option.some.inj he) (hold e' a he')
      · exact absurd (Option.some.inj he') (hold e a he)
      · exact hinj e e' a he he'
  | drop email registry last =>
    rw [registry, last]
    refine ⟨fun e a he => ?_, fun e e' a he he' => ?_⟩
    · rw [getElem?_erase_row] at he
      split_ifs at he
      exact hle e a he
    · rw [getElem?_erase_row] at he he'
      split_ifs at he he'
      exact hinj e e' a he he'

theorem last_le_exec {α : Type} {p : Op α} (hp : p.Each Mints) (n : Node) :
    n.kv.lastAccount ≤ (p.exec n).1.kv.lastAccount :=
  hp.exec (I := fun t => n.kv.lastAccount ≤ t.kv.lastAccount) (fun _ _ hs hm => hs.trans hm.last_le) le_rfl

theorem roll_exec {α : Type} {p : Op α} (hp : p.Each Mints) {n : Node} (hn : Roll n) : Roll (p.exec n).1 :=
  hp.exec (fun _ _ hs hm => hm.roll hs) hn

/-! ### Steps -/

section
variable {α : Type}

theorem mints_done (r : Except Err α) : (Prog.done r : Op α).Each Mints := trivial

theorem mints_read (f : Node → Except Err α) : (Prog.read f : Op α).Each Mints :=
  ⟨fun _ => .same rfl rfl, fun _ => mints_done _⟩

theorem mints_get (f : KV → α) : (get f).Each Mints := mints_read _

theorem mints_peek (f : Node → α) : (peek f).Each Mints := mints_read _

theorem mints_getE (f : KV → Except Err α) : (getE f).Each Mints := mints_read _

theorem mints_write {f : Node → Node} (h : ∀ n, (f n).kv = n.kv) : (Prog.write f : Op Unit).Each Mints :=
  ⟨fun n => .same (by rw [h]) (by rw [h]), fun _ => mints_done _⟩

theorem mints_put {f : KV → KV} (h : ∀ kv, (f kv).registry = kv.registry ∧ (f kv).lastAccount = kv.lastAccount) :
    (put f).Each Mints :=
  ⟨fun n => .same (h n.kv).1 (h n.kv).2, fun _ => mints_done _⟩

theorem mints_txn {T : Txn α}
    (h : ∀ kv, (T kv).1.registry = kv.registry ∧ (T kv).1.lastAccount = kv.lastAccount) : (txn T).Each Mints :=
  ⟨fun n => .same (h n.kv).1 (h n.kv).2, fun _ => mints_done _⟩

theorem mints_orNotFound (o : Option α) : (orNotFound o).Each Mints := by
  cases o <;> exact trivial

end

theorem registry_deliverOne (a : Nat) (r : DeliverRequest) (kv : KV) :
    (deliverOne a r kv).1.registry = kv.registry ∧ (deliverOne a r kv).1.lastAccount = kv.lastAccount := by
  unfold deliverOne stageBlobLink
  simp only
  split_ifs <;> exact ⟨rfl, rfl⟩

theorem registry_deleteEmailAtomically (a id : Nat) (require : Option Str) (extra : List IndexOp) (now : Nat)
    (kv : KV) : (deleteEmailAtomically a id require extra now kv).1.registry = kv.registry ∧
      (deleteEmailAtomically a id require extra now kv).1.lastAccount = kv.lastAccount := by
  unfold deleteEmailAtomically
  cases (kv.account a).emails[id]? with
  | none => exact ⟨rfl, rfl⟩
  | some d =>
    simp only
    split_ifs
    · exact ⟨rfl, rfl⟩
    · exact ⟨rfl, rfl⟩
    · unfold unlinkBlob
      split <;> exact ⟨rfl, rfl⟩

theorem registry_updateEmailsAtomically (a : Nat) (docs : List (Nat × EmailDoc)) (kv : KV) :
    (updateEmailsAtomically a docs kv).registry = kv.registry ∧
      (updateEmailsAtomically a docs kv).lastAccount = kv.lastAccount := by
  unfold updateEmailsAtomically
  split_ifs <;> exact ⟨rfl, rfl⟩

/-! ### Resolving names -/

theorem mints_cachedAccountID (email : Str) : (cachedAccountID email).Each Mints := by
  refine (mints_peek _).bind fun o => ?_
  cases o with
  | some a => exact trivial
  | none => exact (mints_getE _).bind fun a => Prog.Each.bind (mints_write fun _ => rfl) fun _ => mints_done _

theorem mints_mailboxFields (a id : Nat) : (mailboxFields a id).Each Mints :=
  (mints_get _).bind mints_orNotFound

theorem mints_findMailbox (a : Nat) (name : Str) : ∀ ids : List Nat, (findMailbox a name ids).Each Mints
  | [] => trivial
  | id :: rest => by
    refine (mints_mailboxFields a id).bind fun fields => ?_
    split_ifs
    · exact Prog.Each.bind (mints_put fun _ => ⟨rfl, rfl⟩) fun _ => mints_done _
    · exact mints_findMailbox a name rest

theorem mints_mailboxDocID (a : Nat) (name : Str) : (mailboxDocID a name).Each Mints := by
  have hscan : (listMailboxIDs a >>= findMailbox a name).Each Mints :=
    (mints_get _).bind (mints_findMailbox a name)
  refine (mints_get _).bind fun o => ?_
  cases o with
  | none => exact hscan
  | some id =>
    refine (mints_get _).bind fun d => ?_
    cases d with
    | none => exact hscan
    | some fields =>
      simp only
      split_ifs
      · exact trivial
      · exact hscan

theorem mints_cachedMailboxDocID (a : Nat) (name : Str) : (cachedMailboxDocID a name).Each Mints := by
  refine (mints_peek _).bind fun o => ?_
  cases o with
  | some a => exact trivial
  | none =>
    exact (mints_mailboxDocID a name).bind fun id =>
      Prog.Each.bind (mints_write fun _ => rfl) fun _ => mints_done _

theorem mints_createAccount (email : Str) : (txn (createAccount email)).Each Mints := by
  refine ⟨fun n => ?_, fun _ => mints_done _⟩
  cases hreg : n.kv.registry[email]? with
  | some a =>
    have hkv : (createAccount email n.kv).1 = n.kv := by simp [createAccount, hreg]
    exact .same (congrArg KV.registry hkv) (congrArg KV.lastAccount hkv)
  | none =>
    have hkv : (createAccount email n.kv).1 = n.kv.register email (u32 (n.kv.lastAccount + 1)) := by
      simp [createAccount, hreg]
    exact .register email (congrArg KV.registry hkv) (congrArg KV.lastAccount hkv)

theorem mints_ensureAccount (email : Str) : (ensureAccount email).Each Mints := by
  refine (mints_cachedAccountID email).attempt ?_
  rintro ((_ | _ | _) | a)
  · refine (mints_createAccount email).attempt ?_
    rintro ((_ | _ | _) | a)
    · exact trivial
    · exact mints_cachedAccountID email
    · exact trivial
    · exact trivial
  · exact trivial
  · exact trivial
  · exact trivial

theorem mints_ensureMailbox (a : Nat) (name : Str) : (ensureMailbox a name).Each Mints := by
  refine (mints_cachedMailboxDocID a name).attempt ?_
  rintro ((_ | _ | _) | id)
  · refine mints_txn fun kv => ?_
    unfold ensureMailboxDoc
    cases (kv.account a).nameIdx[name]? <;> exact ⟨rfl, rfl⟩
  · exact trivial
  · exact trivial
  · exact trivial

variable (account mailbox : Str)

theorem mints_resolve : (resolve account mailbox).Each Mints :=
  (mints_getE _).bind fun a => (mints_mailboxDocID a mailbox).bind fun _ => mints_done _

/-! ### Messages -/

theorem mints_fetchSpans (a : Nat) : ∀ (runs : List (List Nat)) (byID : Rows EmailDoc),
    (fetchSpans a runs byID).Each Mints
  | [], _ => trivial
  | _ :: rest, _ => (mints_get _).bind fun _ => mints_fetchSpans a rest _

theorem mints_mailboxEmails (a mb : Nat) : (mailboxEmails a mb).Each Mints :=
  (mints_get _).bind fun _ => (mints_fetchSpans a _ _).bind fun _ => mints_done _

theorem mints_emailByIndexUID (a mb uid : Nat) : (emailByIndexUID a mb uid).Each Mints :=
  (mints_get _).bind fun o => (mints_orNotFound o).bind fun _ => (mints_get _).bind fun d =>
    (mints_orNotFound d).bind fun _ => mints_done _

theorem mints_getBlob (id : Str) : (getBlob id).Each Mints := (mints_peek _).bind mints_orNotFound

variable (cfg : Config)

theorem mints_deliver (account mailbox : Str) (msg : Incoming) : (deliver cfg account mailbox msg).Each Mints := by
  refine (mints_ensureAccount account).bind fun a => (mints_ensureMailbox a mailbox).bind fun mb => ?_
  refine Prog.Each.bind (mints_write fun _ => rfl) fun _ => (mints_peek _).bind fun now => ?_
  refine (mints_txn fun kv => registry_deliverOne a _ kv).bind fun ids => (mints_peek _).bind fun present => ?_
  split_ifs
  · exact trivial
  · exact Prog.Each.bind (mints_write fun _ => rfl) fun _ => mints_done _

theorem mints_deleteEmail (a id mb m : Nat) (requireDeleted : Bool) :
    (deleteEmail a id mb m requireDeleted).Each Mints := by
  refine (mints_get _).bind fun fields => ⟨fun n => ?_, fun _ => mints_done _⟩
  obtain ⟨hreg, hlast⟩ := registry_deleteEmailAtomically a id
    (if requireDeleted = true then some flagDeleted else none) (deletionRows mb m fields) n.store.now n.kv
  exact .same hreg hlast

theorem mints_bump (a mb : Nat) : (txn (bumpMailboxModSeq a mb)).Each Mints := mints_txn fun _ => ⟨rfl, rfl⟩

theorem mints_setFlags (uid : Nat) (flags : List Str) : (setFlags account mailbox uid flags).Each Mints :=
  (mints_resolve account mailbox).bind fun p => (mints_emailByIndexUID p.1 p.2 uid).bind fun _ =>
    (mints_bump p.1 p.2).bind fun _ => mints_put fun kv => registry_updateEmailsAtomically p.1 _ kv

theorem mints_setFlagsBatch (updates : List FlagUpdate) : (setFlagsBatch account mailbox updates).Each Mints := by
  unfold setFlagsBatch
  split_ifs
  · exact trivial
  · exact (mints_resolve account mailbox).bind fun p => (mints_get _).bind fun _ =>
      (mints_bump p.1 p.2).bind fun _ => mints_put fun kv => registry_updateEmailsAtomically p.1 _ kv

theorem mints_expungeEach (a mb m : Nat) (requireDeleted : Bool) : ∀ emails : List Email,
    (expungeEach a mb m requireDeleted emails).Each Mints
  | [] => trivial
  | e :: rest => by
    have hrest := mints_expungeEach a mb m requireDeleted rest
    refine (mints_deleteEmail a e.docID mb m requireDeleted).attempt ?_
    rintro ((_ | _ | _) | _)
    · exact hrest.bind fun _ => mints_done _
    · exact trivial
    · exact hrest
    · exact hrest.bind fun _ => mints_done _

theorem mints_expungeUIDs (uids : List Nat) (requireDeleted : Bool) :
    (expungeUIDs account mailbox uids requireDeleted).Each Mints := by
  refine (mints_resolve account mailbox).bind fun p => (mints_mailboxEmails p.1 p.2).bind fun emails => ?_
  simp only
  split_ifs
  · exact trivial
  · exact (mints_bump p.1 p.2).bind fun m => mints_expungeEach p.1 p.2 m requireDeleted _

theorem mints_copyEach (cfg : Config) (account dst : Str) : ∀ emails : List Email,
    (copyEach cfg account dst emails).Each Mints
  | [] => trivial
  | e :: rest => (mints_getBlob e.blobID).bind fun _ => (mints_deliver cfg account dst _).bind fun _ =>
    (mints_copyEach cfg account dst rest).bind fun _ => mints_done _

theorem mints_moveEach (cfg : Config) (account dst : Str) (a mb m : Nat) : ∀ emails : List Email,
    (moveEach cfg account dst a mb m emails).Each Mints
  | [] => trivial
  | e :: rest => (mints_getBlob e.blobID).bind fun _ => (mints_deliver cfg account dst _).bind fun _ =>
    (mints_deleteEmail a e.docID mb m false).bind fun _ =>
      (mints_moveEach cfg account dst a mb m rest).bind fun _ => mints_done _

theorem mints_move (account src dst : Str) (uids : List Nat) : (move cfg account src dst uids).Each Mints := by
  refine (mints_resolve account src).bind fun p => (mints_mailboxEmails p.1 p.2).bind fun emails => ?_
  split_ifs
  · exact mints_moveEach cfg account dst p.1 p.2 0 emails
  · exact (mints_bump p.1 p.2).bind fun m => mints_moveEach cfg account dst p.1 p.2 m _

theorem mints_effect {α : Type} {p : Op α} (h : p.Each Mints) : (effect p).Each Mints :=
  h.attempt fun _ => mints_done _

theorem mints_mailOp (op : MailOp) : (op.prog cfg).Each Mints := by
  cases op with
  | deliver account mailbox msg => exact mints_effect (mints_deliver cfg account mailbox msg)
  | setFlags account mailbox uid flags => exact mints_setFlags account mailbox uid flags
  | setFlagsBatch account mailbox updates => exact mints_setFlagsBatch account mailbox updates
  | expunge account mailbox uids => exact mints_effect (mints_expungeUIDs account mailbox uids true)
  | deleteUIDs account mailbox uids => exact mints_effect (mints_expungeUIDs account mailbox uids false)
  | copy account src dst uids =>
    exact mints_effect ((mints_resolve account src).bind fun p => (mints_mailboxEmails p.1 p.2).bind fun _ =>
      mints_copyEach cfg account dst _)
  | move account src dst uids => exact mints_effect (mints_move cfg account src dst uids)

/-! ### Mailboxes -/

theorem mints_readMailboxMeta (a mb : Nat) (mailbox : Str) : (readMailboxMeta a mb mailbox).Each Mints :=
  (mints_mailboxFields a mb).bind fun _ => (mints_get _).bind fun _ => mints_done _

theorem mints_ensureDefaults (a : Nat) : ∀ names : List Str, (ensureDefaults a names).Each Mints
  | [] => trivial
  | name :: rest => by
    have hrest := mints_ensureDefaults a rest
    refine (mints_ensureMailbox a name).bind fun _ => (mints_mailboxDocID a name).bind fun mb => ?_
    refine (mints_mailboxFields a mb).bind fun fields => ?_
    split_ifs
    · exact hrest
    · exact Prog.Each.bind (mints_put fun _ => ⟨rfl, rfl⟩) fun _ => hrest

theorem mints_ensureDefaultMailboxes (account : Str) : (ensureDefaultMailboxes cfg account).Each Mints :=
  (mints_ensureAccount account).bind fun a => mints_ensureDefaults a _

theorem mints_readEntries (a : Nat) : ∀ ids : List Nat, (readEntries a ids).Each Mints
  | [] => trivial
  | id :: rest => (mints_mailboxFields a id).bind fun _ => (mints_get _).bind fun _ =>
    (mints_readEntries a rest).bind fun _ => mints_done _

theorem mints_listMailboxes (account : Str) : (listMailboxes cfg account).Each Mints :=
  (mints_ensureAccount account).bind fun a => (mints_ensureMailbox a inbox).bind fun _ =>
    (mints_ensureDefaultMailboxes cfg account).bind fun _ => (mints_get _).bind fun _ =>
      (mints_readEntries a _).bind fun _ => (mints_get _).bind fun _ => mints_done _

theorem mints_createMailbox : (createMailbox account mailbox).Each Mints := by
  refine (mints_ensureAccount account).bind fun a => (mints_mailboxDocID a mailbox).attempt ?_
  rintro ((_ | _ | _) | _)
  · exact (mints_txn fun _ => ⟨rfl, rfl⟩).bind fun _ => Prog.Each.bind (mints_put fun _ => ⟨rfl, rfl⟩) fun _ =>
      Prog.Each.bind (mints_put fun _ => ⟨rfl, rfl⟩) fun _ => mints_done _
  · exact trivial
  · exact trivial
  · exact trivial

theorem mints_deleteMailbox : (deleteMailbox account mailbox).Each Mints := by
  refine (mints_resolve account mailbox).bind fun p => (mints_mailboxEmails p.1 p.2).bind fun emails => ?_
  refine (Prog.Each.forEach (fun e => mints_deleteEmail p.1 e.docID p.2 0 false) emails).bind fun _ => ?_
  refine (mints_txn fun kv => ?_).bind fun _ => Prog.Each.bind (mints_put fun _ => ⟨rfl, rfl⟩) fun _ =>
    mints_write fun _ => rfl
  unfold deleteMailboxDocument
  cases (kv.account p.1).mailboxes[p.2]? <;> exact ⟨rfl, rfl⟩

theorem mints_renameMailbox (account oldName newName : Str) :
    (renameMailbox account oldName newName).Each Mints := by
  refine (mints_resolve account oldName).bind fun p => (mints_mailboxDocID p.1 newName).attempt ?_
  rintro ((_ | _ | _) | _)
  · refine Prog.Each.bind (mints_put fun _ => ⟨rfl, rfl⟩) fun _ => (mints_mailboxEmails p.1 p.2).bind fun emails => ?_
    exact (Prog.Each.forEach (fun e => mints_put fun kv => registry_updateEmailsAtomically p.1 _ kv)
      emails).bind fun _ => mints_write fun _ => rfl
  · exact trivial
  · exact trivial
  · exact trivial

theorem mints_deleteAccount (account : Str) : (deleteAccount account).Each Mints := by
  refine (mints_getE _).bind fun a => (mints_get _).bind fun blobs => ?_
  refine Prog.Each.bind (mints_put fun _ => ⟨rfl, rfl⟩) fun _ => (mints_peek _).bind fun now => ?_
  have hclaim : ∀ b, (put fun kv => kv.putClaim b now).Each Mints := fun b => mints_put fun _ => ⟨rfl, rfl⟩
  refine (Prog.Each.forEach hclaim blobs).bind fun _ => ?_
  refine Prog.Each.bind ⟨fun n => .drop account rfl rfl, fun _ => mints_done _⟩ fun _ => ?_
  exact mints_write fun _ => rfl

theorem mints_mailboxModSeq : (mailboxModSeq account mailbox).Each Mints := by
  refine Prog.Each.attempt ((mints_cachedAccountID account).bind fun a =>
    (mints_cachedMailboxDocID a mailbox).bind fun mb => (mints_mailboxFields a mb).bind fun _ => mints_done _) ?_
  rintro (_ | _) <;> exact trivial

theorem mints_expungedSince (since : Nat) : (expungedSince account mailbox since).Each Mints := by
  refine (mints_resolve account mailbox).attempt ?_
  rintro ((_ | _ | _) | p)
  · exact trivial
  · exact trivial
  · exact trivial
  · exact (mints_get _).bind fun _ => mints_done _

/-- Every step of a call leaves the registry alone, registers one address or removes one. -/
theorem mints_call (call : Call) : (call.prog cfg).Each Mints := by
  have hend : ∀ {α : Type} {p : Op α} {r : α → Answer}, p.Each Mints →
      (p >>= fun v => pure (r v)).Each Mints := fun h => h.bind fun _ => mints_done _
  cases call with
  | mail op => exact hend (mints_mailOp cfg op)
  | append account mailbox msg => exact hend (mints_deliver cfg account mailbox msg)
  | createMailbox account mailbox => exact hend (mints_createMailbox account mailbox)
  | deleteMailbox account mailbox => exact hend (mints_deleteMailbox account mailbox)
  | renameMailbox account oldName newName => exact hend (mints_renameMailbox account oldName newName)
  | setSubscribed account mailbox subscribed =>
    exact hend ((mints_resolve account mailbox).bind fun p => mints_put fun _ => ⟨rfl, rfl⟩)
  | ensureDefaultMailboxes account => exact hend (mints_ensureDefaultMailboxes cfg account)
  | deleteAccount account => exact hend (mints_deleteAccount account)
  | listMailboxes account => exact hend (mints_listMailboxes cfg account)
  | mailboxStatus account mailbox =>
    refine hend ((mints_cachedAccountID account).bind fun a => (mints_cachedMailboxDocID a mailbox).bind
      fun mb => (mints_readMailboxMeta a mb mailbox).bind fun _ => (mints_mailboxEmails a mb).bind
        fun _ => mints_done _)
  | listMessages account mailbox =>
    exact hend ((mints_resolve account mailbox).bind fun p =>
      (mints_mailboxEmails p.1 p.2).bind fun _ => mints_done _)
  | messageByUID account mailbox uid =>
    exact hend ((mints_resolve account mailbox).bind fun p =>
      (mints_emailByIndexUID p.1 p.2 uid).bind fun _ => mints_done _)
  | mailboxModSeq account mailbox => exact hend (mints_mailboxModSeq account mailbox)
  | expungedSince account mailbox since => exact hend (mints_expungedSince account mailbox since)
  | openMessage account mailbox uid =>
    exact hend ((mints_resolve account mailbox).bind fun p =>
      (mints_emailByIndexUID p.1 p.2 uid).bind fun e => mints_getBlob e.blobID)

end Mailezine.Mailstore
