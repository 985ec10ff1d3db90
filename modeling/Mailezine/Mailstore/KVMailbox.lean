import Mailezine.Mailstore.KV

/-! The mailbox operations of `internal/mailstore/kv_mailbox.go`.

    Like `Mailstore.KV`, each is the program of its accesses in source order. `Copy` and `Move` return
    their UID mapping as the list of its entries in the order they are made. -/

namespace Mailezine.Mailstore
open Gostd Schemes Store

/-! ### Mailbox metadata -/

/-- The part of `Mailbox` that `mailboxMeta` fills. -/
structure Mailbox where
  name : Str
  uidValidity : Nat
  uidNext : Nat
  subscribed : Bool
  highestModSeq : Nat
  deriving DecidableEq

/-- `uidNext`: one past the last UID given out. -/
def uidNext (a mb : Nat) : Op Nat := get fun kv => (kv.account a).lastUID mb + 1

/-- `mailboxMeta`. -/
def readMailboxMeta (a mb : Nat) (mailbox : Str) : Op Mailbox := do
  let fields ← mailboxFields a mb
  let next ← uidNext a mb
  pure ⟨mailbox, fields.uidValidity.getD 0, u32 next, fields.subscribed.getD false,
    fields.modSeq.getD 0⟩

/-- The counters that `MailboxStatus` fills from a walk over the mailbox. -/
structure Counters where
  numMessages : Nat
  size : Int64
  numUnseen : Nat
  numDeleted : Nat
  deriving DecidableEq

/-- `Email.HasFlag`: exact, unlike `HasFlag`. -/
def Email.hasFlag (e : Email) (flag : Str) : Bool := e.flags.contains flag

/-- The walk of `MailboxStatus`. -/
def countEmails (emails : List Email) : Counters where
  numMessages := emails.length
  size := (emails.map (·.size)).sum
  numUnseen := emails.countP fun e => !e.hasFlag flagSeen
  numDeleted := emails.countP (·.hasFlag flagDeleted)

/-- `MailboxStatus`. -/
def mailboxStatus (account mailbox : Str) : Op (Mailbox × Counters) := do
  let a ← cachedAccountID account
  let mb ← cachedMailboxDocID a mailbox
  let st ← readMailboxMeta a mb mailbox
  let emails ← mailboxEmails a mb
  pure (st, countEmails emails)

/-- `MailboxModSeq`: any failure is reported as unsupported. -/
def mailboxModSeq (account mailbox : Str) : Op (Option Nat) :=
  Prog.attempt (do
    let a ← cachedAccountID account
    let mb ← cachedMailboxDocID a mailbox
    let fields ← mailboxFields a mb
    pure (fields.modSeq.getD 0)) fun
    | .ok m => pure (some m)
    | .error _ => pure none

/-- The loop of `EnsureDefaultMailboxes`: each default mailbox is created and subscribed. -/
def ensureDefaults (a : Nat) : List Str → Op Unit
  | [] => pure ()
  | name :: rest => do
    let _ ← ensureMailbox a name
    let mb ← mailboxDocID a name
    let fields ← mailboxFields a mb
    if fields.subscribed.getD false then ensureDefaults a rest
    else do
      put (putMailboxFields a mb { subscribed := some true })
      ensureDefaults a rest

/-- `EnsureDefaultMailboxes`. -/
def ensureDefaultMailboxes (cfg : Config) (account : Str) : Op Unit := do
  let a ← ensureAccount account
  ensureDefaults a cfg.defaultMailboxes

/-- The name `INBOX`. -/
def inbox : Str := ascii "INBOX"

/-! ### Listing mailboxes -/

/-- One entry of `ListMailboxes`. -/
structure MailboxEntry where
  box : Mailbox
  attrs : List Str
  counts : Counters
  deriving DecidableEq

/-- `DefaultMailboxes`: the special use of a default mailbox. -/
def specialUse (name : Str) : Option Str :=
  if name ∈ [ascii "Trash", ascii "Drafts", ascii "Sent", ascii "Junk"] then some (ascii "\\" ++ name)
  else none

/-- `applyDefaultAttrs`. -/
def applyDefaultAttrs (boxes : List MailboxEntry) : List MailboxEntry :=
  boxes.map fun l =>
    match specialUse l.box.name with
    | some attr => if l.attrs.contains attr then l else { l with attrs := l.attrs ++ [attr] }
    | none => l

/-- An entry before its messages are counted. -/
def entryOf (fields : MailboxDoc) (attrs : List Str) (next : Nat) : MailboxEntry where
  box := ⟨fields.name.getD [], fields.uidValidity.getD 0, u32 next, fields.subscribed.getD false,
    fields.modSeq.getD 0⟩
  attrs := attrs
  counts := ⟨0, 0, 0, 0⟩

/-- One pass over the messages of the account; of mailboxes with one name the last is counted for. -/
def fillCounts (emails : List Email) : List MailboxEntry → List MailboxEntry
  | [] => []
  | l :: rest =>
    (if rest.any (·.box.name = l.box.name) then l
      else { l with counts := countEmails (emails.filter (·.mailbox = l.box.name)) }) ::
      fillCounts emails rest

/-- The order of a listing: INBOX, then by name. -/
def listedLe (x y : MailboxEntry) : Prop :=
  x.box.name = inbox ∨ (y.box.name ≠ inbox ∧ x.box.name ≤ y.box.name)

instance : DecidableRel listedLe := fun _ _ => inferInstanceAs (Decidable (_ ∨ _))

/-- What `ListMailboxes` makes of the mailboxes and messages of an account. -/
def mailboxList (boxes : List MailboxEntry) (emails : List Email) : List MailboxEntry :=
  applyDefaultAttrs ((fillCounts emails boxes).insertionSort listedLe)

/-- `emailsOf` for every mailbox; the counts made of it do not depend on the order. -/
def emailsOf (a : Nat) : Op (List Email) :=
  get fun kv => ((kv.account a).emails.toList.filter (·.2.sentinel)).map fun r => emailFromFields r.1 r.2

/-- The mailbox documents of a listing, read one after the other; no attributes are ever stored. -/
def readEntries (a : Nat) : List Nat → Op (List MailboxEntry)
  | [] => pure []
  | id :: rest => do
    let fields ← mailboxFields a id
    let next ← uidNext a id
    let boxes ← readEntries a rest
    pure (entryOf fields [] next :: boxes)

/-- `ListMailboxes`. -/
def listMailboxes (cfg : Config) (account : Str) : Op (List MailboxEntry) := do
  let a ← ensureAccount account
  let _ ← ensureMailbox a inbox
  ensureDefaultMailboxes cfg account
  let ids ← listMailboxIDs a
  let boxes ← readEntries a ids
  let emails ← emailsOf a
  pure (mailboxList boxes emails)

/-- `SetSubscribed`. -/
def setSubscribed (account mailbox : Str) (subscribed : Bool) : Op Unit := do
  let (a, mb) ← resolve account mailbox
  put (updateMailboxAtomically a mb { subscribed := some subscribed } [])

/-! ### Creating, deleting and renaming -/

/-- `CreateMailbox`: returns the new UIDVALIDITY. -/
def createMailbox (account mailbox : Str) : Op Nat := do
  let a ← ensureAccount account
  (mailboxDocID a mailbox).attempt fun
    | .ok _ => .fail .exists
    | .error .notFound => do
      let id ← txn (createMailboxDocument a)
      put (putMailboxFields a id (newMailboxFields mailbox id))
      putNameRow a mailbox id
      pure (u32 id)
    | .error e => .fail e

/-- The index rows that go with a document: its row, and a tombstone under a modseq. -/
def deletionRows (mb expungeModSeq : Nat) (fields : Option EmailDoc) : List IndexOp :=
  match fields.bind (·.uid) with
  | some uid => .dropRow mb uid ::
      if expungeModSeq ≠ 0 then [.putTombstone mb expungeModSeq uid] else []
  | none => []

/-- `deleteEmail`: the document is read first for the index rows that go with it. -/
def deleteEmail (a docID mb expungeModSeq : Nat) (requireDeleted : Bool) : Op Unit := do
  let fields ← get fun kv => (kv.account a).emails[docID]?
  let require := if requireDeleted then some flagDeleted else none
  Prog.atomic fun n =>
    let t := deleteEmailAtomically a docID require (deletionRows mb expungeModSeq fields)
      n.store.now n.kv
    (n.withKV t.1, t.2)

/-- `invalidateMailboxID`. -/
def Node.forgetMailbox (n : Node) (a : Nat) (name : Str) : Node :=
  n.withIds { n.ids with
    mailbox := Function.update n.ids.mailbox a (Function.update (n.ids.mailbox a) name none) }

/-- `invalidateAccountIDs`. -/
def Node.forgetAccount (n : Node) (email : Str) (a : Nat) : Node :=
  n.withIds {
    account := Function.update n.ids.account email none
    mailbox := Function.update n.ids.mailbox a fun _ => none }

/-- `DeleteMailbox`: its messages go without tombstones. -/
def deleteMailbox (account mailbox : Str) : Op Unit := do
  let (a, mb) ← resolve account mailbox
  let emails ← mailboxEmails a mb
  Prog.forEach (fun e : Email => deleteEmail a e.docID mb 0 false) emails
  txn (deleteMailboxDocument a mb)
  put fun kv => kv.modify a (·.dropName mailbox)
  Prog.write fun n => n.forgetMailbox a mailbox

/-- `RenameMailbox`: the document and the name rows in one transaction, then each message. -/
def renameMailbox (account oldName newName : Str) : Op Unit := do
  let (a, mb) ← resolve account oldName
  (mailboxDocID a newName).attempt fun
    | .ok _ => .fail .exists
    | .error .notFound => do
      put (updateMailboxAtomically a mb { name := some newName }
        [.dropName oldName, .putName newName mb])
      let emails ← mailboxEmails a mb
      Prog.forEach (fun e : Email =>
        put (updateEmailsAtomically a [(e.docID, { mailbox := some newName })])) emails
      Prog.write fun n => n.forgetMailbox a oldName
    | .error e => .fail e

/-- Drop every row stored under the account ID: documents, indexes, counters, change log, quota and
    blob links. -/
@[simps] def purgeRows (a : Nat) (kv : KV) : KV := { kv with accounts := kv.accounts.erase a }

/-- Drop the registry row of an address. -/
@[simps] def dropRegistry (email : Str) (kv : KV) : KV :=
  { kv with registry := kv.registry.erase email }

/-- `DeleteAccount`: rows, then GC claims for the blobs the account linked, then the registry row. -/
def deleteAccount (account : Str) : Op Unit := do
  let a ← getE (accountByEmail account)
  let blobs ← get fun kv => (kv.account a).links.toList.map (·.1)
  put (purgeRows a)
  let now ← peek fun n => unix n.store.now
  Prog.forEach (fun b => put fun kv => kv.putClaim b now) blobs
  put (dropRegistry account)
  Prog.write fun n => n.forgetAccount account a

/-! ### Flags -/

/-- The rows a flag update writes. -/
def flagFields (flags : List Str) (modSeq : Nat) : EmailDoc :=
  { flags := some (joinCSV (splitFlags flags).1)
    keywords := some (joinCSV (splitFlags flags).2)
    modSeq := some modSeq }

/-- `SetFlags`. -/
def setFlags (account mailbox : Str) (uid : Nat) (flags : List Str) : Op Unit := do
  let (a, mb) ← resolve account mailbox
  let e ← emailByIndexUID a mb uid
  let m ← txn (bumpMailboxModSeq a mb)
  put (updateEmailsAtomically a [(e.docID, flagFields flags m)])

/-- The changes of a flag batch: UIDs that are gone are skipped. -/
def flagChanges (docs : Rows Nat) (m : Nat) (updates : List FlagUpdate) : List (Nat × EmailDoc) :=
  updates.filterMap fun u => (docs[u.uid]?).map fun id => (id, flagFields u.flags m)

/-- `SetFlagsBatch`. -/
def setFlagsBatch (account mailbox : Str) (updates : List FlagUpdate) : Op Unit :=
  if updates = [] then pure ()
  else do
    let (a, mb) ← resolve account mailbox
    let docs ← emailDocIDs a mb
    let m ← txn (bumpMailboxModSeq a mb)
    put (updateEmailsAtomically a (flagChanges docs m updates))

/-! ### Expunge -/

/-- The deletion loop: a message that is no longer marked stays, one that is already gone counts. -/
def expungeEach (a mb m : Nat) (requireDeleted : Bool) : List Email → Op (List Nat)
  | [] => pure []
  | e :: rest =>
    (deleteEmail a e.docID mb m requireDeleted).attempt fun
      | .error .notMarkedDeleted => expungeEach a mb m requireDeleted rest
      | .error .notFound => do
        let deleted ← expungeEach a mb m requireDeleted rest
        pure (e.uid :: deleted)
      | .error err => .fail err
      | .ok () => do
        let deleted ← expungeEach a mb m requireDeleted rest
        pure (e.uid :: deleted)

/-- The deletion set of `expungeUIDs`: an empty UID list is no filter. -/
def expungeTargets (uids : List Nat) (requireDeleted : Bool) (emails : List Email) : List Email :=
  emails.filter fun e =>
    if uids ≠ [] then uids.contains e.uid else !requireDeleted || e.hasFlag flagDeleted

/-- `expungeUIDs`. -/
def expungeUIDs (account mailbox : Str) (uids : List Nat) (requireDeleted : Bool) : Op (List Nat) := do
  let (a, mb) ← resolve account mailbox
  let emails ← mailboxEmails a mb
  let targets := expungeTargets uids requireDeleted emails
  if targets = [] then pure []
  else do
    let m ← txn (bumpMailboxModSeq a mb)
    expungeEach a mb m requireDeleted targets

/-- `Expunge`. -/
def expunge (account mailbox : Str) (uids : List Nat) : Op (List Nat) :=
  expungeUIDs account mailbox uids true

/-- `DeleteUIDs`. -/
def deleteUIDs (account mailbox : Str) (uids : List Nat) : Op (List Nat) :=
  expungeUIDs account mailbox uids false

/-- The tombstones of a mailbox above a modseq, in key order. -/
def tombstonesSince (acct : Account) (mb since : Nat) : List Nat :=
  ((acct.expungeIdx mb).toList.filter fun r => since < r.1.1).map fun r => u32 r.2

/-- `ExpungedSince`. -/
def expungedSince (account mailbox : Str) (since : Nat) : Op (List Nat) :=
  (resolve account mailbox).attempt fun
    | .error .notFound => pure []
    | .error e => .fail e
    | .ok (a, mb) => do
      let uids ← get fun kv => tombstonesSince (kv.account a) mb since
      pure (uids.insertionSort (· ≤ ·))

/-! ### Copy and move -/

/-- The UID filter of `Copy` and `Move`: an empty list is no filter. -/
def selectUIDs (uids : List Nat) (emails : List Email) : List Email :=
  emails.filter fun e => uids = [] || uids.contains e.uid

/-- What a copy delivers: the source document and its blob. -/
def copyOf (e : Email) (data : Str) : Incoming :=
  { sender := e.sender, data := data, flags := e.flags, keywords := e.keywords,
    internalDate := e.date }

/-- The loop of `Copy`. -/
def copyEach (cfg : Config) (account dst : Str) : List Email → Op (List (Nat × Nat))
  | [] => pure []
  | e :: rest => do
    let data ← getBlob e.blobID
    let uid ← deliver cfg account dst (copyOf e data)
    let mapping ← copyEach cfg account dst rest
    pure ((e.uid, uid) :: mapping)

/-- `Copy`. -/
def copy (cfg : Config) (account src dst : Str) (uids : List Nat) : Op (List (Nat × Nat)) := do
  let (a, mb) ← resolve account src
  let emails ← mailboxEmails a mb
  copyEach cfg account dst (selectUIDs uids emails)

/-- The loop of `Move`: deliver the copy, then delete the source. -/
def moveEach (cfg : Config) (account dst : Str) (a mb m : Nat) : List Email → Op (List (Nat × Nat))
  | [] => pure []
  | e :: rest => do
    let data ← getBlob e.blobID
    let uid ← deliver cfg account dst (copyOf e data)
    deleteEmail a e.docID mb m false
    let mapping ← moveEach cfg account dst a mb m rest
    pure ((e.uid, uid) :: mapping)

/-- `Move`: the source modseq is bumped first, but only for a non-empty UID list; without it the
    moved messages leave no tombstones. -/
def move (cfg : Config) (account src dst : Str) (uids : List Nat) : Op (List (Nat × Nat)) := do
  let (a, mb) ← resolve account src
  let emails ← mailboxEmails a mb
  if uids = [] then moveEach cfg account dst a mb 0 emails
  else do
    let m ← txn (bumpMailboxModSeq a mb)
    moveEach cfg account dst a mb m (selectUIDs uids emails)

end Mailezine.Mailstore
