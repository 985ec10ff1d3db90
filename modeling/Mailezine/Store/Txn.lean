import Mailezine.Store.State
import Mathlib.Logic.Function.Basic

/-! The transactions of `internal/store`.

    Each definition is one atomic commit: the closure that `WithTxn` runs, or one `Batch`, `Put` or
    `Delete`. The account lock makes the read-modify-write closures of one account serial, so a
    transaction is a function on the whole key-value store. `now` is the clock in nanoseconds. -/

namespace Mailezine.Store
open Mailstore

/-- A committed transaction with its result, or an error and no change. -/
abbrev Txn (α : Type) := KV → KV × Except Err α

/-- `time.Now().Unix()`. -/
def unix (now : Nat) : Nat := now / 10 ^ 9

/-! ### Writes to single rows of an account -/

/-- Write field rows of a mailbox document. -/
@[simps] def Account.putMailbox (acct : Account) (id : Nat) (fields : MailboxDoc) : Account :=
  { acct with mailboxes := acct.mailboxes.insert id (((acct.mailboxes[id]?).getD {}).put fields) }

/-- Delete a mailbox document. -/
@[simps] def Account.dropMailbox (acct : Account) (id : Nat) : Account :=
  { acct with mailboxes := acct.mailboxes.erase id }

/-- Write field rows of an Email document. -/
@[simps] def Account.putEmail (acct : Account) (id : Nat) (fields : EmailDoc) : Account :=
  { acct with emails := acct.emails.insert id (((acct.emails[id]?).getD {}).put fields) }

/-- Delete an Email document. -/
@[simps] def Account.dropEmail (acct : Account) (id : Nat) : Account :=
  { acct with emails := acct.emails.erase id }

/-- Write a name-index row. -/
@[simps] def Account.putName (acct : Account) (name : Str) (id : Nat) : Account :=
  { acct with nameIdx := acct.nameIdx.insert name id }

/-- Delete a name-index row. -/
@[simps] def Account.dropName (acct : Account) (name : Str) : Account :=
  { acct with nameIdx := acct.nameIdx.erase name }

/-- Write an email-index row. -/
@[simps] def Account.putRow (acct : Account) (mb uid id : Nat) : Account :=
  { acct with emailIdx := Function.update acct.emailIdx mb ((acct.emailIdx mb).insert uid id) }

/-- Delete an email-index row. -/
@[simps] def Account.dropRow (acct : Account) (mb uid : Nat) : Account :=
  { acct with emailIdx := Function.update acct.emailIdx mb ((acct.emailIdx mb).erase uid) }

/-- Write an expunge tombstone. -/
@[simps] def Account.putTombstone (acct : Account) (mb modSeq uid : Nat) : Account :=
  { acct with
    expungeIdx := Function.update acct.expungeIdx mb ((acct.expungeIdx mb).insert (modSeq, uid) uid) }

/-- Write a blob link row. -/
@[simps] def Account.putLink (acct : Account) (blob : Str) (refs : Nat) : Account :=
  { acct with links := acct.links.insert blob refs }

/-- Delete a blob link row. -/
@[simps] def Account.dropLink (acct : Account) (blob : Str) : Account :=
  { acct with links := acct.links.erase blob }

/-- Write the quota counter. -/
@[simps] def Account.setQuota (acct : Account) (used : Int64) : Account := { acct with quota := used }

/-- Advance a mailbox's UID counter and the Email document counter. -/
@[simps] def Account.takeIDs (acct : Account) (mb uid id : Nat) : Account :=
  { acct with lastUID := Function.update acct.lastUID mb uid, lastEmail := id }

/-- Advance the mailbox document counter. -/
@[simps] def Account.takeMailboxID (acct : Account) (id : Nat) : Account :=
  { acct with lastMailbox := id }

/-- Append a change-log row under the next change ID. -/
@[simps] def Account.logChange (acct : Account) (col : Collection) (c : Change) : Account :=
  { acct with
    lastChange := acct.lastChange + 1
    log := Function.update acct.log col ((acct.log col).insert (acct.lastChange + 1) c) }

/-! ### Accounts and mailbox documents -/

/-- The registry rows of a new account. -/
@[simps] def KV.register (kv : KV) (email : Str) (nid : Nat) : KV :=
  { kv with lastAccount := kv.lastAccount + 1, registry := kv.registry.insert email nid }

/-- `CreateAccount`. -/
def createAccount (email : Str) : Txn Nat := fun kv =>
  match kv.registry[email]? with
  | some _ => (kv, .error .exists)
  | none =>
    let nid := u32 (kv.lastAccount + 1)
    (kv.register email nid, .ok nid)

/-- `AccountByEmail`. -/
def accountByEmail (email : Str) (kv : KV) : Except Err Nat :=
  match kv.registry[email]? with
  | some a => .ok a
  | none => .error .notFound

/-- The fields a new mailbox document gets; its UIDVALIDITY is its ID. -/
def newMailboxFields (name : Str) (id : Nat) : MailboxDoc :=
  { name := some name, uidValidity := some (u32 id), subscribed := some false }

/-- `EnsureMailboxDoc`: adopt what the name index has, or create the document and its index row. -/
def ensureMailboxDoc (a : Nat) (name : Str) : Txn Nat := fun kv =>
  match (kv.account a).nameIdx[name]? with
  | some id => (kv, .ok id)
  | none =>
    let id := (kv.account a).lastMailbox + 1
    (kv.modify a fun acct =>
      ((acct.takeMailboxID id).putMailbox id { newMailboxFields name id with sentinel := true }).putName
        name id, .ok id)

/-- `CreateDocument` for the mailbox collection. -/
def createMailboxDocument (a : Nat) : Txn Nat := fun kv =>
  let id := (kv.account a).lastMailbox + 1
  (kv.modify a fun acct => (acct.takeMailboxID id).putMailbox id { sentinel := true }, .ok id)

/-- `PutDocumentFields` for the mailbox collection. -/
def putMailboxFields (a id : Nat) (fields : MailboxDoc) (kv : KV) : KV :=
  kv.modify a (·.putMailbox id fields)

/-- `DeleteDocument` for the mailbox collection. -/
def deleteMailboxDocument (a id : Nat) : Txn Unit := fun kv =>
  match (kv.account a).mailboxes[id]? with
  | none => (kv, .error .notFound)
  | some _ => (kv.modify a (·.dropMailbox id), .ok ())

/-! ### Modseq and blob links -/

/-- The mailbox modseq row, 0 when absent. -/
def Account.modSeq (acct : Account) (mb : Nat) : Nat :=
  ((acct.mailboxes[mb]?).bind (·.modSeq)).getD 0

/-- `BumpMailboxModSeq`: also writes the row of a mailbox document that is gone. -/
def bumpMailboxModSeq (a mb : Nat) : Txn Nat := fun kv =>
  let m := (kv.account a).modSeq mb + 1
  (kv.modify a (·.putMailbox mb { modSeq := some m }), .ok m)

/-- A blob's link counter, 0 when the row is absent. -/
def Account.refs (acct : Account) (blob : Str) : Nat := (acct.links[blob]?).getD 0

/-- `stageBlobLink`: a first link also drops the blob's GC claim. -/
def stageBlobLink (a : Nat) (blob : Str) (kv : KV) : KV :=
  let refs := (kv.account a).refs blob
  let linked := kv.modify a (·.putLink blob (refs + 1))
  if refs = 0 then linked.deleteBlobGCClaim blob else linked

/-- `stageBlobUnlink`, with the row deletion its caller adds when there is nothing to unlink: the
    last unlink leaves a zero row and stages the GC claim. -/
def unlinkBlob (a : Nat) (blob : Str) (now : Nat) (kv : KV) : KV :=
  match (kv.account a).refs blob with
  | 0 => kv.modify a (·.dropLink blob)
  | 1 => (kv.modify a (·.putLink blob 0)).putClaim blob (unix now)
  | n + 2 => kv.modify a (·.putLink blob (n + 1))

/-! ### Email documents -/

/-- Secondary-index rows that a document transaction writes along (`extra ...Op`). -/
inductive IndexOp where
  | dropRow (mb uid : Nat)
  | putTombstone (mb modSeq uid : Nat)
  | dropName (name : Str)
  | putName (name : Str) (id : Nat)

/-- Apply one index write. -/
def Account.indexOp (acct : Account) : IndexOp → Account
  | .dropRow mb uid => acct.dropRow mb uid
  | .putTombstone mb m uid => acct.putTombstone mb m uid
  | .dropName name => acct.dropName name
  | .putName name id => acct.putName name id

/-- `DeliverRequest`. -/
structure DeliverRequest where
  mailboxID : Nat
  fields : EmailDoc
  blobID : Str
  size : Int64

/-- `DeliverResult`. -/
structure DeliverResult where
  uid : Nat
  modSeq : Nat
  docID : Nat
  deriving DecidableEq

/-- The identities `deliverOne` allocates: each is the counter's next value. -/
def Account.nextIDs (acct : Account) (mb : Nat) : DeliverResult :=
  ⟨acct.lastUID mb + 1, acct.modSeq mb + 1, acct.lastEmail + 1⟩

/-- The account rows of `deliverOne` but for the blob link. -/
def Account.deliver (acct : Account) (r : DeliverRequest) (ids : DeliverResult) : Account :=
  let full := { r.fields with sentinel := true, uid := some ids.uid, modSeq := some ids.modSeq }
  (((((acct.takeIDs r.mailboxID ids.uid ids.docID).putMailbox r.mailboxID
    { modSeq := some ids.modSeq }).putEmail ids.docID full).setQuota (acct.quota + r.size)).logChange
    .email ⟨ids.docID, .create, none⟩).putRow r.mailboxID ids.uid ids.docID

/-- `deliverOne`: counters, modseq, fields, blob link, quota, change log and index in one commit. -/
def deliverOne (a : Nat) (r : DeliverRequest) (kv : KV) : KV × DeliverResult :=
  let ids := (kv.account a).nextIDs r.mailboxID
  (stageBlobLink a r.blobID (kv.modify a (·.deliver r ids)), ids)

/-- `DeliverEmailBatch`: one commit for several messages of one account. -/
def deliverEmailBatch (a : Nat) : List DeliverRequest → KV → KV × List DeliverResult
  | [], kv => (kv, [])
  | r :: rs, kv =>
    let one := deliverOne a r kv
    let rest := deliverEmailBatch a rs one.1
    (rest.1, one.2 :: rest.2)

/-- The change-log row of a delete: a complete Email row leaves its mailbox and UID in it. -/
def deleteChange (docID : Nat) (d : EmailDoc) : Change :=
  let mailbox := d.mailbox.getD []
  let uid := u32 (d.uid.getD 0)
  ⟨docID, .delete, if mailbox ≠ [] ∧ uid ≠ 0 then some (mailbox, uid) else none⟩

/-- The quota counter after a delete, clamped at zero. -/
def refund (used size : Int64) : Int64 :=
  if size = 0 then used else if used - size < 0 then 0 else used - size

/-- The account rows of a delete but for the blob link. -/
def Account.delete (acct : Account) (docID : Nat) (d : EmailDoc) (extra : List IndexOp) : Account :=
  extra.foldl Account.indexOp
    (((acct.dropEmail docID).setQuota (refund acct.quota (d.size.getD 0))).logChange .email
      (deleteChange docID d))

/-- `DeleteEmailAtomically`; `require` is the flag that must still be set, if any. -/
def deleteEmailAtomically (a docID : Nat) (require : Option Str) (extra : List IndexOp) (now : Nat) :
    Txn Unit := fun kv =>
  match (kv.account a).emails[docID]? with
  | none => (kv, .error .notFound)
  | some d =>
    if require.any fun flag => !hasListToken (d.flags.getD []) flag then
      (kv, .error .notMarkedDeleted)
    else
      let deleted := kv.modify a (·.delete docID d extra)
      let blob := d.blob.getD []
      (if blob = [] then deleted else unlinkBlob a blob now deleted, .ok ())

/-- `UpdateDocumentAtomically` for the mailbox collection. -/
def updateMailboxAtomically (a id : Nat) (fields : MailboxDoc) (extra : List IndexOp) (kv : KV) : KV :=
  kv.modify a fun acct =>
    extra.foldl Account.indexOp ((acct.putMailbox id fields).logChange .mailbox ⟨id, .update, none⟩)

/-- One document's rows and change-log row of `UpdateDocumentsAtomically`. -/
def Account.updateEmail (acct : Account) (u : Nat × EmailDoc) : Account :=
  (acct.putEmail u.1 u.2).logChange .email ⟨u.1, .update, none⟩

/-- `UpdateDocumentsAtomically` for the Email collection: also writes rows of documents that are
    gone. -/
def updateEmailsAtomically (a : Nat) (docs : List (Nat × EmailDoc)) (kv : KV) : KV :=
  if docs = [] then kv else kv.modify a fun acct => docs.foldl Account.updateEmail acct

/-! ### The facade -/

/-- `Store`: the key-value store and the blob store behind it, with the clock they are used at. -/
structure Facade where
  kv : KV := {}
  blobs : Names Str := ∅
  now : Nat := 0

/-- Replace the key-value store. -/
@[simps] def Facade.withKV (f : Facade) (kv : KV) : Facade := { f with kv := kv }

/-- `FSBlob.Put`: a blob that is there already is not written again. -/
@[simps] def Facade.putBlob (f : Facade) (id data : Str) : Facade :=
  { f with blobs := if id ∈ f.blobs then f.blobs else f.blobs.insert id data }

/-- `FSBlob.Delete`. -/
@[simps] def Facade.deleteBlob (f : Facade) (id : Str) : Facade :=
  { f with blobs := f.blobs.erase id }

end Mailezine.Store
