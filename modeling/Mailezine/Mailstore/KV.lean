import Mailezine.Schemes.Resumption
import Mailezine.Store.Txn
import Mathlib.Data.List.Sort

/-! The mailstore of `internal/mailstore` over the store facade.

    Every operation is a program of atomic steps, one for each access to the store, the blob store or
    the process-wide ID cache, in the order of the source. A delivery's place in a micro-batch is not
    part of it: a batch commits its deliveries one after the other in one transaction. Failures of
    the stores themselves are not modelled, a missing row or blob is. -/

namespace Mailezine.Mailstore
open Gostd Schemes Store

/-- What the engine computes from message bytes, and the iteration order of `DefaultMailboxes`. -/
structure Config where
  /-- The hexadecimal SHA-256 digest. -/
  digest : Str → Str
  /-- The extended body structure in wire form, empty when it is not cached. -/
  bodyStructure : Str → Str
  defaultMailboxes : List Str
  defaults_perm : defaultMailboxes.Perm [ascii "Trash", ascii "Drafts", ascii "Sent", ascii "Junk"]

/-- The smallest configuration: bytes are their own digest and no body structure is cached. -/
def Config.plain : Config where
  digest := id
  bodyStructure := fun _ => []
  defaultMailboxes := [ascii "Trash", ascii "Drafts", ascii "Sent", ascii "Junk"]
  defaults_perm := .refl _

/-- `idCache`: account and mailbox IDs with the time they expire. -/
structure IdCache where
  account : Str → Option (Nat × Nat) := fun _ => none
  mailbox : Nat → Str → Option (Nat × Nat) := fun _ _ => none

/-- `KV`: the store facade and the ID cache of one process. -/
structure Node where
  store : Facade := {}
  ids : IdCache := {}

/-- The key-value store of a node. -/
abbrev Node.kv (n : Node) : KV := n.store.kv

/-- Replace the key-value store. -/
@[simps] def Node.withKV (n : Node) (kv : KV) : Node := { n with store := n.store.withKV kv }

@[simp] theorem Node.kv_withKV (n : Node) (kv : KV) : (n.withKV kv).kv = kv := rfl

/-- Replace the ID cache. -/
@[simps] def Node.withIds (n : Node) (ids : IdCache) : Node := { n with ids := ids }

/-- Set the clock. -/
@[simps] def Node.setClock (n : Node) (now : Nat) : Node := { n with store := { n.store with now := now } }

/-- `PutBlob`. -/
@[simps] def Node.putBlob (n : Node) (id data : Str) : Node :=
  { n with store := n.store.putBlob id data }

/-- A mailstore operation. -/
abbrev Op (α : Type) := Prog Node Err α

/-- One transaction. -/
def txn {α : Type} (t : Txn α) : Op α := .atomic fun n => (n.withKV (t n.kv).1, (t n.kv).2)

/-- One write to the key-value store. -/
def put (f : KV → KV) : Op Unit := .write fun n => n.withKV (f n.kv)

/-- One read of the node: its cache, blobs or clock. -/
def peek {α : Type} (g : Node → α) : Op α := .read fun n => .ok (g n)

/-- One read of the key-value store. -/
def get {α : Type} (g : KV → α) : Op α := .read fun n => .ok (g n.kv)

/-- One read that may fail. -/
def getE {α : Type} (g : KV → Except Err α) : Op α := .read fun n => g n.kv

/-- Fail with `ErrNotFound` when there is nothing. -/
def orNotFound {α : Type} : Option α → Op α
  | some x => pure x
  | none => .fail .notFound

/-! ### Resolving accounts and mailboxes -/

/-- `idCacheTTL`, one minute. -/
def idCacheTTL : Nat := 60 * 10 ^ 9

/-- A cache entry that has not expired. -/
def fresh (now : Nat) (entry : Option (Nat × Nat)) : Option Nat :=
  (entry.filter fun e => now < e.2).map (·.1)

/-- Memoize an account ID. -/
def Node.cacheAccount (n : Node) (email : Str) (a : Nat) : Node :=
  n.withIds { n.ids with
    account := Function.update n.ids.account email (some (a, n.store.now + idCacheTTL)) }

/-- Memoize a mailbox document ID. -/
def Node.cacheMailbox (n : Node) (a : Nat) (name : Str) (id : Nat) : Node :=
  n.withIds { n.ids with
    mailbox := Function.update n.ids.mailbox a
      (Function.update (n.ids.mailbox a) name (some (id, n.store.now + idCacheTTL))) }

/-- `cachedAccountID`. -/
def cachedAccountID (email : Str) : Op Nat := do
  match ← peek fun n => fresh n.store.now (n.ids.account email) with
  | some a => pure a
  | none =>
    let a ← getE (accountByEmail email)
    Prog.write fun n => n.cacheAccount email a
    pure a

/-- `GetDocumentFields` of a mailbox document. -/
def mailboxFields (a id : Nat) : Op MailboxDoc := do
  orNotFound (← get fun kv => (kv.account a).mailboxes[id]?)

/-- `PutRaw` of a name-index row. -/
def putNameRow (a : Nat) (name : Str) (id : Nat) : Op Unit :=
  put fun kv => kv.modify a (·.putName name id)

/-- The linear scan of `mailboxDocID`, which repairs the index row it was missing. -/
def findMailbox (a : Nat) (name : Str) : List Nat → Op Nat
  | [] => .fail .notFound
  | id :: rest => do
    let fields ← mailboxFields a id
    if fields.name.getD [] = name then
      putNameRow a name id
      pure id
    else findMailbox a name rest

/-- `ListDocumentIDs` of the mailbox collection. -/
def listMailboxIDs (a : Nat) : Op (List Nat) := get fun kv => (kv.account a).mailboxes.toList.map (·.1)

/-- `mailboxDocID`: the index row when it names the right document, else the scan. -/
def mailboxDocID (a : Nat) (name : Str) : Op Nat := do
  match ← get fun kv => (kv.account a).nameIdx[name]? with
  | some id =>
    match ← get fun kv => (kv.account a).mailboxes[id]? with
    | some fields =>
      if fields.name.getD [] = name then pure id
      else findMailbox a name (← listMailboxIDs a)
    | none => findMailbox a name (← listMailboxIDs a)
  | none => findMailbox a name (← listMailboxIDs a)

/-- `cachedMailboxDocID`. -/
def cachedMailboxDocID (a : Nat) (name : Str) : Op Nat := do
  match ← peek fun n => fresh n.store.now (n.ids.mailbox a name) with
  | some id => pure id
  | none =>
    let id ← mailboxDocID a name
    Prog.write fun n => n.cacheMailbox a name id
    pure id

/-- `ensureAccount`. -/
def ensureAccount (email : Str) : Op Nat :=
  (cachedAccountID email).attempt fun
    | .ok a => pure a
    | .error .notFound =>
      (txn (createAccount email)).attempt fun
        | .ok a => pure a
        | .error .exists => cachedAccountID email
        | .error e => .fail e
    | .error e => .fail e

/-- `ensureMailbox`. -/
def ensureMailbox (a : Nat) (name : Str) : Op Nat :=
  (cachedMailboxDocID a name).attempt fun
    | .ok id => pure id
    | .error .notFound => txn (ensureMailboxDoc a name)
    | .error e => .fail e

/-- Account and mailbox of a command: `AccountByEmail`, then `mailboxDocID`. -/
def resolve (account mailbox : Str) : Op (Nat × Nat) := do
  let a ← getE (accountByEmail account)
  let mb ← mailboxDocID a mailbox
  pure (a, mb)

/-! ### Reading messages -/

/-- `Email`: the readable form of a stored document. -/
structure Email where
  docID : Nat
  uid : Nat
  mailbox : Str
  flags : List Str
  keywords : List Str
  date : Date
  sender : Str
  size : Int64
  blobID : Str
  head : Str
  body : Str
  modSeq : Nat
  deriving DecidableEq

/-- `emailFromFields`. -/
def emailFromFields (docID : Nat) (d : EmailDoc) : Email where
  docID := docID
  uid := u32 (d.uid.getD 0)
  mailbox := d.mailbox.getD []
  flags := splitCSV (d.flags.getD [])
  keywords := splitCSV (d.keywords.getD [])
  date := d.date
  sender := d.sender.getD []
  size := d.size.getD 0
  blobID := d.blob.getD []
  head := d.header.getD []
  body := d.bodyStructure.getD []
  modSeq := d.modSeq.getD 0

/-- `messageFromEmail`: keywords are also exposed through the flags. -/
def messageFromEmail (e : Email) : Message where
  uid := e.uid
  sender := e.sender
  head := e.head
  body := e.body
  flags := e.flags ++ e.keywords
  keywords := e.keywords
  internalDate := e.date
  size := e.size
  modSeq := e.modSeq

/-- `maxSpan` of `mailboxEmails`. -/
def maxSpan : Nat := 512

/-- Cut ascending IDs into runs that reach at most `maxSpan` past their first; `run` is the current
    one, in reverse. -/
def spansFrom (first : Nat) (run : List Nat) : List Nat → List (List Nat)
  | [] => [run.reverse]
  | id :: rest =>
    if id ≤ first + maxSpan then spansFrom first (id :: run) rest
    else run.reverse :: spansFrom id [id] rest

/-- The runs of `mailboxEmails`. -/
def spans : List Nat → List (List Nat)
  | [] => []
  | id :: rest => spansFrom id [id] rest

/-- `ScanDocumentRange` of the Email collection: the documents with a sentinel, in ID order. -/
def scanDocumentRange (kv : KV) (a first last : Nat) : List (Nat × EmailDoc) :=
  (kv.account a).emails.toList.filter fun r => first ≤ r.1 && r.1 ≤ last && r.2.sentinel

/-- One range scan for each run; documents outside the run are left out. -/
def fetchSpans (a : Nat) : List (List Nat) → Rows EmailDoc → Op (Rows EmailDoc)
  | [], byID => pure byID
  | run :: rest, byID => do
    let docs ← get fun kv => scanDocumentRange kv a (run.headD 0) (run.getLastD 0)
    fetchSpans a rest ((docs.filter fun r => run.contains r.1).foldl
      (fun m r => m.insert r.1 r.2) byID)

/-- `mailboxEmails`: the index scan gives the order, the range scans the documents. -/
def mailboxEmails (a mb : Nat) : Op (List Email) := do
  let docIDs ← get fun kv => ((kv.account a).emailIdx mb).toList.map (·.2)
  let byID ← fetchSpans a (spans (docIDs.insertionSort (· ≤ ·))) ∅
  pure (docIDs.filterMap fun id => (byID[id]?).map (emailFromFields id))

/-- `ListMessages`. -/
def listMessages (account mailbox : Str) : Op (List Message) := do
  let (a, mb) ← resolve account mailbox
  let emails ← mailboxEmails a mb
  pure (emails.map messageFromEmail)

/-- `emailByIndexUID`. -/
def emailByIndexUID (a mb uid : Nat) : Op Email := do
  let docID ← orNotFound (← get fun kv => ((kv.account a).emailIdx mb)[uid]?)
  let fields ← orNotFound (← get fun kv => (kv.account a).emails[docID]?)
  pure (emailFromFields docID fields)

/-- `MessageByUID`. -/
def messageByUID (account mailbox : Str) (uid : Nat) : Op Message := do
  let (a, mb) ← resolve account mailbox
  let e ← emailByIndexUID a mb uid
  pure (messageFromEmail e)

/-- `emailDocIDs`: UID to document for one mailbox, in one scan. -/
def emailDocIDs (a mb : Nat) : Op (Rows Nat) := get fun kv => (kv.account a).emailIdx mb

/-- `GetBlob`. -/
def getBlob (id : Str) : Op Str := do
  orNotFound (← peek fun n => n.store.blobs[id]?)

/-- `OpenMessage`. -/
def openMessage (account mailbox : Str) (uid : Nat) : Op Str := do
  let (a, mb) ← resolve account mailbox
  let e ← emailByIndexUID a mb uid
  getBlob e.blobID

/-! ### Delivery -/

/-- The part of `Message` that a delivery reads. -/
structure Incoming where
  sender : Str := []
  data : Str := []
  seen : Bool := false
  flags : List Str := []
  keywords : List Str := []
  internalDate : Date := none

/-- The blob ID of message bytes. -/
def blobIDOf (cfg : Config) (data : Str) : Str := ascii "sha256-" ++ cfg.digest data

/-- The document fields of a delivery, at the time the call reads the clock. -/
def deliveryFields (cfg : Config) (mailbox : Str) (msg : Incoming) (now : Nat) : EmailDoc :=
  let split := splitFlags (normalizeFlags msg.flags msg.seen)
  { blob := some (blobIDOf cfg msg.data)
    mailbox := some mailbox
    flags := some (joinCSV split.1)
    date := some (msg.internalDate.getD (unix now))
    sender := some msg.sender
    size := some (.ofNat msg.data.length)
    keywords := some (joinCSV (split.2 ++ msg.keywords))
    header := some (headerBlock msg.data)
    bodyStructure := some (cfg.bodyStructure msg.data) }

/-- The batch entry of a delivery. -/
def deliverRequest (cfg : Config) (mb : Nat) (mailbox : Str) (msg : Incoming) (now : Nat) : DeliverRequest :=
  ⟨mb, deliveryFields cfg mailbox msg now, blobIDOf cfg msg.data, .ofNat msg.data.length⟩

/-- `Deliver`. -/
def deliver (cfg : Config) (account mailbox : Str) (msg : Incoming) : Op Nat := do
  let a ← ensureAccount account
  let mb ← ensureMailbox a mailbox
  let blobID := blobIDOf cfg msg.data
  Prog.write fun n => n.putBlob blobID msg.data
  let now ← peek fun n => n.store.now
  let r := deliverRequest cfg mb mailbox msg now
  let ids ← txn fun kv => ((deliverOne a r kv).1, .ok (deliverOne a r kv).2)
  -- the sweep may have reclaimed the blob before the link was committed
  let present ← peek fun n => decide (blobID ∈ n.store.blobs)
  if present then pure (u32 ids.uid)
  else do
    Prog.write fun n => n.putBlob blobID msg.data
    pure (u32 ids.uid)

/-- `Append`. -/
def appendMessage (cfg : Config) (account mailbox : Str) (msg : Incoming) : Op Nat :=
  deliver cfg account mailbox msg

end Mailezine.Mailstore
