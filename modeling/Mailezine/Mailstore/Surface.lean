import Mailezine.Mailstore.KVMailbox
import Mailezine.Schemes.Hoare
import Mailezine.Store.Bytes

/-! The reads of the mailstore on the byte store, one complete operation at a time.

    Every read resolves its account first and then goes by the account's ID: the keys it gets and
    scans, and the rows it provisions or repairs on the way, are keys of that ID. So it answers alike
    in any two engines that agree on those keys (`Same`), whatever else is in them. -/

namespace Mailezine.Mailstore.Bytes
open Gostd Schemes Store Store.Bytes List

/-- What reads need besides the store: the configuration and the RFC 3339 parser. -/
structure Env extends Config where
  parseDate : Str → Date

/-- One process on one store: the byte store, the blobs, the ID cache and the clock. -/
structure Engine where
  raw : Raw := ∅
  blobs : Names Str := ∅
  ids : IdCache := {}
  now : Nat := 0

/-- A complete operation. -/
abbrev MailOp := StateT Engine (Except RawErr)

/-- One read of the byte store. -/
def read {α : Type} (f : Raw → Except RawErr α) : RawTxn α := fun raw => (f raw).map (·, raw)

/-- One access to the byte store. -/
def onRaw {α : Type} (m : RawTxn α) : MailOp α :=
  fun e => (m e.raw).map fun r => (r.1, { e with raw := r.2 })

/-- One read of the engine: its cache or its blobs. -/
def look {α : Type} (f : Engine → α) : MailOp α := fun e => .ok (f e, e)

/-- Fail with `ErrNotFound` when there is nothing. -/
def orNotFound {α : Type} : Option α → MailOp α
  | some x => pure x
  | none => throw .notFound

/-! ### Documents -/

/-- Mailbox document fields. -/
def mbFieldName : UInt8 := 1
def mbFieldUIDValidity : UInt8 := 2
def mbFieldSubscribed : UInt8 := 3
def mbFieldAttrs : UInt8 := 4
def mbFieldACL : UInt8 := 5

/-- The Email document fields that only reads use. -/
def emailFieldDate : UInt8 := 5
def emailFieldFrom : UInt8 := 6
def emailFieldKeywords : UInt8 := 8
def emailFieldHeader : UInt8 := 10
def emailFieldBodyStructureExt : UInt8 := 12

/-- Sieve script document fields. -/
def scriptFieldName : UInt8 := 1
def scriptFieldActive : UInt8 := 2
def scriptFieldContent : UInt8 := 3

/-- The field values of a document. -/
abbrev Doc := UInt8 → Option Str

/-- A number of so many bytes. -/
def decodeNumber (width : Nat) (v : Option Str) : Option Nat := (v.filter (·.length = width)).map unbe

/-- The columns of a mailbox document. -/
def decodeMailbox (d : Doc) : MailboxDoc where
  sentinel := (d fieldMeta).isSome
  name := d mbFieldName
  uidValidity := decodeNumber 4 (d mbFieldUIDValidity)
  subscribed := (d mbFieldSubscribed).map (· = [1])
  modSeq := decodeNumber 8 (d fieldMailboxModSeq)

/-- The columns of an Email document. -/
def decodeEmail (env : Env) (d : Doc) : EmailDoc where
  sentinel := (d fieldMeta).isSome
  blob := d emailFieldBlob
  uid := decodeNumber 8 (d emailFieldUID)
  mailbox := d emailFieldMailbox
  flags := d emailFieldFlags
  date := env.parseDate ((d emailFieldDate).getD [])
  sender := d emailFieldFrom
  size := (decodeNumber 8 (d emailFieldSize)).map .ofNat
  keywords := d emailFieldKeywords
  modSeq := decodeNumber 8 (d emailFieldModSeq)
  header := d emailFieldHeader
  bodyStructure := d emailFieldBodyStructureExt

/-- `GetDocumentFields`. -/
def getDocumentFields (raw : Raw) (a : UInt32) (collection : UInt8) (id : UInt64) : Option Doc :=
  match raw.scan (documentKey a collection id) with
  | [] => none
  | r :: rows => some (fieldOf (r :: rows))

/-- `DocumentIDFromFieldKey`. -/
def documentIDFromFieldKey (k : Str) : UInt64 := UInt64.ofNat (unbe ((k.drop 6).take 8))

/-- `ListDocumentIDs`. -/
def listDocumentIDs (raw : Raw) (a : UInt32) (collection : UInt8) : Except RawErr (List UInt64) :=
  let keys := (raw.scan (collectionKey a collection)).map (·.1)
  if keys.any fun k => k.length < 15 then .error .corrupt
  else .ok ((keys.map documentIDFromFieldKey).dedup.insertionSort (· ≤ ·))

/-- The documents of a collection. -/
def documents (raw : Raw) (a : UInt32) (collection : UInt8) : Except RawErr (List (UInt64 × Doc)) :=
  (listDocumentIDs raw a collection).map fun ids =>
    ids.filterMap fun id => (getDocumentFields raw a collection id).map (id, ·)

/-! ### Resolving accounts -/

/-- `AccountByEmail`. -/
def accountByEmail (raw : Raw) (email : Str) : Except RawErr UInt32 :=
  match raw[metaEmailKey email]? with
  | none => .error .notFound
  | some v => if v.length = 4 then .ok (.ofNat (unbe v)) else .error .corrupt

/-- `CreateAccount`. -/
def createAccount (email : Str) : RawTxn UInt32 := do
  match ← getRow (metaEmailKey email) with
  | some _ => throw .exists
  | none =>
    let next ← readCounter metaNextAccountKey
    let nid := (next + 1).toUInt32
    append [(metaNextAccountKey, some (beUint64 (next + 1))), (accountKey nid, some email),
      (metaEmailKey email, some (beUint32 nid))]
    pure nid

/-- Memoize an account ID. -/
def Engine.cacheAccount (e : Engine) (email : Str) (a : UInt32) : Engine :=
  { e with ids := { e.ids with
      account := Function.update e.ids.account email (some (a.toNat, e.now + idCacheTTL)) } }

/-- Memoize a mailbox document ID. -/
def Engine.cacheMailbox (e : Engine) (a : UInt32) (name : Str) (id : UInt64) : Engine :=
  { e with ids := { e.ids with
      mailbox := Function.update e.ids.mailbox a.toNat
        (Function.update (e.ids.mailbox a.toNat) name (some (id.toNat, e.now + idCacheTTL))) } }

/-- `AccountByEmail` for callers that handle a missing account. -/
def findAccount (email : Str) : MailOp (Option UInt32) := fun e =>
  match accountByEmail e.raw email with
  | .ok a => .ok (some a, e)
  | .error .notFound => .ok (none, e)
  | .error err => .error err

/-- `cachedAccountID`; none stands for `ErrNotFound`. -/
def cachedAccountID (email : Str) : MailOp (Option UInt32) := fun e =>
  match fresh e.now (e.ids.account email) with
  | some a => .ok (some (.ofNat a), e)
  | none =>
    match accountByEmail e.raw email with
    | .ok a => .ok (some a, e.cacheAccount email a)
    | .error .notFound => .ok (none, e)
    | .error err => .error err

/-- `ensureAccount`; no other creator can come in between. -/
def ensureAccount (email : Str) : MailOp UInt32 := do
  match ← cachedAccountID email with
  | some a => pure a
  | none => onRaw (createAccount email)

/-! ### Resolving mailboxes -/

/-- The document that the name index names, when it has that name. -/
def indexedMailbox (raw : Raw) (a : UInt32) (name : Str) : Option UInt64 :=
  ((decodeNumber 8 raw[indexMailboxNameKey a name]?).map UInt64.ofNat).filter fun id =>
    match getDocumentFields raw a collectionMailbox id with
    | some d => (d mbFieldName).getD [] = name
    | none => false

/-- The linear scan of `mailboxDocID`. -/
def scannedMailbox (raw : Raw) (a : UInt32) (name : Str) : Except RawErr (Option UInt64) :=
  (documents raw a collectionMailbox).map fun docs =>
    (docs.find? fun d => (d.2 mbFieldName).getD [] = name).map (·.1)

/-- `mailboxDocID`; none stands for `ErrNotFound`. -/
def mailboxDocID (a : UInt32) (name : Str) : RawTxn (Option UInt64) := do
  match ← read fun raw => .ok (indexedMailbox raw a name) with
  | some id => pure (some id)
  | none =>
    match ← read fun raw => scannedMailbox raw a name with
    | some id =>
      putRow (indexMailboxNameKey a name) (beUint64 id)
      pure (some id)
    | none => pure none

/-- `cachedMailboxDocID`; none stands for `ErrNotFound`. -/
def cachedMailboxDocID (a : UInt32) (name : Str) : MailOp (Option UInt64) := do
  match ← look fun e => fresh e.now (e.ids.mailbox a.toNat name) with
  | some id => pure (some (.ofNat id))
  | none =>
    match ← onRaw (mailboxDocID a name) with
    | some id =>
      modify (·.cacheMailbox a name id)
      pure (some id)
    | none => pure none

/-- The fields of a new mailbox. -/
def newMailboxFields (name : Str) (docID : UInt64) : Fields :=
  [(mbFieldName, name), (mbFieldUIDValidity, beUint32 docID.toUInt32), (mbFieldSubscribed, [0])]

/-- `EnsureMailboxDoc`. -/
def ensureMailboxDoc (a : UInt32) (name : Str) : RawTxn UInt64 := do
  match ← getRow (indexMailboxNameKey a name) with
  | some v => if v.length = 8 then pure (.ofNat (unbe v)) else throw .corrupt
  | none =>
    let counter := counterKey a counterKindNextDoc [collectionMailbox]
    let docID := (← readCounter counter) + 1
    append ((counter, some (beUint64 docID)) ::
      (fieldKey a collectionMailbox docID fieldMeta, some [1]) ::
      (indexMailboxNameKey a name, some (beUint64 docID)) ::
      orderedFieldOps a collectionMailbox docID (newMailboxFields name docID))
    pure docID

/-- `ensureMailbox`. -/
def ensureMailbox (a : UInt32) (name : Str) : MailOp UInt64 := do
  match ← cachedMailboxDocID a name with
  | some id => pure id
  | none => onRaw (ensureMailboxDoc a name)

/-! ### Mailboxes -/

/-- `uidNext`. -/
def uidNext (raw : Raw) (a : UInt32) (mb : UInt64) : Except RawErr Nat :=
  (decodeCounter raw[counterKey a counterKindNextDoc (collectionEmail :: beUint64 mb)]?).map
    fun n => (n + 1).toNat

/-- The loop of `EnsureDefaultMailboxes`. -/
def ensureDefaults (a : UInt32) : List Str → MailOp Unit
  | [] => pure ()
  | name :: rest => do
    let _ ← ensureMailbox a name
    let mb ← orNotFound (← onRaw (mailboxDocID a name))
    let fields ← orNotFound (← onRaw (read fun raw => .ok (getDocumentFields raw a collectionMailbox mb)))
    onRaw (ifSo (fields mbFieldSubscribed ≠ some [1])
      (append (orderedFieldOps a collectionMailbox mb [(mbFieldSubscribed, [1])])))
    ensureDefaults a rest

/-- `EnsureDefaultMailboxes`. -/
def ensureDefaultMailboxes (env : Env) (account : Str) : MailOp Unit := do
  let a ← ensureAccount account
  ensureDefaults a env.defaultMailboxes

/-- `emailsOf` for every mailbox; the counts made of it do not depend on the order. -/
def emailsOf (env : Env) (raw : Raw) (a : UInt32) : Except RawErr (List Email) :=
  (documents raw a collectionEmail).map fun docs =>
    (docs.filter fun d => (d.2 fieldMeta).isSome).map fun d =>
      emailFromFields d.1.toNat (decodeEmail env d.2)

/-- The reads of `ListMailboxes`. -/
def readMailboxes (env : Env) (a : UInt32) (raw : Raw) : Except RawErr (List MailboxEntry) := do
  let docs ← documents raw a collectionMailbox
  let boxes ← docs.mapM fun d => (uidNext raw a d.1).map fun next =>
    entryOf (decodeMailbox d.2) (splitCSV ((d.2 mbFieldAttrs).getD [])) next
  let emails ← emailsOf env raw a
  pure (mailboxList boxes emails)

/-- `ListMailboxes` once its account is there. -/
def listMailboxesIn (env : Env) (account : Str) (a : UInt32) : MailOp (List MailboxEntry) := do
  let _ ← ensureMailbox a inbox
  ensureDefaultMailboxes env account
  onRaw (read (readMailboxes env a))

/-- `ListMailboxes`. -/
def listMailboxes (env : Env) (account : Str) : MailOp (List MailboxEntry) := do
  let a ← ensureAccount account
  listMailboxesIn env account a

/-- The documents that `mailboxEmails` lists; it reads them in spans, here each is read by its ID. -/
def mailboxEmails (env : Env) (a : UInt32) (mb : UInt64) (raw : Raw) : List Email :=
  (raw.scan (indexEmailPrefix a mb)).filterMap fun r => do
    let id ← decodeNumber 8 (some r.2)
    let d ← getDocumentFields raw a collectionEmail (.ofNat id)
    if (d fieldMeta).isSome then some (emailFromFields id (decodeEmail env d)) else none

/-- `mailboxMeta`: the mailbox document and its UID counter. -/
def readMeta (a : UInt32) (mb : UInt64) (mailbox : Str) (raw : Raw) : Except RawErr Mailbox := do
  match getDocumentFields raw a collectionMailbox mb with
  | none => throw .notFound
  | some d =>
    let next ← uidNext raw a mb
    pure { (entryOf (decodeMailbox d) [] next).box with name := mailbox }

/-- `MailboxMeta`. -/
def mailboxMeta (account mailbox : Str) : MailOp Mailbox := do
  let a ← orNotFound (← cachedAccountID account)
  let mb ← orNotFound (← cachedMailboxDocID a mailbox)
  onRaw (read (readMeta a mb mailbox))

/-- An error counts as nothing found. -/
def orNone {α : Type} (m : MailOp (Option α)) : MailOp (Option α) := fun e =>
  match m e with
  | .ok r => .ok r
  | .error _ => .ok (none, e)

/-- `MailboxModSeq`. -/
def mailboxModSeq (account mailbox : Str) : MailOp (Option Nat) := do
  match ← orNone (cachedAccountID account) with
  | none => pure none
  | some a =>
    match ← orNone (cachedMailboxDocID a mailbox) with
    | none => pure none
    | some mb => onRaw (read fun raw => .ok ((getDocumentFields raw a collectionMailbox mb).map fun d =>
        (decodeMailbox d).modSeq.getD 0))

/-- The reads of `MailboxStatus`. -/
def readStatus (env : Env) (a : UInt32) (mb : UInt64) (mailbox : Str) (raw : Raw) :
    Except RawErr (Mailbox × Counters) := do
  let box ← readMeta a mb mailbox raw
  pure (box, countEmails (mailboxEmails env a mb raw))

/-- `MailboxStatus`. -/
def mailboxStatus (env : Env) (account mailbox : Str) : MailOp (Mailbox × Counters) := do
  let a ← orNotFound (← cachedAccountID account)
  let mb ← orNotFound (← cachedMailboxDocID a mailbox)
  onRaw (read (readStatus env a mb mailbox))

/-- `aclDoc` once its account is there. -/
def aclDoc (a : UInt32) (mailbox : Str) : MailOp UInt64 :=
  if mailbox = inbox then ensureMailbox a inbox
  else do
    let mb ← onRaw (mailboxDocID a mailbox)
    orNotFound mb

/-- The reads of `GetACL`: the stored list as its bytes. -/
def readACL (a : UInt32) (mailbox : Str) : MailOp Str := do
  let mb ← aclDoc a mailbox
  let fields ← orNotFound (← onRaw (read fun raw => .ok (getDocumentFields raw a collectionMailbox mb)))
  pure ((fields mbFieldACL).getD [])

/-- `GetACL`. -/
def getACL (account mailbox : Str) : MailOp Str := do
  let a ← ensureAccount account
  readACL a mailbox

/-! ### Messages -/

/-- Account and mailbox of a command. -/
def resolve (account mailbox : Str) : MailOp (UInt32 × UInt64) := do
  let a ← orNotFound (← findAccount account)
  let mb ← orNotFound (← onRaw (mailboxDocID a mailbox))
  pure (a, mb)

/-- `ListMessages`. -/
def listMessages (env : Env) (account mailbox : Str) : MailOp (List Message) := do
  let r ← resolve account mailbox
  onRaw (read fun raw => .ok ((mailboxEmails env r.1 r.2 raw).map messageFromEmail))

/-- `emailByIndexUID`. -/
def emailByIndexUID (env : Env) (a : UInt32) (mb : UInt64) (uid : UInt32) (raw : Raw) : Option Email := do
  let id ← decodeNumber 8 raw[indexEmailKey a mb uid.toUInt64]?
  let d ← getDocumentFields raw a collectionEmail (.ofNat id)
  pure (emailFromFields id (decodeEmail env d))

/-- `EmailByUID`. -/
def emailByUID (env : Env) (account mailbox : Str) (uid : UInt32) : MailOp Email := do
  let r ← resolve account mailbox
  orNotFound (← onRaw (read fun raw => .ok (emailByIndexUID env r.1 r.2 uid raw)))

/-- `MessageByUID`. -/
def messageByUID (env : Env) (account mailbox : Str) (uid : UInt32) : MailOp Message := do
  let e ← emailByUID env account mailbox uid
  pure (messageFromEmail e)

/-- `OpenMessage`. -/
def openMessage (env : Env) (account mailbox : Str) (uid : UInt32) : MailOp Str := do
  let e ← emailByUID env account mailbox uid
  orNotFound (← look fun engine => engine.blobs[e.blobID]?)

/-- The scan of `ExpungedSince`, in UID order. -/
def tombstonesSince (a : UInt32) (mb since : UInt64) (raw : Raw) : List UInt32 :=
  ((raw.scanRange (indexExpungePrefix a mb ++ beUint64 (since + 1))
    (some (indexExpungePrefix a mb ++ List.replicate 8 0xff))).filterMap fun r =>
      (decodeNumber 8 (some r.2)).map fun uid => (UInt64.ofNat uid).toUInt32).insertionSort (· ≤ ·)

/-- `ExpungedSince`: a missing account or mailbox has no tombstones. -/
def expungedSince (account mailbox : Str) (since : UInt64) : MailOp (List UInt32) := do
  match ← findAccount account with
  | none => pure []
  | some a =>
    match ← onRaw (mailboxDocID a mailbox) with
    | none => pure []
    | some mb => onRaw (read fun raw => .ok (tombstonesSince a mb since raw))

/-! ### Quota, scripts, changes and vacation records -/

/-- `QuotaUsedBytes`. -/
def quotaUsedBytes (account : Str) : MailOp Int64 := do
  match ← findAccount account with
  | none => pure 0
  | some a => onRaw (quotaValue (quotaKey a))

/-- `ListSieveScripts`. -/
def listSieveScripts (account : Str) : MailOp (List (Str × Bool)) := do
  match ← findAccount account with
  | none => pure []
  | some a =>
    let docs ← onRaw (read fun raw => documents raw a collectionSieveScript)
    pure (docs.map fun d => ((d.2 scriptFieldName).getD [], decide (d.2 scriptFieldActive = some [1])))

/-- `GetSieveScript`. -/
def getSieveScript (account name : Str) : MailOp Str := do
  let a ← orNotFound (← findAccount account)
  let docs ← onRaw (read fun raw => documents raw a collectionSieveScript)
  let d ← orNotFound (docs.find? fun d => (d.2 scriptFieldName).getD [] = name)
  pure ((d.2 scriptFieldContent).getD [])

/-- `ChangesSince` for the account of an address. -/
def accountChanges (account : Str) (collection : UInt8) (after : UInt64) : MailOp (List Bytes.Change) := do
  let a ← orNotFound (← findAccount account)
  onRaw (read fun raw => .ok (changesSince raw a collection after))

/-- `VacationLastSent` in nanoseconds, none when no reply was sent; the key has the address in it, not
    an account ID. -/
def vacationLastSent (raw : Raw) (account sender : Str) : Option Nat :=
  decodeNumber 8 raw[metaVacationKey account sender]?

/-- The reads of the mailstore surface. -/
inductive Read where
  | listMailboxes
  | mailboxStatus (mailbox : Str)
  | mailboxMeta (mailbox : Str)
  | mailboxModSeq (mailbox : Str)
  | getACL (mailbox : Str)
  | listMessages (mailbox : Str)
  | messageByUID (mailbox : Str) (uid : UInt32)
  | emailByUID (mailbox : Str) (uid : UInt32)
  | openMessage (mailbox : Str) (uid : UInt32)
  | expungedSince (mailbox : Str) (since : UInt64)
  | quotaUsedBytes
  | listSieveScripts
  | getSieveScript (name : Str)
  | changesSince (collection : UInt8) (after : UInt64)
  | vacationLastSent (sender : Str)

/-- What a read returns. -/
def Read.Result : Read → Type
  | .listMailboxes => List MailboxEntry
  | .mailboxStatus _ => Mailbox × Counters
  | .mailboxMeta _ => Mailbox
  | .mailboxModSeq _ => Option Nat
  | .getACL _ => Str
  | .listMessages _ => List Message
  | .messageByUID _ _ => Message
  | .emailByUID _ _ => Email
  | .openMessage _ _ => Str
  | .expungedSince _ _ => List UInt32
  | .quotaUsedBytes => Int64
  | .listSieveScripts => List (Str × Bool)
  | .getSieveScript _ => Str
  | .changesSince _ _ => List Bytes.Change
  | .vacationLastSent _ => Option Nat

/-- A read of an account. -/
def Read.perform (env : Env) (account : Str) : (r : Read) → MailOp r.Result
  | .listMailboxes => Bytes.listMailboxes env account
  | .mailboxStatus mailbox => Bytes.mailboxStatus env account mailbox
  | .mailboxMeta mailbox => Bytes.mailboxMeta account mailbox
  | .mailboxModSeq mailbox => Bytes.mailboxModSeq account mailbox
  | .getACL mailbox => Bytes.getACL account mailbox
  | .listMessages mailbox => Bytes.listMessages env account mailbox
  | .messageByUID mailbox uid => Bytes.messageByUID env account mailbox uid
  | .emailByUID mailbox uid => Bytes.emailByUID env account mailbox uid
  | .openMessage mailbox uid => Bytes.openMessage env account mailbox uid
  | .expungedSince mailbox since => Bytes.expungedSince account mailbox since
  | .quotaUsedBytes => Bytes.quotaUsedBytes account
  | .listSieveScripts => Bytes.listSieveScripts account
  | .getSieveScript name => Bytes.getSieveScript account name
  | .changesSince collection after => accountChanges account collection after
  | .vacationLastSent sender => onRaw (read fun raw => .ok (Bytes.vacationLastSent raw account sender))

/-- What a read of an account answers in an engine. -/
def Engine.answer (e : Engine) (env : Env) (account : Str) (r : Read) : Except RawErr r.Result :=
  (r.perform env account e).map (·.1)

/-! ### The keys of an account -/

/-- The spaces whose keys start with an account ID. -/
def accountSpaces : List UInt8 :=
  [spaceAccount, spaceIndex, spaceDocument, spaceLog, spaceBlobLink, spaceQuota]

/-- A key of an account, its record apart. -/
def Owned (a : UInt32) (k : Str) : Prop :=
  ∃ s ∈ accountSpaces, ∃ t, (s = spaceAccount → t ≠ []) ∧ k = spaceID s a ++ t

theorem owned_space {s : UInt8} (hs : s ∈ accountSpaces) (hne : s ≠ spaceAccount) (a : UInt32) (t : Str) :
    Owned a (spaceID s a ++ t) := ⟨s, hs, t, fun h => absurd h hne, rfl⟩

variable (a : UInt32)

theorem owned_index (t : Str) : Owned a (spaceID spaceIndex a ++ t) :=
  owned_space (by decide) (by decide) a t

theorem owned_document (c : UInt8) (t : Str) : Owned a (collectionKey a c ++ t) := by
  rw [collectionKey, append_assoc]
  exact owned_space (by decide) (by decide) a _

theorem owned_changeLog (c : UInt8) (t : Str) : Owned a (changeLogPrefix a c ++ t) := by
  rw [changeLogPrefix, append_assoc]
  exact owned_space (by decide) (by decide) a _

theorem owned_field (c : UInt8) (id : UInt64) (f : UInt8) : Owned a (fieldKey a c id f) := by
  rw [fieldKey, documentKey, append_assoc]
  exact owned_document a c _

theorem owned_counter (kind : UInt8) (sub : Str) : Owned a (counterKey a kind sub) :=
  ⟨spaceAccount, by decide, kind :: sub, fun _ => by simp, rfl⟩

theorem owned_quota : Owned a (quotaKey a) :=
  ⟨spaceQuota, by decide, [], by decide, (append_nil _).symm⟩

variable {k : Str} {e' : Engine}

theorem Owned.head_mem {a : UInt32} (h : Owned a k) : ∃ s t, s ∈ accountSpaces ∧ k = s :: t := by
  obtain ⟨s, hs, t, -, rfl⟩ := h
  exact ⟨s, _, hs, rfl⟩

theorem Owned.ne_meta {a : UInt32} {t : Str} (h : Owned a k) : k ≠ spaceMeta :: t := by
  obtain ⟨s, u, hs, rfl⟩ := h.head_mem
  intro he
  rw [(cons.inj he).1] at hs
  exact absurd hs (by decide)

/-- Accounts do not share keys. -/
theorem Owned.id_eq {a b : UInt32} (ha : Owned a k) (hb : Owned b k) : a = b := by
  obtain ⟨s, -, t, -, rfl⟩ := ha
  obtain ⟨s', -, t', -, h⟩ := hb
  exact (spaceID_append_inj h).2.1

/-- Two stores with the same rows under an account. -/
def SameKeys (a : UInt32) (raw raw' : Raw) : Prop := ∀ k, Owned a k → raw[k]? = raw'[k]?

section SameKeys
variable {a : UInt32} {raw raw' : Raw}

section
variable (h : SameKeys a raw raw')
include h

theorem SameKeys.scan {p : Str} (hp : ∀ t, Owned a (p ++ t)) :
    raw.scan p = raw'.scan p :=
  Raw.scan_congr fun t => h _ (hp t)

theorem SameKeys.getDocumentFields :
    getDocumentFields raw a = getDocumentFields raw' a := by
  funext c id
  have hscan : raw.scan (documentKey a c id) = raw'.scan (documentKey a c id) := h.scan fun t => by
    rw [documentKey, append_assoc]
    exact owned_document a c _
  unfold Bytes.getDocumentFields
  rw [hscan]

theorem SameKeys.documents : documents raw a = documents raw' a := by
  funext c
  unfold Bytes.documents listDocumentIDs
  rw [h.scan (owned_document a c), h.getDocumentFields]

theorem SameKeys.uidNext : uidNext raw a = uidNext raw' a := by
  funext mb
  unfold Bytes.uidNext
  rw [h _ (owned_counter ..)]

theorem SameKeys.emailsOf (env : Env) : emailsOf env raw a = emailsOf env raw' a := by
  unfold Bytes.emailsOf
  rw [h.documents]

theorem SameKeys.readMailboxes (env : Env) :
    readMailboxes env a raw = readMailboxes env a raw' := by
  unfold Bytes.readMailboxes
  rw [h.documents, h.uidNext, h.emailsOf env]

theorem SameKeys.mailboxEmails (env : Env) (mb : UInt64) :
    mailboxEmails env a mb raw = mailboxEmails env a mb raw' := by
  have hscan : raw.scan (indexEmailPrefix a mb) = raw'.scan (indexEmailPrefix a mb) := h.scan fun t => by
    rw [indexEmailPrefix, append_assoc]
    exact owned_index a _
  unfold Bytes.mailboxEmails
  rw [hscan, h.getDocumentFields]

theorem SameKeys.readMeta (mb : UInt64) (mailbox : Str) :
    readMeta a mb mailbox raw = readMeta a mb mailbox raw' := by
  unfold Bytes.readMeta
  rw [h.getDocumentFields, h.uidNext]

theorem SameKeys.readStatus (env : Env) (mb : UInt64) (mailbox : Str) :
    readStatus env a mb mailbox raw = readStatus env a mb mailbox raw' := by
  unfold Bytes.readStatus
  rw [h.readMeta, h.mailboxEmails]

theorem SameKeys.emailByIndexUID (env : Env) (mb : UInt64) (uid : UInt32) :
    emailByIndexUID env a mb uid raw = emailByIndexUID env a mb uid raw' := by
  unfold Bytes.emailByIndexUID
  rw [h.getDocumentFields, indexEmailKey, indexEmailPrefix, append_assoc, h _ (owned_index a _)]

theorem SameKeys.indexedMailbox (name : Str) :
    indexedMailbox raw a name = indexedMailbox raw' a name := by
  unfold Bytes.indexedMailbox
  rw [h.getDocumentFields, indexMailboxNameKey, h _ (owned_index a _)]

theorem SameKeys.scannedMailbox (name : Str) :
    scannedMailbox raw a name = scannedMailbox raw' a name := by
  unfold Bytes.scannedMailbox
  rw [h.documents]

theorem SameKeys.tombstonesSince (mb since : UInt64) :
    tombstonesSince a mb since raw = tombstonesSince a mb since raw' := by
  unfold Bytes.tombstonesSince
  rw [Raw.scanRange_congr fun k hge hlt => ?_]
  obtain ⟨t, rfl⟩ := isPrefix_of_between hge (hlt _ rfl)
  rw [indexExpungePrefix, append_assoc]
  exact h _ (owned_index a _)

theorem SameKeys.changesSince (c : UInt8) (after : UInt64) :
    changesSince raw a c after = changesSince raw' a c after := by
  unfold Bytes.changesSince
  obtain ⟨e, he⟩ := prefixEnd_isSome_of_lt (show spaceLog < 0xff by decide) (beUint32 a ++ [c])
  rw [Raw.scanRange_congr fun k hge hlt => ?_]
  obtain ⟨t, rfl⟩ := (isPrefix_iff_of_prefixEnd he k).mpr ⟨compare_ne_lt_of_append hge, hlt e he⟩
  exact h _ (owned_changeLog a c t)

end

end SameKeys

/-! ### Reads in engines that agree on an account -/

/-- Stores in which `x` and `y` are the addresses of one account ID with the same rows. -/
structure SameRaw (x y : Str) (a : UInt32) (raw raw' : Raw) : Prop where
  keys : SameKeys a raw raw'
  left : accountByEmail raw x = .ok a
  right : accountByEmail raw' y = .ok a

/-- Engines in which `x` and `y` are the addresses of one account ID, with the same rows, the same
    memoized mailboxes, the same blobs and the same time. -/
structure Same (x y : Str) (a : UInt32) (e e' : Engine) : Prop where
  raw : SameRaw x y a e.raw e'.raw
  blobs : e.blobs = e'.blobs
  now : e.now = e'.now
  boxes : e.ids.mailbox a.toNat = e'.ids.mailbox a.toNat
  left : ∀ m, e.ids.account x = some m → m.1 = a.toNat
  right : ∀ m, e'.ids.account y = some m → m.1 = a.toNat

section Same
variable {x y : Str} {a : UInt32}

variable {ops : List RawOp} {α : Type} {e : Engine}

theorem accountByEmail_batch {raw : Raw} (h : ∀ op ∈ ops, Owned a op.1) (x : Str) :
    accountByEmail (raw.batch ops) x = accountByEmail raw x := by
  have hne : ∀ op ∈ ops, op.1 ≠ metaEmailKey x := fun op hop => (h op hop).ne_meta
  unfold accountByEmail
  rw [Raw.getElem?_batch_of_ne hne]

theorem SameRaw.batch {raw raw' : Raw} (h : SameRaw x y a raw raw')
    (howned : ∀ op ∈ ops, Owned a op.1) : SameRaw x y a (raw.batch ops) (raw'.batch ops) where
  keys := fun k hk => Raw.getElem?_batch_congr ops (h.keys k hk)
  left := by rw [accountByEmail_batch howned, h.left]
  right := by rw [accountByEmail_batch howned, h.right]

/-- A transaction that goes alike on stores that agree on the account. -/
abbrev AlikeRaw (x y : Str) (a : UInt32) (m : RawTxn α) : Prop := Twin (SameRaw x y a) m m

/-- An operation that goes alike for the two addresses. -/
abbrev Alike (x y : Str) (a : UInt32) (p : Str → MailOp α) : Prop := Twin (Same x y a) (p x) (p y)

theorem twin_read {f : Raw → Except RawErr α}
    (h : ∀ raw raw', SameKeys a raw raw' → f raw = f raw') : AlikeRaw x y a (read f) := by
  intro raw raw' hs
  unfold read
  rw [← h raw raw' hs.keys]
  cases hf : f raw with
  | error e => exact .inl ⟨e, rfl, rfl⟩
  | ok v => exact .inr ⟨v, raw, raw', rfl, rfl, hs⟩

theorem twin_getRow (hk : Owned a k) : AlikeRaw x y a (getRow k) := by
  intro raw raw' hs
  refine .inr ⟨raw[k]?, raw, raw', rfl, ?_, hs⟩
  rw [hs.keys k hk]
  rfl

theorem twin_append (h : ∀ op ∈ ops, Owned a op.1) : AlikeRaw x y a (append ops) :=
  fun _ _ hs => .inr ⟨⟨⟩, _, _, rfl, rfl, hs.batch h⟩

theorem twin_putRow (v : Str) (hk : Owned a k) : AlikeRaw x y a (putRow k v) :=
  twin_append fun op hop => by rw [mem_singleton.mp hop]; exact hk

theorem twin_readCounter (hk : Owned a k) : AlikeRaw x y a (readCounter k) := by
  refine (twin_getRow hk).bind fun v => ?_
  cases decodeCounter v with
  | ok n => exact .pure n
  | error e => exact .throw e

theorem twin_onRaw {m n : RawTxn α} (h : Twin (SameRaw x y a) m n) : Twin (Same x y a) (onRaw m) (onRaw n) := by
  intro e e' hs
  obtain ⟨err, hm, hn⟩ | ⟨v, raw, raw', hm, hn, hraw⟩ := h e.raw e'.raw hs.raw
  · exact .inl ⟨err, by rw [onRaw, hm]; rfl, by rw [onRaw, hn]; rfl⟩
  · exact .inr ⟨v, { e with raw := raw }, { e' with raw := raw' }, by rw [onRaw, hm]; rfl,
      by rw [onRaw, hn]; rfl, { hs with raw := hraw }⟩

theorem twin_look {f : Engine → α} (h : ∀ e e', Same x y a e e' → f e = f e') : Alike x y a fun _ => look f :=
  fun e e' hs => .inr ⟨f e, e, e', rfl, by rw [h e e' hs]; rfl, hs⟩

theorem twin_orNotFound (v : Option α) : Alike x y a fun _ => orNotFound v := by
  cases v with
  | some v => exact .pure v
  | none => exact .throw _

/-! #### Resolving -/

theorem yields_findAccount : Twin.Yields (Same x y a) (some a) (findAccount x) (findAccount y) :=
  fun e e' hs => ⟨e, e', by rw [findAccount, hs.raw.left], by rw [findAccount, hs.raw.right], hs⟩

/-- A known account is found in the cache or in the registry. -/
theorem cachedAccountID_known (hrow : accountByEmail e.raw x = .ok a)
    (hids : ∀ m, e.ids.account x = some m → m.1 = a.toNat) :
    cachedAccountID x e = .ok (some a, e) ∨ cachedAccountID x e = .ok (some a, e.cacheAccount x a) := by
  unfold cachedAccountID
  cases hf : fresh e.now (e.ids.account x) with
  | some b =>
    left
    obtain ⟨m, hm, rfl⟩ := Option.map_eq_some_iff.mp hf
    rw [hids m (Option.filter_eq_some_iff.mp hm).1]
    simp
  | none => right; simp only [hrow]

theorem account_cacheAccount (m : Nat × Nat)
    (h : (e.cacheAccount x a).ids.account x = some m) : m.1 = a.toNat := by
  have hself : (e.cacheAccount x a).ids.account x = some (a.toNat, e.now + idCacheTTL) :=
    Function.update_self ..
  rw [← Option.mem_unique hself h]

theorem Same.cacheLeft (h : Same x y a e e') : Same x y a (e.cacheAccount x a) e' :=
  { h with left := account_cacheAccount }

theorem Same.cacheRight (h : Same x y a e e') : Same x y a e (e'.cacheAccount y a) :=
  { h with right := account_cacheAccount }

theorem yields_cachedAccountID : Twin.Yields (Same x y a) (some a) (cachedAccountID x) (cachedAccountID y) := by
  intro e e' hs
  rcases cachedAccountID_known hs.raw.left hs.left with h | h <;>
    rcases cachedAccountID_known hs.raw.right hs.right with h' | h'
  · exact ⟨_, _, h, h', hs⟩
  · exact ⟨_, _, h, h', hs.cacheRight⟩
  · exact ⟨_, _, h, h', hs.cacheLeft⟩
  · exact ⟨_, _, h, h', hs.cacheLeft.cacheRight⟩

theorem yields_ensureAccount : Twin.Yields (Same x y a) a (ensureAccount x) (ensureAccount y) := by
  intro e e' hs
  obtain ⟨s, t, h, h', hst⟩ := yields_cachedAccountID e e' hs
  refine ⟨s, t, ?_, ?_, hst⟩
  · show (cachedAccountID x e >>= fun r => _) = _
    rw [h]
    rfl
  · show (cachedAccountID y e' >>= fun r => _) = _
    rw [h']
    rfl

theorem twin_mailboxDocID (name : Str) : AlikeRaw x y a (mailboxDocID a name) := by
  refine (twin_read fun raw raw' h => by rw [h.indexedMailbox]).bind fun v => ?_
  cases v with
  | some id => exact .pure _
  | none =>
    refine (twin_read fun raw raw' h => h.scannedMailbox name).bind fun w => ?_
    cases w with
    | none => exact .pure _
    | some id => exact (twin_putRow _ (owned_index a _)).bind fun _ => .pure _

theorem Same.cacheMailbox (h : Same x y a e e') (name : Str) (id : UInt64) :
    Same x y a (e.cacheMailbox a name id) (e'.cacheMailbox a name id) :=
  { h with boxes := by simp only [Engine.cacheMailbox, Function.update_self, h.boxes, h.now] }

theorem twin_cachedMailboxDocID (name : Str) : Alike x y a fun _ => cachedMailboxDocID a name := by
  refine (twin_look fun e e' h => by rw [h.now, h.boxes]).bind fun v => ?_
  cases v with
  | some id => exact .pure _
  | none =>
    refine (twin_onRaw (twin_mailboxDocID name)).bind fun w => ?_
    cases w with
    | none => exact .pure _
    | some id =>
      refine Twin.bind (fun e e' h => ?_) fun _ => .pure _
      exact .inr ⟨⟨⟩, _, _, rfl, rfl, h.cacheMailbox name id⟩

theorem owned_fields {c : UInt8} {id : UInt64} {fields : Fields} :
    ∀ op ∈ orderedFieldOps a c id fields, Owned a op.1 := by
  intro op hop
  obtain ⟨f, -, rfl⟩ := List.mem_map.mp hop
  exact owned_field ..

theorem twin_ensureMailboxDoc (name : Str) : AlikeRaw x y a (ensureMailboxDoc a name) := by
  refine (twin_getRow (owned_index a _)).bind fun v => ?_
  cases v with
  | some v =>
    show Twin _ (if v.length = 8 then _ else _) (if v.length = 8 then _ else _)
    split_ifs
    · exact .pure _
    · exact .throw _
  | none =>
    refine (twin_readCounter (owned_counter ..)).bind fun next => ?_
    refine (twin_append fun op hop => ?_).bind fun _ => .pure _
    rcases mem_cons.mp hop with rfl | hop
    · exact owned_counter ..
    rcases mem_cons.mp hop with rfl | hop
    · exact owned_field ..
    rcases mem_cons.mp hop with rfl | hop
    · exact owned_index a _
    · exact owned_fields op hop

theorem twin_ensureMailbox (name : Str) : Alike x y a fun _ => ensureMailbox a name := by
  refine (twin_cachedMailboxDocID name).bind fun v => ?_
  cases v with
  | some id => exact .pure id
  | none => exact twin_onRaw (twin_ensureMailboxDoc name)

theorem twin_fields (c : UInt8) (id : UInt64) :
    Alike x y a fun _ => onRaw (read fun raw => .ok (getDocumentFields raw a c id)) :=
  twin_onRaw (twin_read fun raw raw' h => by rw [h.getDocumentFields])

theorem twin_ensureDefaults (names : List Str) : Alike x y a fun _ => ensureDefaults a names := by
  induction names with
  | nil => exact .pure _
  | cons name names ih =>
    refine (twin_ensureMailbox name).bind fun _ => ?_
    refine (twin_onRaw (twin_mailboxDocID name)).bind fun v => (twin_orNotFound v).bind fun mb => ?_
    refine (twin_fields _ mb).bind fun v => (twin_orNotFound v).bind fun fields => ?_
    refine (twin_onRaw ?_).bind fun _ => ih
    unfold ifSo
    split_ifs
    · exact twin_append owned_fields
    · exact .pure _

/-! #### Reading -/

variable (env : Env)

theorem twin_listMailboxesIn : Alike x y a fun u => listMailboxesIn env u a := by
  refine (twin_ensureMailbox inbox).bind fun _ => ?_
  refine Twin.bind (.bind_yields yields_ensureAccount (twin_ensureDefaults _)) fun _ => ?_
  exact twin_onRaw (twin_read fun raw raw' h => h.readMailboxes env)

theorem yields_orNotFound (v : α) : Twin.Yields (Same x y a) v (orNotFound (some v)) (orNotFound (some v)) :=
  fun e e' h => ⟨e, e', rfl, rfl, h⟩

variable (mailbox : Str)

/-- A read of a mailbox that goes by the memoized IDs. -/
theorem twin_cached {f : UInt32 → UInt64 → Raw → Except RawErr α}
    (h : ∀ mb raw raw', SameKeys a raw raw' → f a mb raw = f a mb raw') : Alike x y a fun u => (do
      let a ← orNotFound (← cachedAccountID u)
      let mb ← orNotFound (← cachedMailboxDocID a mailbox)
      onRaw (read (f a mb))) := by
  refine .bind_yields yields_cachedAccountID (.bind_yields (yields_orNotFound a) ?_)
  refine (twin_cachedMailboxDocID mailbox).bind fun v => (twin_orNotFound v).bind fun mb => ?_
  exact twin_onRaw (twin_read (h mb))

theorem twin_mailboxMeta : Alike x y a fun u => mailboxMeta u mailbox :=
  twin_cached mailbox fun mb _ _ h => h.readMeta mb mailbox

theorem twin_orNone {m m' : MailOp (Option α)} (h : Twin (Same x y a) m m') :
    Twin (Same x y a) (orNone m) (orNone m') := by
  intro e e' hs
  unfold orNone
  obtain ⟨err, hm, hm'⟩ | ⟨v, s, s', hm, hm', hs'⟩ := h e e' hs
  · rw [hm, hm']
    exact .inr ⟨none, e, e', rfl, rfl, hs⟩
  · rw [hm, hm']
    exact .inr ⟨v, s, s', rfl, rfl, hs'⟩

theorem twin_mailboxModSeq : Alike x y a fun u => mailboxModSeq u mailbox := by
  have hfound : Twin.Yields (Same x y a) (some a) (orNone (cachedAccountID x)) (orNone (cachedAccountID y)) := by
    intro e e' hs
    obtain ⟨s, s', he, he', hs'⟩ := yields_cachedAccountID e e' hs
    exact ⟨s, s', by rw [orNone, he], by rw [orNone, he'], hs'⟩
  refine .bind_yields hfound ((twin_orNone (twin_cachedMailboxDocID mailbox)).bind fun v => ?_)
  cases v with
  | none => exact .pure _
  | some mb => exact twin_onRaw (twin_read fun raw raw' h => by rw [h.getDocumentFields])

theorem twin_mailboxStatus : Alike x y a fun u => mailboxStatus env u mailbox :=
  twin_cached mailbox fun mb _ _ h => h.readStatus env mb mailbox

theorem twin_readACL : Alike x y a fun _ => readACL a mailbox := by
  refine Twin.bind ?_ fun mb => (twin_fields _ mb).bind fun v => (twin_orNotFound v).bind fun _ => .pure _
  unfold aclDoc
  split_ifs
  · exact twin_ensureMailbox inbox
  · exact (twin_onRaw (twin_mailboxDocID mailbox)).bind twin_orNotFound

/-- Account and mailbox resolve alike, to the account that is known. -/
theorem twin_resolve {mailbox : Str} {f g : UInt32 × UInt64 → MailOp α}
    (h : ∀ mb, Twin (Same x y a) (f (a, mb)) (g (a, mb))) :
    Twin (Same x y a) (resolve x mailbox >>= f) (resolve y mailbox >>= g) := by
  unfold resolve
  simp only [bind_assoc, pure_bind]
  refine .bind_yields yields_findAccount (.bind_yields (yields_orNotFound a) ?_)
  exact (twin_onRaw (twin_mailboxDocID mailbox)).bind fun v => (twin_orNotFound v).bind h

theorem twin_listMessages : Alike x y a fun u => listMessages env u mailbox :=
  twin_resolve fun mb => twin_onRaw (twin_read fun raw raw' h => by rw [h.mailboxEmails])

theorem twin_emailByUID (uid : UInt32) : Alike x y a fun u => emailByUID env u mailbox uid :=
  twin_resolve fun mb =>
    (twin_onRaw (twin_read fun raw raw' h => by rw [h.emailByIndexUID])).bind twin_orNotFound

theorem twin_messageByUID (uid : UInt32) : Alike x y a fun u => messageByUID env u mailbox uid :=
  (twin_emailByUID env mailbox uid).bind fun _ => .pure _

theorem twin_openMessage (uid : UInt32) : Alike x y a fun u => openMessage env u mailbox uid :=
  (twin_emailByUID env mailbox uid).bind fun e => (twin_look fun s s' h => by rw [h.blobs]).bind twin_orNotFound

theorem twin_expungedSince (since : UInt64) : Alike x y a fun u => expungedSince u mailbox since := by
  refine .bind_yields yields_findAccount ((twin_onRaw (twin_mailboxDocID mailbox)).bind fun v => ?_)
  cases v with
  | none => exact .pure _
  | some mb => exact twin_onRaw (twin_read fun raw raw' h => by rw [h.tombstonesSince])

theorem twin_quotaUsedBytes : Alike x y a quotaUsedBytes :=
  .bind_yields yields_findAccount
    (twin_onRaw ((twin_readCounter (owned_quota a)).bind fun _ => .pure _))

theorem twin_scripts : Alike x y a fun _ => onRaw (read fun raw => documents raw a collectionSieveScript) :=
  twin_onRaw (twin_read fun raw raw' h => by rw [h.documents])

theorem twin_listSieveScripts : Alike x y a listSieveScripts :=
  .bind_yields yields_findAccount (twin_scripts.bind fun _ => .pure _)

theorem twin_getSieveScript (name : Str) : Alike x y a fun u => getSieveScript u name :=
  .bind_yields yields_findAccount (.bind_yields (yields_orNotFound a)
    (twin_scripts.bind fun _ => (twin_orNotFound _).bind fun _ => .pure _))

theorem twin_accountChanges (c : UInt8) (after : UInt64) : Alike x y a fun u => accountChanges u c after :=
  .bind_yields yields_findAccount (.bind_yields (yields_orNotFound a)
    (twin_onRaw (twin_read fun raw raw' h => by rw [h.changesSince])))

/-- Engines that agree on an account and on its vacation records answer every read of it alike. -/
theorem Same.answer (h : Same x y a e e')
    (hvac : ∀ sender, vacationLastSent e.raw x sender = vacationLastSent e'.raw y sender) (r : Read) :
    e.answer env x r = e'.answer env y r := by
  cases r with
  | listMailboxes => exact (Twin.bind_yields yields_ensureAccount (twin_listMailboxesIn env)).answer h
  | mailboxStatus mailbox => exact (twin_mailboxStatus env mailbox).answer h
  | mailboxMeta mailbox => exact (twin_mailboxMeta mailbox).answer h
  | mailboxModSeq mailbox => exact (twin_mailboxModSeq mailbox).answer h
  | getACL mailbox => exact (Twin.bind_yields yields_ensureAccount (twin_readACL mailbox)).answer h
  | listMessages mailbox => exact (twin_listMessages env mailbox).answer h
  | messageByUID mailbox uid => exact (twin_messageByUID env mailbox uid).answer h
  | emailByUID mailbox uid => exact (twin_emailByUID env mailbox uid).answer h
  | openMessage mailbox uid => exact (twin_openMessage env mailbox uid).answer h
  | expungedSince mailbox since => exact (twin_expungedSince mailbox since).answer h
  | quotaUsedBytes => exact twin_quotaUsedBytes.answer h
  | listSieveScripts => exact twin_listSieveScripts.answer h
  | getSieveScript name => exact (twin_getSieveScript name).answer h
  | changesSince c after => exact (twin_accountChanges c after).answer h
  | vacationLastSent sender => exact congrArg Except.ok (hvac sender)

end Same

end Mailezine.Mailstore.Bytes
