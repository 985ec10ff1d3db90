import Mailezine.Store.Key
import Mailezine.Store.Txn

/-! The transactions that write the change log, on the byte store.

    Each definition is the closure that `WithTxn` runs: writes are visible to the reads after them and
    an error takes all of them back. A field map is the list of its entries. -/

namespace Mailezine.Store.Bytes
open Mailstore Schemes

/-- Errors of the closures. -/
inductive RawErr where
  | notFound
  | exists
  | notMarkedDeleted
  | corrupt
  deriving DecidableEq

/-- A transaction on the byte store. -/
abbrev RawTxn := StateT Raw (Except RawErr)

/-- `TxnOps.Get`. -/
def getRow (k : Str) : RawTxn (Option Str) := do
  let raw ← get
  pure raw[k]?

/-- `TxnOps.Append`. -/
def append (ops : List RawOp) : RawTxn Unit := modify (·.batch ops)

/-- `TxnOps.Put`. -/
def putRow (k v : Str) : RawTxn Unit := append [(k, some v)]

/-- A statement that runs only when its condition holds. -/
def ifSo (c : Prop) [Decidable c] (m : RawTxn Unit) : RawTxn Unit := if c then m else pure ()

/-- A field map. -/
abbrev Fields := List (UInt8 × Str)

/-! ### Counters -/

/-- A big-endian counter value; an absent row counts as zero. -/
def decodeCounter : Option Str → Except RawErr UInt64
  | none => .ok 0
  | some v => if v.length = 8 then .ok (UInt64.ofNat (unbe v)) else .error .corrupt

theorem toNat_ofNat_be (v : UInt64) : UInt64.ofNat (unbe (beUint64 v)) = v := by
  rw [beUint64, unbe_be, Nat.mod_eq_of_lt (show v.toNat < 256 ^ 8 from v.toNat_lt), UInt64.ofNat_toNat]

theorem decodeCounter_be (v : UInt64) : decodeCounter (some (beUint64 v)) = .ok v := by
  rw [decodeCounter, if_pos (length_beUint64 v), toNat_ofNat_be]

/-- `readCounter`. -/
def readCounter (k : Str) : RawTxn UInt64 := do
  match decodeCounter (← getRow k) with
  | .ok n => pure n
  | .error e => throw e

/-- `quotaValue`. -/
def quotaValue (k : Str) : RawTxn Int64 := do
  let n ← readCounter k
  pure n.toInt64

/-- `beUint64Value`: missing or short values are zero. -/
def beUint64Value (v : Option Str) : UInt64 :=
  match v with
  | some v => if v.length = 8 then UInt64.ofNat (unbe v) else 0
  | none => 0

/-! ### Change values -/

/-- `OpCreate`, `OpUpdate` and `OpDelete`. -/
def opCreate : UInt8 := 1
def opUpdate : UInt8 := 2
def opDelete : UInt8 := 3

/-- `encodeChangeValue`. -/
def encodeChangeValue (collection : UInt8) (docID : UInt64) (op : UInt8) : Str :=
  collection :: beUint64 docID ++ [op]

/-- `encodeEmailDeleteValue`: the length of the name is written in 16 bits. -/
def encodeEmailDeleteValue (collection : UInt8) (docID : UInt64) (mailbox : Str) (uid : UInt32) : Str :=
  encodeChangeValue collection docID opDelete ++ be 8 uid.toNat ++ be 2 mailbox.length ++ mailbox

/-- The change counter of an account. -/
def changeCounter (a : UInt32) : Str := counterKey a counterKindChange []

/-- Allocate the next change ID and write the row under it. -/
def allocChange (a : UInt32) (collection : UInt8) (value : Str) : RawTxn UInt64 := do
  let next ← readCounter (changeCounter a)
  let changeID := next + 1
  append [(changeCounter a, some (beUint64 changeID)),
    (changeLogKey a collection changeID, some value)]
  pure changeID

/-- `AppendChange`. -/
def appendChange (a : UInt32) (collection : UInt8) (docID : UInt64) (op : UInt8) : RawTxn UInt64 :=
  allocChange a collection (encodeChangeValue collection docID op)

/-! ### Documents, links and quota -/

/-- `orderedFieldOps`. -/
def orderedFieldOps (a : UInt32) (collection : UInt8) (docID : UInt64) (fields : Fields) : List RawOp :=
  fields.map fun f => (fieldKey a collection docID f.1, some f.2)

/-- The index rows that callers pass as `extra`. -/
def indexRow (a : UInt32) : IndexOp → RawOp
  | .dropRow mb uid => (indexEmailKey a (.ofNat mb) (.ofNat uid), none)
  | .putTombstone mb m uid => (indexExpungeKey a (.ofNat mb) (.ofNat m) (.ofNat uid), some (be 8 uid))
  | .dropName name => (indexMailboxNameKey a name, none)
  | .putName name id => (indexMailboxNameKey a name, some (be 8 id))

/-- `stageBlobLink`. -/
def stageBlobLink (a : UInt32) (blob : Str) : RawTxn Unit := do
  let refs ← readCounter (blobLinkKey a blob)
  ifSo (refs = 0) (append [(metaBlobGCKey blob, none)])
  putRow (blobLinkKey a blob) (beUint64 (refs + 1))

/-- `stageBlobUnlink`, and what its caller does when there is nothing to unlink. -/
def unlinkBlob (a : UInt32) (blob : Str) (now : UInt64) : RawTxn Unit := do
  let refs ← readCounter (blobLinkKey a blob)
  if refs = 0 then append [(blobLinkKey a blob, none)]
  else if refs = 1 then
    append [(blobLinkKey a blob, some (beUint64 0)), (metaBlobGCKey blob, some (beUint64 now))]
  else putRow (blobLinkKey a blob) (beUint64 (refs - 1))

/-- Add to the quota counter. -/
def chargeQuota (a : UInt32) (size : Int64) : RawTxn Unit := do
  let quota ← quotaValue (quotaKey a)
  putRow (quotaKey a) (beUint64 (quota + size).toUInt64)

/-- Take off the quota counter, clamped at zero. -/
def releaseQuota (a : UInt32) (size : Int64) : RawTxn Unit := do
  let quota ← quotaValue (quotaKey a)
  putRow (quotaKey a) (beUint64 (if quota - size < 0 then 0 else quota - size).toUInt64)

/-- `deliverOne`. -/
def deliverOne (a : UInt32) (mb : UInt64) (fields : Fields) (blob : Str) (size : Int64)
    (extra : List IndexOp) : RawTxn (UInt64 × UInt64 × UInt64) := do
  let uidKey := counterKey a counterKindNextDoc (collectionEmail :: beUint64 mb)
  let docKey := counterKey a counterKindNextDoc [collectionEmail]
  let modseqKey := fieldKey a collectionMailbox mb fieldMailboxModSeq
  let uid := (← readCounter uidKey) + 1
  putRow uidKey (beUint64 uid)
  let modseq := beUint64Value (← getRow modseqKey) + 1
  putRow modseqKey (beUint64 modseq)
  let docID := (← readCounter docKey) + 1
  append [(docKey, some (beUint64 docID)), (fieldKey a collectionEmail docID fieldMeta, some [1])]
  -- the allocated values are written over any that the caller passed
  append (orderedFieldOps a collectionEmail docID
    (fields ++ [(emailFieldUID, beUint64 uid), (emailFieldModSeq, beUint64 modseq)]))
  stageBlobLink a blob
  chargeQuota a size
  let _ ← allocChange a collectionEmail (encodeChangeValue collectionEmail docID opCreate)
  putRow (indexEmailKey a mb uid) (beUint64 docID)
  append (extra.map (indexRow a))
  pure (uid, modseq, docID)

/-- One request of `DeliverEmailBatch`. -/
structure Request where
  mailboxID : UInt64
  fields : Fields
  blobID : Str
  size : Int64

/-- `DeliverEmailBatch`: the document IDs it gives out. -/
def deliverEmailBatch (a : UInt32) : List Request → RawTxn (List UInt64)
  | [] => pure []
  | r :: rs => do
    let one ← deliverOne a r.mailboxID r.fields r.blobID r.size []
    let rest ← deliverEmailBatch a rs
    pure (one.2.2 :: rest)

/-- `AppendEmailAtomically`. -/
def appendEmailAtomically (a : UInt32) (collection : UInt8) (docID : UInt64) (fields : Fields)
    (blob : Str) (size : Int64) (extra : List IndexOp) : RawTxn Unit := do
  append (orderedFieldOps a collection docID fields)
  stageBlobLink a blob
  chargeQuota a size
  let _ ← allocChange a collection (encodeChangeValue collection docID opCreate)
  append (extra.map (indexRow a))

/-- The value of a field among the rows of a document; the field is the key's last byte. -/
def fieldOf (rows : List (Str × Str)) (field : UInt8) : Option Str :=
  (rows.reverse.find? fun r => r.1.getLast? = some field).map (·.2)

/-- The value of a numeric field; values that are not eight bytes long do not count. -/
def numberOf (rows : List (Str × Str)) (field : UInt8) : UInt64 :=
  ((fieldOf (rows.filter fun r => r.2.length = 8) field).map fun v => UInt64.ofNat (unbe v)).getD 0

/-- The mailbox and the UID that a delete records, when the document has both. -/
def deletedCopy (collection : UInt8) (rows : List (Str × Str)) : Option (Str × UInt32) :=
  let mailbox := (fieldOf rows emailFieldMailbox).getD []
  let uid := (numberOf rows emailFieldUID).toUInt32
  if collection = collectionEmail ∧ mailbox ≠ [] ∧ uid ≠ 0 then some (mailbox, uid) else none

/-- The value of a delete. -/
def deleteValue (collection : UInt8) (docID : UInt64) : Option (Str × UInt32) → Str
  | some c => encodeEmailDeleteValue collection docID c.1 c.2
  | none => encodeChangeValue collection docID opDelete

/-- `DeleteEmailAtomically` after its scan. -/
def deleteRows (a : UInt32) (collection : UInt8) (docID : UInt64) (requireFlag : Str)
    (extra : List IndexOp) (now : UInt64) (rows : List (Str × Str)) : RawTxn Unit := do
  ifSo (rows = []) (throw .notFound)
  let flags := (fieldOf rows emailFieldFlags).getD []
  ifSo (requireFlag ≠ [] ∧ hasListToken flags requireFlag = false) (throw .notMarkedDeleted)
  append (rows.map fun r => (r.1, none))
  let blob := (fieldOf rows emailFieldBlob).getD []
  ifSo (blob ≠ []) (unlinkBlob a blob now)
  let size := (numberOf rows emailFieldSize).toInt64
  ifSo (size ≠ 0) (releaseQuota a size)
  let _ ← allocChange a collection (deleteValue collection docID (deletedCopy collection rows))
  append (extra.map (indexRow a))

/-- `DeleteEmailAtomically`. -/
def deleteEmailAtomically (a : UInt32) (collection : UInt8) (docID : UInt64) (requireFlag : Str)
    (extra : List IndexOp) (now : UInt64) : RawTxn Unit := do
  let raw ← get
  deleteRows a collection docID requireFlag extra now (raw.scan (documentKey a collection docID))

/-- `UpdateDocumentAtomically`. -/
def updateDocumentAtomically (a : UInt32) (collection : UInt8) (docID : UInt64) (fields : Fields)
    (extra : List IndexOp) : RawTxn Unit := do
  append (orderedFieldOps a collection docID fields)
  let _ ← allocChange a collection (encodeChangeValue collection docID opUpdate)
  append (extra.map (indexRow a))

/-- The loop of `UpdateDocumentsAtomically`: the counter is read once, before it. -/
def stageUpdates (a : UInt32) (collection : UInt8) : List (UInt64 × Fields) → UInt64 → RawTxn Unit
  | [], _ => pure ()
  | d :: docs, next => do
    append (orderedFieldOps a collection d.1 d.2)
    append [(changeCounter a, some (beUint64 (next + 1))),
      (changeLogKey a collection (next + 1), some (encodeChangeValue collection d.1 opUpdate))]
    stageUpdates a collection docs (next + 1)

/-- `UpdateDocumentsAtomically`. -/
def updateDocumentsAtomically (a : UInt32) (collection : UInt8) (docs : List (UInt64 × Fields))
    (extra : List IndexOp) : RawTxn Unit :=
  ifSo (docs ≠ []) do
    let next ← readCounter (changeCounter a)
    stageUpdates a collection docs next
    append (extra.map (indexRow a))

/-! ### Reading the log -/

/-- `Change`. -/
structure Change where
  changeID : UInt64
  collection : UInt8
  docID : UInt64
  op : UInt8
  mailbox : Str := []
  uid : UInt32 := 0
  deriving DecidableEq

/-- `ChangeIDFromLogKey`. -/
def changeIDFromLogKey (k : Str) : UInt64 := UInt64.ofNat (unbe ((k.drop 6).take 8))

/-- The row callback of `ChangesSince`; a row that is too short is skipped. -/
def decodeChange (r : Str × Str) : Option Change :=
  let v := r.2
  if v.length < 10 then none
  else
    let base : Change :=
      { changeID := changeIDFromLogKey r.1
        collection := v.headD 0
        docID := UInt64.ofNat (unbe ((v.drop 1).take 8))
        op := (v.drop 9).headD 0 }
    if base.op = opDelete ∧ 20 ≤ v.length then
      let n := unbe ((v.drop 18).take 2)
      some { base with
        uid := (UInt64.ofNat (unbe ((v.drop 10).take 8))).toUInt32
        mailbox := if 0 < n ∧ 20 + n ≤ v.length then (v.drop 20).take n else [] }
    else some base

/-- `ChangesSince`: the scan starts at the key after the cursor, in 64-bit arithmetic. -/
def changesSince (raw : Raw) (a : UInt32) (collection : UInt8) (after : UInt64) : List Change :=
  (raw.scanRange (changeLogKey a collection (after + 1))
    (prefixEnd (changeLogPrefix a collection))).filterMap decodeChange

end Mailezine.Store.Bytes
