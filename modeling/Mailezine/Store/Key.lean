import Mailezine.Schemes.ByteKeys
import Mailezine.Store.State

/-! `key.go`: the keys of the engine as bytes, and the byte store they are in.

    A key is a space byte, then four bytes of account ID in every space but the global ones, then what
    the space needs. The typed key spaces of `Store.State` are these keys decoded; here the encoding
    itself is the subject. -/

namespace Mailezine.Store
open Mailstore Schemes List

/-! ### Spaces, tags, counters, collections and fields -/

/-- `SpaceMeta` and the other space bytes. -/
def spaceMeta : UInt8 := 'm'.toUInt8
def spaceAccount : UInt8 := 'a'.toUInt8
def spaceIndex : UInt8 := 'i'.toUInt8
def spaceDocument : UInt8 := 'd'.toUInt8
def spaceLog : UInt8 := 'l'.toUInt8
def spaceBlobLink : UInt8 := 'b'.toUInt8
def spaceQuota : UInt8 := 'u'.toUInt8

/-- `IdxMailboxName`, `IdxEmailMbox` and `IdxEmailExpunged`. -/
def idxMailboxName : UInt8 := 'n'.toUInt8
def idxEmailMbox : UInt8 := 'e'.toUInt8
def idxEmailExpunged : UInt8 := 'x'.toUInt8

/-- `CounterKindNextDoc` and `CounterKindChange`. -/
def counterKindNextDoc : UInt8 := 1
def counterKindChange : UInt8 := 2

/-- The collections. -/
def collectionMailbox : UInt8 := 1
def collectionEmail : UInt8 := 2
def collectionThread : UInt8 := 3
def collectionIdentity : UInt8 := 4
def collectionEmailSubmission : UInt8 := 5
def collectionSieveScript : UInt8 := 6
def collectionPrincipal : UInt8 := 7

/-- `FieldMeta` and `FieldMailboxModSeq`. -/
def fieldMeta : UInt8 := 0
def fieldMailboxModSeq : UInt8 := 0x7f

/-- The Email document fields that the transactions read. -/
def emailFieldBlob : UInt8 := 1
def emailFieldUID : UInt8 := 2
def emailFieldMailbox : UInt8 := 3
def emailFieldFlags : UInt8 := 4
def emailFieldSize : UInt8 := 7
def emailFieldModSeq : UInt8 := 9

/-! ### Keys -/

/-- `beUint32` and `beUint64`. -/
def beUint32 (v : UInt32) : Str := be 4 v.toNat
def beUint64 (v : UInt64) : Str := be 8 v.toNat

/-- `appendSpaceID`. -/
def spaceID (space : UInt8) (a : UInt32) : Str := space :: beUint32 a

/-- `AccountKey`. -/
def accountKey (a : UInt32) : Str := spaceID spaceAccount a

/-- `CollectionKey`. -/
def collectionKey (a : UInt32) (collection : UInt8) : Str := spaceID spaceDocument a ++ [collection]

/-- `DocumentKey`. -/
def documentKey (a : UInt32) (collection : UInt8) (id : UInt64) : Str :=
  collectionKey a collection ++ beUint64 id

/-- `FieldKey`. -/
def fieldKey (a : UInt32) (collection : UInt8) (id : UInt64) (field : UInt8) : Str :=
  documentKey a collection id ++ [field]

/-- `CounterKey`. -/
def counterKey (a : UInt32) (kind : UInt8) (sub : Str) : Str := spaceID spaceAccount a ++ kind :: sub

/-- `ChangeLogPrefix`. -/
def changeLogPrefix (a : UInt32) (collection : UInt8) : Str := spaceID spaceLog a ++ [collection]

/-- `ChangeLogKey`. -/
def changeLogKey (a : UInt32) (collection : UInt8) (changeID : UInt64) : Str :=
  changeLogPrefix a collection ++ beUint64 changeID

/-- `QuotaKey`. -/
def quotaKey (a : UInt32) : Str := spaceID spaceQuota a

/-- `BlobLinkKey`. -/
def blobLinkKey (a : UInt32) (blob : Str) : Str := spaceID spaceBlobLink a ++ blob

/-- `IndexMailboxNameKey`. -/
def indexMailboxNameKey (a : UInt32) (name : Str) : Str := spaceID spaceIndex a ++ idxMailboxName :: name

/-- `IndexEmailPrefix`. -/
def indexEmailPrefix (a : UInt32) (mb : UInt64) : Str := spaceID spaceIndex a ++ idxEmailMbox :: beUint64 mb

/-- `IndexEmailKey`. -/
def indexEmailKey (a : UInt32) (mb uid : UInt64) : Str := indexEmailPrefix a mb ++ beUint64 uid

/-- `IndexExpungePrefix`. -/
def indexExpungePrefix (a : UInt32) (mb : UInt64) : Str :=
  spaceID spaceIndex a ++ idxEmailExpunged :: beUint64 mb

/-- `IndexExpungeKey`. -/
def indexExpungeKey (a : UInt32) (mb modSeq uid : UInt64) : Str :=
  indexExpungePrefix a mb ++ beUint64 modSeq ++ beUint64 uid

/-- `MetaEmailKey`. -/
def metaEmailKey (email : Str) : Str := spaceMeta :: ascii "email:" ++ email

/-- `MetaNextAccountKey`. -/
def metaNextAccountKey : Str := spaceMeta :: ascii "next_account"

/-- `MetaVacationKey`. -/
def metaVacationKey (account sender : Str) : Str :=
  spaceMeta :: ascii "vacation:" ++ account ++ 0x1f :: sender

/-- `MetaBlobGCKey`. -/
def metaBlobGCKey (blob : Str) : Str := spaceMeta :: ascii "gc:blob:" ++ blob

/-! ### Keys of different accounts -/

@[simp] theorem length_beUint32 (v : UInt32) : (beUint32 v).length = 4 := length_be ..

@[simp] theorem length_beUint64 (v : UInt64) : (beUint64 v).length = 8 := length_be ..

theorem beUint32_inj {v w : UInt32} (h : beUint32 v = beUint32 w) : v = w :=
  UInt32.toNat.inj (be_inj v.toNat_lt w.toNat_lt h)

theorem beUint64_inj {v w : UInt64} (h : beUint64 v = beUint64 w) : v = w :=
  UInt64.toNat.inj (be_inj v.toNat_lt w.toNat_lt h)

/-- Four bytes of account ID behind the space byte keep accounts apart. -/
theorem spaceID_append_inj {s t : UInt8} {a b : UInt32} {x y : Str}
    (h : spaceID s a ++ x = spaceID t b ++ y) : s = t ∧ a = b ∧ x = y := by
  rw [spaceID, spaceID, cons_append, cons_append, cons.injEq] at h
  obtain ⟨hab, hxy⟩ := append_inj h.2 (by simp)
  exact ⟨h.1, beUint32_inj hab, hxy⟩

theorem changeLogPrefix_append_inj {a b : UInt32} {c d : UInt8} {s t : Str}
    (h : changeLogPrefix a c ++ s = changeLogPrefix b d ++ t) : a = b ∧ c = d ∧ s = t := by
  unfold changeLogPrefix at h
  rw [append_assoc, append_assoc] at h
  obtain ⟨-, hab, h⟩ := spaceID_append_inj h
  obtain ⟨hcd, hst⟩ := append_inj h rfl
  exact ⟨hab, singleton_inj.mp hcd, hst⟩

theorem changeLogKey_inj {a b : UInt32} {c d : UInt8} {i j : UInt64}
    (h : changeLogKey a c i = changeLogKey b d j) : a = b ∧ c = d ∧ i = j := by
  obtain ⟨hab, hcd, hij⟩ := changeLogPrefix_append_inj h
  exact ⟨hab, hcd, beUint64_inj hij⟩

/-! ### The byte store -/

/-- The engine's store: bytes to bytes, in key order. -/
abbrev Raw := Names Str

/-- One write of a batch: a value, or none for a delete. -/
abbrev RawOp := Str × Option Str

/-- Apply one write. -/
def Raw.write (raw : Raw) (op : RawOp) : Raw :=
  match op.2 with
  | some v => raw.insert op.1 v
  | none => raw.erase op.1

/-- `Batch`. -/
def Raw.batch (raw : Raw) (ops : List RawOp) : Raw := ops.foldl Raw.write raw

/-- `Scan`: the rows whose key starts with `pre`, in key order. -/
def Raw.scan (raw : Raw) (pre : Str) : List (Str × Str) := raw.toList.filter fun r => pre.isPrefixOf r.1

/-- `ScanRange`: the rows from `start` up to but not including `stop`, in key order. -/
def Raw.scanRange (raw : Raw) (start : Str) (stop : Option Str) : List (Str × Str) :=
  raw.toList.filter fun r => compare r.1 start ≠ .lt && stop.all fun e => compare r.1 e = .lt

theorem Raw.getElem?_write (raw : Raw) (op : RawOp) (k : Str) :
    (raw.write op)[k]? = if op.1 = k then op.2 else raw[k]? := by
  unfold Raw.write
  cases op.2 <;> simp

theorem Raw.getElem?_batch_of_ne {raw : Raw} {ops : List RawOp} {k : Str} (h : ∀ op ∈ ops, op.1 ≠ k) :
    (raw.batch ops)[k]? = raw[k]? := by
  induction ops generalizing raw with
  | nil => rfl
  | cons op ops ih =>
    have hop := h op (by simp)
    rw [Raw.batch, foldl_cons, ← Raw.batch, ih fun o ho => h o (by simp [ho]), Raw.getElem?_write,
      if_neg hop]

theorem Raw.batch_append (raw : Raw) (l l' : List RawOp) : raw.batch (l ++ l') = (raw.batch l).batch l' :=
  foldl_append ..

theorem Raw.getElem?_batch_congr {raw raw' : Raw} (ops : List RawOp) {k : Str} (h : raw[k]? = raw'[k]?) :
    (raw.batch ops)[k]? = (raw'.batch ops)[k]? := by
  induction ops generalizing raw raw' with
  | nil => exact h
  | cons op ops ih => exact ih (by rw [Raw.getElem?_write, Raw.getElem?_write, h])

/-- A scan sees the keys with its prefix and nothing else. -/
theorem Raw.scan_congr {raw raw' : Raw} {p : Str} (h : ∀ t, raw[p ++ t]? = raw'[p ++ t]?) :
    raw.scan p = raw'.scan p := by
  unfold Raw.scan
  refine filter_scan_eq (Std.ExtTreeMap.ordered_keys_toList.filter _) fun r => ?_
  rw [mem_filter, mem_scan]
  refine and_congr_left fun hp => ?_
  obtain ⟨t, ht⟩ := isPrefixOf_iff_prefix.mp hp
  rw [← ht, h]

/-- A range scan sees the keys in its range and nothing else. -/
theorem Raw.scanRange_congr {raw raw' : Raw} {start : Str} {stop : Option Str}
    (h : ∀ k, compare k start ≠ .lt → (∀ e, stop = some e → compare k e = .lt) → raw[k]? = raw'[k]?) :
    raw.scanRange start stop = raw'.scanRange start stop := by
  unfold Raw.scanRange
  refine filter_scan_eq (Std.ExtTreeMap.ordered_keys_toList.filter _) fun r => ?_
  rw [mem_filter, mem_scan]
  refine and_congr_left fun hp => ?_
  obtain ⟨hge, hlt⟩ := Bool.and_eq_true_iff.mp hp
  rw [h r.1 (of_decide_eq_true hge) fun e he => by simpa [he] using hlt]

end Mailezine.Store
