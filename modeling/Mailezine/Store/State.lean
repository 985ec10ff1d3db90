import Mailezine.Mailstore.Message
import Mailezine.Schemes.Rows
import Mathlib.Tactic.Simps.Basic

/-! The key spaces of `internal/store`, typed.

    The engine keeps everything in one sorted key-value store whose keys start with a space byte and
    an account ID. Here each key space is a map of its own: keys are the numbers and names that the
    key constructors encode, values are the decoded field values. A document is the record of its
    field rows, each present or absent; a document that has any row at all is in its collection's
    map, whether it has the row of the meta sentinel or not. Counters are 64 bits wide and do not
    wrap. Columns that no modelled function reads (attributes, access lists, the account record) are
    left out. -/

namespace Mailezine.Store
open Mailstore Schemes

/-- Rows keyed by a number. -/
abbrev Rows (β : Type) := Std.ExtTreeMap Nat β compare

/-- Rows keyed by a name. -/
abbrev Names (β : Type) := Std.ExtTreeMap Str β compare

/-- The field rows of a mailbox document. -/
structure MailboxDoc where
  sentinel : Bool := false
  name : Option Str := none
  uidValidity : Option Nat := none
  subscribed : Option Bool := none
  modSeq : Option Nat := none
  deriving DecidableEq

/-- Write the rows of `new` over those of `d`. -/
def MailboxDoc.put (d new : MailboxDoc) : MailboxDoc where
  sentinel := new.sentinel || d.sentinel
  name := new.name <|> d.name
  uidValidity := new.uidValidity <|> d.uidValidity
  subscribed := new.subscribed <|> d.subscribed
  modSeq := new.modSeq <|> d.modSeq

/-- The field rows of an Email document. Flags and keywords are comma-joined. -/
structure EmailDoc where
  sentinel : Bool := false
  blob : Option Str := none
  uid : Option Nat := none
  mailbox : Option Str := none
  flags : Option Str := none
  date : Option Int := none
  sender : Option Str := none
  size : Option Int64 := none
  keywords : Option Str := none
  modSeq : Option Nat := none
  header : Option Str := none
  bodyStructure : Option Str := none
  deriving DecidableEq

/-- Write the rows of `new` over those of `d`. -/
def EmailDoc.put (d new : EmailDoc) : EmailDoc where
  sentinel := new.sentinel || d.sentinel
  blob := new.blob <|> d.blob
  uid := new.uid <|> d.uid
  mailbox := new.mailbox <|> d.mailbox
  flags := new.flags <|> d.flags
  date := new.date <|> d.date
  sender := new.sender <|> d.sender
  size := new.size <|> d.size
  keywords := new.keywords <|> d.keywords
  modSeq := new.modSeq <|> d.modSeq
  header := new.header <|> d.header
  bodyStructure := new.bodyStructure <|> d.bodyStructure

theorem EmailDoc.empty_put (d : EmailDoc) : ({} : EmailDoc).put d = d := by
  cases d
  simp [EmailDoc.put]

/-- The collections that mailstore operations write. -/
inductive Collection where
  | mailbox
  | email
  deriving DecidableEq

/-- What a change-log row records. -/
inductive ChangeOp where
  | create
  | update
  | delete
  deriving DecidableEq

/-- A change-log row; the delete of a complete Email row also carries its mailbox and UID. -/
structure Change where
  docID : Nat
  op : ChangeOp
  copy : Option (Str × Nat) := none
  deriving DecidableEq

/-- Everything stored under one account ID. -/
structure Account where
  mailboxes : Rows MailboxDoc := ∅
  emails : Rows EmailDoc := ∅
  /-- Last document ID given out in each collection, last UID given out in each mailbox. -/
  lastMailbox : Nat := 0
  lastEmail : Nat := 0
  lastUID : Nat → Nat := fun _ => 0
  lastChange : Nat := 0
  log : Collection → Rows Change := fun _ => ∅
  /-- Mailbox name to mailbox document, and for each mailbox UID to Email document. -/
  nameIdx : Names Nat := ∅
  emailIdx : Nat → Rows Nat := fun _ => ∅
  /-- For each mailbox the expunge tombstones: (modseq, UID) to UID. -/
  expungeIdx : Nat → Std.ExtTreeMap (Nat × Nat) Nat pairCmp := fun _ => ∅
  quota : Int64 := 0
  links : Names Nat := ∅

/-- The key-value store: the account registry, the accounts and the blob GC claims with the unix
    time they were queued at. -/
structure KV where
  lastAccount : Nat := 0
  registry : Names Nat := ∅
  accounts : Rows Account := ∅
  gcClaims : Names Nat := ∅

/-- The rows of an account; an account without rows is empty. -/
def KV.account (kv : KV) (a : Nat) : Account := (kv.accounts[a]?).getD {}

/-- Change the rows of one account. -/
def KV.modify (kv : KV) (a : Nat) (f : Account → Account) : KV :=
  { kv with accounts := kv.accounts.insert a (f (kv.account a)) }

@[simp] theorem KV.account_modify (kv : KV) (a b : Nat) (f : Account → Account) :
    (kv.modify a f).account b = if a = b then f (kv.account b) else kv.account b := by
  unfold KV.account KV.modify
  by_cases h : a = b
  · subst h; simp [KV.account]
  · simp [h]

/-- Write a GC claim row. -/
@[simps] def KV.putClaim (kv : KV) (blob : Str) (queued : Nat) : KV :=
  { kv with gcClaims := kv.gcClaims.insert blob queued }

/-- `DeleteBlobGCClaim`. -/
@[simps] def KV.deleteBlobGCClaim (kv : KV) (blob : Str) : KV :=
  { kv with gcClaims := kv.gcClaims.erase blob }

@[simp] theorem KV.account_putClaim (kv : KV) (blob : Str) (queued a : Nat) :
    (kv.putClaim blob queued).account a = kv.account a := rfl

@[simp] theorem KV.account_deleteBlobGCClaim (kv : KV) (blob : Str) (a : Nat) :
    (kv.deleteBlobGCClaim blob).account a = kv.account a := rfl

@[simp] theorem KV.registry_modify (kv : KV) (a : Nat) (f : Account → Account) :
    (kv.modify a f).registry = kv.registry := rfl

@[simp] theorem KV.lastAccount_modify (kv : KV) (a : Nat) (f : Account → Account) :
    (kv.modify a f).lastAccount = kv.lastAccount := rfl

@[simp] theorem KV.gcClaims_modify (kv : KV) (a : Nat) (f : Account → Account) :
    (kv.modify a f).gcClaims = kv.gcClaims := rfl

/-- Errors that operations distinguish. -/
inductive Err where
  | notFound
  | exists
  | notMarkedDeleted
  deriving DecidableEq, Repr

/-- `uint32(n)`. -/
def u32 (n : Nat) : Nat := n % 2 ^ 32

end Mailezine.Store
