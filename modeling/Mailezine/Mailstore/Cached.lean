import Mailezine.Mailstore.Rights
import Mailezine.Schemes.Threads

/-! The metadata cache of `internal/mailstore/cached.go`.

    `Cached` wraps the mailstore and memoizes three kinds of answers under keys made of their arguments.
    A write removes the entries it may have outdated, but only when the mailstore reports success. The
    mailstore may also fail a call in the middle, between two accesses to its stores. Entries are
    neither evicted nor do they expire. -/

namespace Mailezine.Mailstore
open Gostd Schemes Store

/-! ### Keys -/

/-- `msgsKey`. -/
def msgsKey (account mailbox : Str) : Str := ascii "msgs" ++ 0 :: (account ++ 0 :: mailbox)

/-- `mboxesKey`. -/
def mboxesKey (account : Str) : Str := ascii "mboxes" ++ 0 :: account

/-- `mboxKey`. -/
def mboxKey (account mailbox : Str) : Str := ascii "mbox" ++ 0 :: (account ++ 0 :: mailbox)

/-- The entries that `invalidate` removes. -/
def boxKeys (account mailbox : Str) : List Str :=
  [msgsKey account mailbox, mboxesKey account, mboxKey account mailbox]

/-! ### Calls -/

/-- What a call returns; the results of writes are passed on as they are. -/
inductive Answer where
  | mailboxes (boxes : List MailboxEntry)
  | status (st : Mailbox × Counters)
  | messages (msgs : List Message)
  | message (msg : Message)
  | passed
  deriving DecidableEq

/-- A call of the decorator. -/
inductive Call where
  | mail (op : MailOp)
  | append (account mailbox : Str) (msg : Incoming)
  | createMailbox (account mailbox : Str)
  | deleteMailbox (account mailbox : Str)
  | renameMailbox (account oldName newName : Str)
  | setSubscribed (account mailbox : Str) (subscribed : Bool)
  | ensureDefaultMailboxes (account : Str)
  | deleteAccount (account : Str)
  | listMailboxes (account : Str)
  | mailboxStatus (account mailbox : Str)
  | listMessages (account mailbox : Str)
  | messageByUID (account mailbox : Str) (uid : Nat)
  | mailboxModSeq (account mailbox : Str)
  | expungedSince (account mailbox : Str) (since : Nat)
  | openMessage (account mailbox : Str) (uid : Nat)

/-- The account of a mailbox operation. -/
def MailOp.account : MailOp → Str
  | .deliver account _ _ => account
  | .setFlags account _ _ _ => account
  | .setFlagsBatch account _ _ => account
  | .expunge account _ _ => account
  | .deleteUIDs account _ _ => account
  | .copy account _ _ _ => account
  | .move account _ _ _ => account

/-- The mailboxes that the decorator takes a mailbox operation to write. -/
def MailOp.boxes : MailOp → List Str
  | .deliver _ mailbox _ => [mailbox]
  | .setFlags _ mailbox _ _ => [mailbox]
  | .setFlagsBatch _ mailbox _ => [mailbox]
  | .expunge _ mailbox _ => [mailbox]
  | .deleteUIDs _ mailbox _ => [mailbox]
  | .copy _ src dst _ => [src, dst]
  | .move _ src dst _ => [src, dst]

/-- The account of a call. -/
def Call.account : Call → Str
  | .mail op => op.account
  | .append account _ _ => account
  | .createMailbox account _ => account
  | .deleteMailbox account _ => account
  | .renameMailbox account _ _ => account
  | .setSubscribed account _ _ => account
  | .ensureDefaultMailboxes account => account
  | .deleteAccount account => account
  | .listMailboxes account => account
  | .mailboxStatus account _ => account
  | .listMessages account _ => account
  | .messageByUID account _ _ => account
  | .mailboxModSeq account _ => account
  | .expungedSince account _ _ => account
  | .openMessage account _ _ => account

/-- Run a program and return `r`. -/
def thenReturn {α : Type} (p : Op α) (r : Answer) : Op Answer := do
  let _ ← p
  pure r

/-- The call that is made to the wrapped mailstore. -/
def Call.prog (cfg : Config) : Call → Op Answer
  | .mail op => thenReturn (op.prog cfg) .passed
  | .append account mailbox msg => thenReturn (appendMessage cfg account mailbox msg) .passed
  | .createMailbox account mailbox => thenReturn (Mailstore.createMailbox account mailbox) .passed
  | .deleteMailbox account mailbox => thenReturn (Mailstore.deleteMailbox account mailbox) .passed
  | .renameMailbox account oldName newName =>
    thenReturn (Mailstore.renameMailbox account oldName newName) .passed
  | .setSubscribed account mailbox subscribed =>
    thenReturn (Mailstore.setSubscribed account mailbox subscribed) .passed
  | .ensureDefaultMailboxes account => thenReturn (Mailstore.ensureDefaultMailboxes cfg account) .passed
  | .deleteAccount account => thenReturn (Mailstore.deleteAccount account) .passed
  | .listMailboxes account => do pure (.mailboxes (← Mailstore.listMailboxes cfg account))
  | .mailboxStatus account mailbox => do pure (.status (← Mailstore.mailboxStatus account mailbox))
  | .listMessages account mailbox => do pure (.messages (← Mailstore.listMessages account mailbox))
  | .messageByUID account mailbox uid => do pure (.message (← Mailstore.messageByUID account mailbox uid))
  | .mailboxModSeq account mailbox => thenReturn (Mailstore.mailboxModSeq account mailbox) .passed
  | .expungedSince account mailbox since =>
    thenReturn (Mailstore.expungedSince account mailbox since) .passed
  | .openMessage account mailbox uid => thenReturn (Mailstore.openMessage account mailbox uid) .passed

/-! ### The decorator -/

/-- `Cached`: the wrapped mailstore and the memoized answers. -/
structure Cached where
  node : Node := {}
  memo : Str → Option Answer := fun _ => none

/-- What a call finds in the cache; `MessageByUID` looks through a memoized message list. -/
def Cached.hit (c : Cached) : Call → Option Answer
  | .listMailboxes account => c.memo (mboxesKey account)
  | .mailboxStatus account mailbox => c.memo (mboxKey account mailbox)
  | .listMessages account mailbox => c.memo (msgsKey account mailbox)
  | .messageByUID account mailbox uid =>
    match c.memo (msgsKey account mailbox) with
    | some (.messages msgs) => (msgs.find? (·.uid = uid)).map .message
    | _ => none
  | _ => none

/-- The key under which the answer of a call is memoized. -/
def Call.memoKey : Call → Option Str
  | .listMailboxes account => some (mboxesKey account)
  | .mailboxStatus account mailbox => some (mboxKey account mailbox)
  | .listMessages account mailbox => some (msgsKey account mailbox)
  | _ => none

/-- The entries that a successful call removes. -/
def Call.outdates : Call → List Str
  | .mail op => op.boxes.flatMap (boxKeys op.account)
  | .append account mailbox _ => boxKeys account mailbox
  | .createMailbox account _ => [mboxesKey account]
  | .deleteMailbox account mailbox => boxKeys account mailbox
  | .renameMailbox account oldName newName =>
    [mboxesKey account, msgsKey account oldName, msgsKey account newName, mboxKey account oldName,
      mboxKey account newName]
  | .setSubscribed account _ _ => [mboxesKey account]
  | .ensureDefaultMailboxes account => [mboxesKey account]
  | _ => []

/-- Remove entries. -/
def without (keys : List Str) (memo : Str → Option Answer) : Str → Option Answer :=
  fun k => if k ∈ keys then none else memo k

/-- The cache after the mailstore answered; `DeleteAccount` clears it whatever the answer. -/
def Call.settle (memo : Str → Option Answer) : Call → Except Err Answer → Str → Option Answer
  | .deleteAccount _, _ => fun _ => none
  | _, .error _ => memo
  | call, .ok ans =>
    match call.memoKey with
    | some key => Function.update memo key (some ans)
    | none => without call.outdates memo

/-- One call. -/
def Cached.call (cfg : Config) (c : Cached) (call : Call) : Cached × Except Err Answer :=
  match c.hit call with
  | some ans => (c, .ok ans)
  | none =>
    let r := (call.prog cfg).exec c.node
    (⟨r.1, call.settle c.memo r.2⟩, r.2)

/-- A call that the mailstore fails after some accesses; it returns an error. -/
def Cached.fail (cfg : Config) (c : Cached) (call : Call) (accesses : Nat) : Cached :=
  match c.hit call with
  | some _ => c
  | none => ⟨(call.prog cfg).cut accesses c.node, call.settle c.memo (.error .notFound)⟩

/-- What happens next: a call, a call that the mailstore fails, or time that passes. -/
inductive CacheAct where
  | call (call : Call)
  | fail (call : Call) (accesses : Nat)
  | tick (now : Nat)

/-- One action. -/
def Cached.step (cfg : Config) (c : Cached) : CacheAct → Cached
  | .call call => (c.call cfg call).1
  | .fail call accesses => c.fail cfg call accesses
  | .tick now => { c with node := c.node.setClock now }

end Mailezine.Mailstore
