import Mailezine.Mailstore.Message
import Mathlib.Data.List.Sort
import Mathlib.Data.List.Dedup

/-! The IMAP session of `internal/imap` and the diff of `session.Poll`.

    A session keeps the listing of its selected mailbox that it last reported to the client (`snap`)
    and the mailbox modseq captured with it. The diff is a pure function of the snapshot and of a
    fresh listing; it answers with the untagged responses it writes and the session it leaves. -/

namespace Mailezine.Imap
open Mailstore

/-- `session`: the fields the message commands use. `snap` is set by SELECT, so it is never Go's nil
    list while a mailbox is selected; `mbox` is empty when none is. -/
structure Session where
  user : Str
  mbox : Str := []
  readOnly : Bool := false
  uidvalidity : Nat := 0
  snap : List Message := []
  snapModSeq : Nat := 0
  modseqGated : Bool := false
  deriving DecidableEq

/-- The untagged responses that change what the client knows of its messages. -/
inductive Response where
  | numMessages (n : Nat)
  | messageFlags (seq uid : Nat) (flags : List Str)
  | expunge (seq : Nat)
  | vanished (uids : List Nat)
  deriving DecidableEq

/-- The order in which Go's `range` visits the keys of a map: any permutation, for each loop. -/
structure MapOrder where
  run : Nat → List Nat → List Nat
  perm : ∀ loop keys, (run loop keys).Perm keys

/-- Keys in the order they were first added. -/
def MapOrder.inserted : MapOrder := ⟨fun _ keys => keys, fun _ _ => .rfl⟩

/-- `flagSetEqual`: equal lengths and every flag of `a` in `b`. -/
def flagSetEqual (a b : List Str) : Bool := a.length = b.length && a.all (b.contains ·)

/-- `sameFlags`. -/
def sameFlags (a b : Message) : Bool :=
  flagSetEqual a.flags b.flags && flagSetEqual a.keywords b.keywords

/-- The map from UID to message that a loop over `msgs` fills; the last entry of a UID stays. -/
def byUID (msgs : List Message) (uid : Nat) : Option Message := msgs.reverse.find? (·.uid = uid)

/-- The map from UID to sequence number that the same loop fills. -/
def seqOf (msgs : List Message) (uid : Nat) : Option Nat :=
  ((msgs.zipIdx 1).reverse.find? (·.1.uid = uid)).map (·.2)

/-- The keys of these maps. -/
def uidKeys (msgs : List Message) : List Nat := (msgs.map (·.uid)).dedup

/-- The sequence number written for a UID, 0 (Go's zero value) for an unknown one. -/
def seqIn (msgs : List Message) (uid : Nat) : Nat := (seqOf msgs uid).getD 0

/-- `Poll`'s EXISTS, written when the mailbox grew. -/
def pollExists (snap current : List Message) : List Response :=
  if current.length > snap.length then [.numMessages current.length] else []

/-- `Poll`'s FLAGS update for one UID of the current listing. -/
def pollFlag (snap current : List Message) (uid : Nat) : Option Response :=
  match byUID snap uid, byUID current uid with
  | some o, some m =>
    if sameFlags o m then none
    else (seqOf snap uid).map fun seq => .messageFlags seq uid m.flags
  | _, _ => none

/-- The snapshot's UIDs that the current listing lacks. -/
def pollRemoved (order : MapOrder) (snap current : List Message) : List Nat :=
  (order.run 1 (uidKeys snap)).filter fun uid => (byUID current uid).isNone

/-- The expunges: EXPUNGE in descending sequence order, or one VANISHED for a QRESYNC client. -/
def expungeResponses (qresync : Bool) (snap : List Message) (removed : List Nat) : List Response :=
  if qresync then
    if removed = [] then [] else [.vanished (removed.insertionSort (· ≤ ·))]
  else (removed.insertionSort fun a b => seqIn snap a ≥ seqIn snap b).map
    fun uid => .expunge (seqIn snap uid)

/-- Whether `Poll` stops at its version check; `ver` is what `MailboxModSeq` reported. -/
def Session.upToDate (s : Session) (ver : Option Nat) : Bool :=
  s.modseqGated && ver = some s.snapModSeq

/-- The session after it adopted a listing, with the version captured before it (if any). -/
def Session.adopt (s : Session) (ver : Option Nat) (current : List Message) : Session :=
  { s with snap := current, snapModSeq := ver.getD s.snapModSeq }

/-- `Poll` on the version and the listing it reads. -/
def Session.poll (order : MapOrder) (qresync allowExpunge : Bool) (s : Session) (ver : Option Nat)
    (current : List Message) : Session × List Response :=
  if s.mbox = [] ∨ s.upToDate ver then (s, [])
  else
    let removed := pollRemoved order s.snap current
    let updates := pollExists s.snap current ++
      (order.run 0 (uidKeys current)).filterMap (pollFlag s.snap current)
    if allowExpunge then
      (s.adopt ver current, updates ++ expungeResponses qresync s.snap removed)
    -- a pending expunge is not reported in this round: the old snapshot replays it in the next
    else if removed = [] then (s.adopt ver current, updates)
    else (s, updates)

end Mailezine.Imap
