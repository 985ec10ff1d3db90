import Mailezine.Imap.Server

/-! The message commands of `internal/imap`: EXPUNGE, COPY and MOVE.

    Every command resolves its set against the session snapshot it starts with and then calls the
    mailstore, which knows nothing of the snapshot. -/

namespace Mailezine.Imap
open Gostd Schemes Store Mailstore Imapnum

/-! ### Number sets and snapshots -/

/-- The snapshot with its sequence numbers. -/
def numbered (snap : List Message) : List (Message × Nat) := snap.zipIdx 1

/-- The highest UID of the snapshot, as the commands compute it. -/
def maxUID (snap : List Message) : Nat := (snap.getLast?.map (·.uid)).getD 0

/-- The set matches this message of the snapshot. -/
def matched (snap : List Message) (set : NumSet) (m : Message × Nat) : Bool :=
  numMatches set m.2 m.1.uid snap.length (maxUID snap)

/-- `resolveUIDs`. -/
def resolveUIDs (s : Session) (set : NumSet) : List Nat :=
  ((numbered s.snap).filter (matched s.snap set)).map (·.1.uid)

/-- The EXPUNGE or VANISHED responses for UIDs that are gone, in the order `uids` lists them; EXPUNGE
    goes from the last to the first, by the snapshot's sequence numbers. -/
def goneResponses (qresync : Bool) (snap : List Message) (uids : List Nat) : List Response :=
  if qresync then if uids = [] then [] else [.vanished (uids.insertionSort (· ≤ ·))]
  else (uids.reverse.filterMap (seqOf snap)).map .expunge

/-! ### EXPUNGE, COPY and MOVE -/

/-- The UID list of `Expunge`: for UID EXPUNGE the snapshot's messages in the set that have
    `\Deleted` there. -/
def expungeList (s : Session) (uids : Option (List Range)) : List Nat :=
  match uids with
  | none => []
  | some set => (s.snap.filter fun m => contains set m.uid && hasFlag m.flags flagDeleted).map (·.uid)

/-- `Expunge`. -/
def expunge (qresync : Bool) (s : Session) (uids : Option (List Range)) : Cmd Unit := do
  let deleted ← call (Mailstore.expunge s.user s.mbox (expungeList s uids))
  if deleted = [] then pure ()
  else do
    refreshSnapshot s
    own (·.emit (goneResponses qresync s.snap deleted))

/-- `CopyData`: UIDVALIDITY of the destination and the UID mapping. -/
structure CopyData where
  uidValidity : Nat
  mapping : List (Nat × Nat)
  deriving DecidableEq

/-- `Copy`. -/
def copy (cfg : Config) (s : Session) (set : NumSet) (dest : Str) : Cmd CopyData := do
  let mapping ← call (Mailstore.copy cfg s.user s.mbox dest (resolveUIDs s set))
  let st ← call (mailboxStatus s.user dest)
  pure ⟨st.1.uidValidity, mapping⟩

/-- `Move`. -/
def move (cfg : Config) (qresync : Bool) (s : Session) (set : NumSet) (dest : Str) : Cmd CopyData := do
  let mapping ← call (Mailstore.move cfg s.user s.mbox dest (resolveUIDs s set))
  if mapping = [] then do
    let st ← call (mailboxStatus s.user dest)
    pure ⟨st.1.uidValidity, mapping⟩
  else do
    refreshSnapshot s
    let st ← call (mailboxStatus s.user dest)
    own (·.emit (goneResponses qresync s.snap ((mapping.map (·.1)).insertionSort (· ≤ ·))))
    pure ⟨st.1.uidValidity, mapping⟩

end Mailezine.Imap
