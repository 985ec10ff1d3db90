import Mailezine.Queue.Message
import Mailezine.Schemes.Rows
import Mailezine.Schemes.Threads
import Mathlib.Data.Finset.Basic

/-! The outbound queue at work: managers that share one store.

    A thread is one call of a manager: a Submit, a worker of ProcessDue, a Retry, a Cancel or a prune.
    Each of its steps is one access to the clock, to the blob store or to the key-value store, so
    threads interleave between any two of them. On a store with native transactions a closure and its
    commit are one step; on a buffered one the closure runs on what it reads and its operations are
    applied in a later step, whatever has happened in between. A storage error or a crash ends a thread
    between two steps. The answers of `Deliver`, of blob reads and of the random generator are part of
    the action. -/

namespace Mailezine.Queue
open Gostd Schemes

/-! ### The store -/

/-- Rows of messages, the due index with its positions in Unix seconds, and the last message ID. -/
structure Table where
  rows : Std.ExtTreeMap Nat Message compare := ∅
  due : Finset (Int × Nat) := ∅
  counter : Nat := 0

/-- One operation on the row and the due entries of a message. -/
inductive Op where
  | putRow (msg : Message)
  | deleteRow
  | putDue (pos : Int)
  | deleteDue (pos : Int)

/-- Apply one operation for the message `id`; a row is what can be read back. -/
def Table.write (id : Nat) (t : Table) : Op → Table
  | .putRow msg => { t with rows := t.rows.insert id msg.json }
  | .deleteRow => { t with rows := t.rows.erase id }
  | .putDue pos => { t with due := insert (pos, id) t.due }
  | .deleteDue pos => { t with due := t.due.erase (pos, id) }

/-- Operations for the message `id`, applied together. -/
def Table.batch (t : Table) (id : Nat) (ops : List Op) : Table := ops.foldl (Table.write id) t

/-- A hexadecimal digit of `%x`. -/
def hexDigit (d : Nat) : UInt8 := UInt8.ofNat (if d < 10 then 0x30 + d else 0x57 + d)

/-- The digits of `%016x`, last first. -/
def hexDigits (n : Nat) : List Nat :=
  let digits := Nat.digits 16 n
  digits ++ List.replicate (16 - digits.length) 0

/-- The blob of a message: `q-%016x`. -/
def blobName (id : Nat) : Str := ascii "q-" ++ (hexDigits id).reverse.map hexDigit

/-- What happened, for the record. -/
inductive Event where
  | submitted (id : Nat)
  | claimed (id : Nat) (node : Str)
  | deliver (node : Str) (msg : Message) (rcpts : List Str) (body : Str)
  | committed (node : Str) (msg : Message)
  | retried (id : Nat)
  | cancelled (id : Nat)
  | delayed (id : Nat)
  deriving DecidableEq

/-- What the managers share: the table, the blobs, the clock, and the events, latest first. -/
structure Shared where
  table : Table := {}
  blobs : Std.ExtTreeMap Str Str compare := ∅
  clock : Int
  trace : List Event := []

/-- The row of a message. -/
def Shared.row (s : Shared) (id : Nat) : Option Message := s.table.rows[id]?

/-! ### Threads -/

/-- The arguments of `Submit`, the data signed. -/
structure Submission where
  sender : Str
  rcpts : List Str
  subject : Str
  data : Str

/-- The transactions on the row of a message, with what their closures captured. -/
inductive Call where
  | claim (id : Nat) (now : Int)
  | commit (msg : Message)
  | retry (id : Nat) (now : Int)
  | cancel (id : Nat)
  | prune (cutoff : Int) (id : Nat) (rest : List Nat)

/-- The message that a transaction is about. -/
def Call.id : Call → Nat
  | .claim id _ | .retry id _ | .cancel id | .prune _ id _ => id
  | .commit msg => msg.id

/-- Where a thread stands: what it does next. -/
inductive Phase where
  -- Submit: allocate the ID, put the blob and read the clock, save the row
  | naming (sub : Submission)
  | spooling (id : Nat) (sub : Submission)
  | queueing (id : Nat) (sub : Submission) (now : Int)
  -- processMessage: read the clock, claim, read the body, call Deliver, take its answer, commit
  | due (id : Nat)
  | reading (msg : Message)
  | handing (msg : Message) (body : Str)
  | delivering (msg : Message)
  -- after the commit: delete the blob, or decide on a warning and save it
  | reclaiming (msg : Message)
  | warning (msg : Message)
  | saving (msg : Message)
  -- Retry reads the clock, Cancel deletes the blob
  | retrying (id : Nat)
  | dropping (blob : Str)
  -- pruneTerminal: read the clock, scan, delete the blob of a pruned row
  | pruning
  | scanning (cutoff : Int)
  | sweeping (blob : Str) (cutoff : Int) (rest : List Nat)
  -- a transaction, and one whose closure saw a row and whose operations are still to be applied
  | txn (c : Call)
  | flush (c : Call) (seen : Option Message) (clock : Int)
  | finished

/-- One call of a manager. -/
structure Thread where
  mgr : Manager
  phase : Phase

/-- What a thread can be started on. -/
inductive Job where
  | submit (sub : Submission)
  | process (id : Nat)
  | retry (id : Nat)
  | cancel (id : Nat)
  | prune

/-- How a job starts; a Submit without recipients is refused at once. -/
def Job.phase : Job → Phase
  | .submit sub => if sub.rcpts = [] then .finished else .naming sub
  | .process id => .due id
  | .retry id => .retrying id
  | .cancel id => .txn (.cancel id)
  | .prune => .pruning

/-! ### Transactions -/

/-- What a closure leaves: operations, what they mean, and how the thread goes on. -/
structure Staged where
  ops : List Op
  events : List Event
  next : Phase

/-- The message as a claim at `now` leaves it. -/
def Message.taken (msg : Message) (m : Manager) (now : Int) : Message :=
  { msg with
    lastError := if msg.state = .active then ascii "claim expired" else msg.lastError
    state := .active
    owner := m.nodeID
    leaseUntil := now + m.opts.claimLease
    attempts := msg.attempts + 1 }

/-- The closure of `claim`. -/
def claimTxn (m : Manager) (now : Int) (cur : Message) : Staged :=
  if isTerminal cur.state then
    ⟨[.deleteDue (unix (duePos cur)), .deleteDue (unix cur.leaseUntil)], [], .finished⟩
  else if cur.state = .active ∧ now < cur.leaseUntil then ⟨[], [], .finished⟩
  else
    let msg := cur.taken m now
    ⟨[.putRow msg, .deleteDue (unix (duePos cur)), .putDue (unix msg.leaseUntil)],
      [.claimed cur.id m.nodeID], .reading msg⟩

/-- A row that the fence of `commitOutcome` lets pass. -/
def fence (node : Str) (cur : Message) : Bool := cur.state = .active && cur.owner = node

/-- How a worker goes on after its commit: reclaim the body of a terminal message, else see whether a
    delay warning is due. -/
def afterCommit (msg : Message) : Phase :=
  if isTerminal msg.state then .reclaiming msg
  else if msg.state = .deferred then .warning msg
  else .finished

/-- The closure of `commitOutcome`. -/
def commitTxn (m : Manager) (clock : Int) (msg cur : Message) : Staged :=
  if fence m.nodeID cur then
    let out := { msg with updatedAt := clock }
    ⟨.putRow out :: .deleteDue (unix msg.leaseUntil) ::
        (if isTerminal out.state then [] else [.putDue (unix (duePos out))]),
      [.committed m.nodeID out], afterCommit out⟩
  else ⟨[], [], .finished⟩

/-- The message as `Retry` leaves it. -/
def Message.requeued (msg : Message) (now : Int) : Message :=
  { msg with
    state := .queued, attempts := 0, nextAttempt := now, owner := [], leaseUntil := zeroTime,
    updatedAt := now }

/-- The closure of `Retry`; it refuses active and terminal messages. -/
def retryTxn (now : Int) (cur : Message) : Option Staged :=
  if cur.state = .active ∨ isTerminal cur.state then none
  else some
    ⟨[.putRow (cur.requeued now), .deleteDue (unix (duePos cur)), .putDue (unix now)],
      [.retried cur.id], .finished⟩

/-- The closure of `Cancel`; it refuses active messages. -/
def cancelTxn (cur : Message) : Option Staged :=
  if cur.state = .active then none
  else some
    ⟨[.deleteRow, .deleteDue (unix (duePos cur)), .deleteDue (unix cur.leaseUntil)], [.cancelled cur.id],
      if isTerminal cur.state then .finished else .dropping cur.blobID⟩

/-- The next message of a prune. -/
def pruneNext (cutoff : Int) : List Nat → Phase
  | [] => .finished
  | id :: rest => .txn (.prune cutoff id rest)

/-- The closure of one delete of `pruneTerminal`. -/
def pruneTxn (cutoff : Int) (rest : List Nat) (cur : Message) : Staged :=
  if ¬ isTerminal cur.state ∨ cutoff < cur.updatedAt then ⟨[], [], pruneNext cutoff rest⟩
  else
    ⟨.deleteRow :: .deleteDue (unix (duePos cur)) ::
        (if cur.leaseUntil = zeroTime then [] else [.deleteDue (unix cur.leaseUntil)]),
      [], if cur.blobID = [] then pruneNext cutoff rest else .sweeping cur.blobID cutoff rest⟩

/-- A transaction at the given time on the row it reads; none when it fails. -/
def Call.stage (c : Call) (m : Manager) (clock : Int) (row : Option Message) : Option Staged :=
  match row with
  | none => none
  | some cur =>
    match c with
    | .claim _ now => some (claimTxn m now cur)
    | .commit msg => some (commitTxn m clock msg cur)
    | .retry _ now => retryTxn now cur
    | .cancel _ => cancelTxn cur
    | .prune cutoff _ rest => some (pruneTxn cutoff rest cur)

/-- How a thread goes on when its transaction fails: a prune takes the next row. -/
def Call.failed : Call → Phase
  | .prune cutoff _ rest => pruneNext cutoff rest
  | .claim .. | .commit _ | .retry .. | .cancel _ => .finished

/-- Apply what a closure left. -/
def Shared.commit (s : Shared) (id : Nat) (st : Staged) : Shared :=
  { s with table := s.table.batch id st.ops, trace := st.events ++ s.trace }

/-- A transaction at the given time on the row it saw, committed now. -/
def Shared.transact (s : Shared) (m : Manager) (c : Call) (clock : Int) (seen : Option Message) :
    Shared × Phase :=
  match c.stage m clock seen with
  | none => (s, c.failed)
  | some st => (s.commit c.id st, st.next)

/-! ### The other steps -/

/-- The operations of `save`. -/
def saveOps (clock : Int) (msg : Message) (oldDue : Int) : List Op :=
  let out := { msg with updatedAt := clock }
  .putRow out ::
    if isTerminal out.state then [.deleteDue (unix oldDue)]
    else if oldDue = zeroTime then [.putDue (unix (duePos out))]
    else if oldDue ≠ duePos out then [.deleteDue (unix oldDue), .putDue (unix (duePos out))]
    else []

/-- The message that `Submit` queues. -/
def Submission.message (sub : Submission) (m : Manager) (id : Nat) (now : Int) : Message where
  id := id
  sender := sub.sender
  recipients := sub.rcpts.map fun a => ⟨a, .pending, []⟩
  subject := sub.subject
  blobID := blobName id
  size := sub.data.length
  state := .queued
  attempts := 0
  maxAttempts := m.opts.maxAttempts
  nextAttempt := now
  createdAt := now
  updatedAt := now

/-- Whether `maybeDelayWarning` sends a warning. -/
def warningDue (m : Manager) (now : Int) (msg : Message) : Bool :=
  m.warns && 0 < m.opts.delayWarning && m.opts.delayWarning ≤ now - msg.createdAt &&
    (msg.lastWarningAt = zeroTime || m.opts.delayWarning ≤ now - msg.lastWarningAt)

/-- Terminal rows that were last updated by `cutoff`. -/
def doomed (cutoff : Int) (t : Table) : List Nat :=
  (t.rows.toList.filter fun r => isTerminal r.2.state && r.2.updatedAt ≤ cutoff).map (·.2.id)

/-- What a step is told from outside. -/
structure Env where
  readable : Bool := true
  readErr : Str := ascii "not found"
  verdict : Except Str (List Result) := .ok []
  jitter : Int → Int := id

/-- Whether the store has transactions of its own or only a write buffer. -/
inductive Mode where
  | native | buffered
  deriving DecidableEq

/-- One step of a thread. -/
def advance (mode : Mode) (env : Env) (s : Shared) (m : Manager) : Phase → Shared × Phase
  | .naming sub =>
    -- serialized by the transaction, on a buffered store by the manager's mutex
    ({ s with table := { s.table with counter := s.table.counter + 1 } },
      .spooling (s.table.counter + 1) sub)
  | .spooling id sub =>
    ({ s with blobs := s.blobs.insert (blobName id) sub.data }, .queueing id sub s.clock)
  | .queueing id sub now =>
    (s.commit id ⟨saveOps s.clock (sub.message m id now) zeroTime, [.submitted id], .finished⟩,
      .finished)
  | .due id => (s, .txn (.claim id s.clock))
  | .reading msg =>
    match if env.readable then s.blobs[msg.blobID]? else none with
    | none =>
      let err := ascii "blob read: " ++ env.readErr
      (s, .txn (.commit (applyTransportFailure m s.clock env.jitter err msg)))
    | some body =>
      if pendingOf msg = [] then (s, .txn (.commit (finalizeState m s.clock env.jitter msg)))
      else (s, .handing msg body)
  | .handing msg body =>
    ({ s with trace := .deliver m.nodeID msg (pendingOf msg) body :: s.trace }, .delivering msg)
  | .delivering msg => (s, .txn (.commit (settle m s.clock env.jitter env.verdict msg)))
  | .reclaiming msg => ({ s with blobs := s.blobs.erase msg.blobID }, .finished)
  | .warning msg =>
    if warningDue m s.clock msg then (s, .saving { msg with lastWarningAt := s.clock })
    else (s, .finished)
  | .saving msg =>
    (s.commit msg.id ⟨saveOps s.clock msg msg.nextAttempt, [.delayed msg.id], .finished⟩, .finished)
  | .retrying id => (s, .txn (.retry id s.clock))
  | .dropping blob => ({ s with blobs := s.blobs.erase blob }, .finished)
  | .pruning =>
    if m.opts.terminalRetention ≤ 0 then (s, .finished)
    else (s, .scanning (s.clock - m.opts.terminalRetention))
  | .scanning cutoff => (s, pruneNext cutoff (doomed cutoff s.table))
  | .sweeping blob cutoff rest => ({ s with blobs := s.blobs.erase blob }, pruneNext cutoff rest)
  | .txn c =>
    match mode with
    | .native => s.transact m c s.clock (s.row c.id)
    | .buffered => (s, .flush c (s.row c.id) s.clock)
  | .flush c seen clock => s.transact m c clock seen
  | .finished => (s, .finished)

/-- The managers' threads on what they share. -/
abbrev World := System Shared Thread

/-- What can happen. -/
inductive Action where
  | tick (d : Nat)
  | start (m : Manager) (job : Job)
  | advance (i : Nat) (env : Env)
  | halt (i : Nat)

/-- A step of a thread, as a move of the system. -/
def Thread.step (mode : Mode) (env : Env) (s : Shared) (t : Thread) : Shared × Thread :=
  ((Queue.advance mode env s t.mgr t.phase).1, { t with phase := (Queue.advance mode env s t.mgr t.phase).2 })

/-- One step of the whole. -/
def step (mode : Mode) (w : World) : Action → World
  | .tick d => w.alter fun s => { s with clock := s.clock + d }
  | .start m job => w.spawn ⟨m, job.phase⟩
  | .advance i env => w.move i (Thread.step mode env)
  | .halt i => w.move i fun s t => (s, { t with phase := .finished })

/-- A run. -/
def run (mode : Mode) (w : World) (acts : List Action) : World := runs (step mode) w acts

/-- An empty queue at a time. -/
def idle (clock : Int) : World := ⟨{ clock := clock }, []⟩

end Mailezine.Queue
