import Mailezine.Queue.System

/-! What the transactions of the queue can do, said once.

    An effect is one way for a closure to end, with the row it read and what it left. The proofs about
    runs go through the effects and through the frame lemmas of the table. -/

namespace Mailezine.Queue
open Gostd Schemes List

/-! ### Effects -/

/-- The ways a closure can end on the row `cur`. -/
inductive Effect (m : Manager) (clock : Int) (cur : Message) : Call → Staged → Prop where
  | healed {id : Nat} {now : Int} (hterm : isTerminal cur.state = true) :
    Effect m clock cur (.claim id now)
      ⟨[.deleteDue (unix (duePos cur)), .deleteDue (unix cur.leaseUntil)], [], .finished⟩
  | busy {id : Nat} {now : Int} : Effect m clock cur (.claim id now) ⟨[], [], .finished⟩
  | claimed {id : Nat} {now : Int} (hterm : isTerminal cur.state = false)
      (hfree : cur.state = .active → cur.leaseUntil ≤ now) :
    Effect m clock cur (.claim id now)
      ⟨[.putRow (cur.taken m now), .deleteDue (unix (duePos cur)),
          .putDue (unix (cur.taken m now).leaseUntil)],
        [.claimed cur.id m.nodeID], .reading (cur.taken m now)⟩
  | lost {msg : Message} (hfence : fence m.nodeID cur = false) :
    Effect m clock cur (.commit msg) ⟨[], [], .finished⟩
  | committed {msg : Message} (hfence : fence m.nodeID cur = true) :
    Effect m clock cur (.commit msg) (commitTxn m clock msg cur)
  | retried {id : Nat} {now : Int} (hact : cur.state ≠ .active) (hterm : isTerminal cur.state = false) :
    Effect m clock cur (.retry id now)
      ⟨[.putRow (cur.requeued now), .deleteDue (unix (duePos cur)), .putDue (unix now)],
        [.retried cur.id], .finished⟩
  | cancelled {id : Nat} (hact : cur.state ≠ .active) :
    Effect m clock cur (.cancel id)
      ⟨[.deleteRow, .deleteDue (unix (duePos cur)), .deleteDue (unix cur.leaseUntil)], [.cancelled cur.id],
        if isTerminal cur.state then .finished else .dropping cur.blobID⟩
  | kept {cutoff : Int} {id : Nat} {rest : List Nat} :
    Effect m clock cur (.prune cutoff id rest) ⟨[], [], pruneNext cutoff rest⟩
  | pruned {cutoff : Int} {id : Nat} {rest : List Nat} (hterm : isTerminal cur.state = true) :
    Effect m clock cur (.prune cutoff id rest) (pruneTxn cutoff rest cur)

theorem effect_claim (m : Manager) (clock : Int) (cur : Message) (id : Nat) (now : Int) :
    Effect m clock cur (.claim id now) (claimTxn m now cur) := by
  unfold claimTxn
  cases hterm : isTerminal cur.state with
  | true => exact .healed hterm
  | false =>
    by_cases hlive : cur.state = .active ∧ now < cur.leaseUntil
    · simpa [hlive] using .busy
    · simp only [hlive, Bool.false_eq_true, if_false]
      exact .claimed hterm fun hact => Int.not_lt.mp fun hlt => hlive ⟨hact, hlt⟩

theorem effect_commit (m : Manager) (clock : Int) (cur msg : Message) :
    Effect m clock cur (.commit msg) (commitTxn m clock msg cur) := by
  cases hfence : fence m.nodeID cur with
  | true => exact .committed hfence
  | false =>
    simp only [commitTxn, hfence, Bool.false_eq_true, if_false]
    exact .lost hfence

theorem effect_prune (m : Manager) (clock : Int) (cur : Message) (cutoff : Int) (id : Nat)
    (rest : List Nat) : Effect m clock cur (.prune cutoff id rest) (pruneTxn cutoff rest cur) := by
  cases hterm : isTerminal cur.state with
  | true => exact .pruned hterm
  | false =>
    simp only [pruneTxn, hterm, Bool.false_eq_true, not_false_eq_true, true_or, if_true]
    exact .kept

variable {clock : Int} {m : Manager}

/-- A transaction that does not fail read a row and had one of the effects. -/
theorem effect_of_stage {c : Call} {row : Option Message} {st : Staged}
    (h : c.stage m clock row = some st) : ∃ cur, row = some cur ∧ Effect m clock cur c st := by
  cases row with
  | none => cases h
  | some cur =>
    refine ⟨cur, rfl, ?_⟩
    cases c with
    | claim id now => cases h; exact effect_claim m clock cur id now
    | commit msg => cases h; exact effect_commit m clock cur msg
    | retry id now =>
      simp only [Call.stage, retryTxn] at h
      split at h
      · cases h
      · cases h
        rename_i hno
        rw [not_or, Bool.not_eq_true] at hno
        exact .retried hno.1 hno.2
    | cancel id =>
      simp only [Call.stage, cancelTxn] at h
      split at h
      · cases h
      · cases h
        exact .cancelled ‹_›
    | prune cutoff id rest => cases h; exact effect_prune m clock cur cutoff id rest

/-! ### Frames -/

@[simp] theorem counter_write (t : Table) (id : Nat) (op : Op) : (t.write id op).counter = t.counter := by
  cases op <;> rfl

@[simp] theorem counter_batch (t : Table) (id : Nat) (ops : List Op) :
    (t.batch id ops).counter = t.counter := by
  induction ops generalizing t with
  | nil => rfl
  | cons op ops ih => exact (ih (t.write id op)).trans (counter_write t id op)

/-- Operations for one message leave the rows and the due entries of the others. -/
theorem batch_frame {id j : Nat} (h : id ≠ j) (ops : List Op) : ∀ t : Table,
    (t.batch id ops).rows[j]? = t.rows[j]? ∧ ∀ pos, (pos, j) ∈ (t.batch id ops).due ↔ (pos, j) ∈ t.due := by
  induction ops with
  | nil => exact fun t => ⟨rfl, fun _ => Iff.rfl⟩
  | cons op ops ih =>
    intro t
    obtain ⟨hrows, hdue⟩ := ih (t.write id op)
    have hop : (t.write id op).rows[j]? = t.rows[j]? ∧
        ∀ pos, (pos, j) ∈ (t.write id op).due ↔ (pos, j) ∈ t.due := by
      cases op <;> simp [Table.write, h, h.symm]
    exact ⟨hrows.trans hop.1, fun pos => (hdue pos).trans (hop.2 pos)⟩

theorem row_commit_of_ne {s : Shared} {id j : Nat} (h : id ≠ j) (st : Staged) :
    (s.commit id st).row j = s.row j :=
  (batch_frame h st.ops s.table).1

@[simp] theorem counter_commit (s : Shared) (id : Nat) (st : Staged) :
    (s.commit id st).table.counter = s.table.counter :=
  counter_batch _ _ _

/-- The row that operations leave in place of `row`. -/
def rowAfter (row : Option Message) : List Op → Option Message
  | [] => row
  | .putRow msg :: ops => rowAfter (some msg.json) ops
  | .deleteRow :: ops => rowAfter none ops
  | .putDue _ :: ops | .deleteDue _ :: ops => rowAfter row ops

theorem rows_batch (id : Nat) (ops : List Op) : ∀ t : Table,
    (t.batch id ops).rows[id]? = rowAfter (t.rows[id]?) ops := by
  induction ops with
  | nil => exact fun _ => rfl
  | cons op ops ih =>
    intro t
    refine (ih (t.write id op)).trans ?_
    cases op <;> simp [Table.write, rowAfter]

theorem row_commit (s : Shared) (id : Nat) (st : Staged) : (s.commit id st).row id = rowAfter (s.row id) st.ops :=
  rows_batch id st.ops s.table

theorem rowAfter_saveOps (row : Option Message) (clock : Int) (msg : Message) (oldDue : Int) :
    rowAfter row (saveOps clock msg oldDue) = some { msg with updatedAt := clock }.json := by
  simp only [saveOps, rowAfter]
  split
  · rfl
  · split
    · rfl
    · split <;> rfl

theorem rowAfter_commitTxn {msg cur : Message} (h : fence m.nodeID cur = true) (row : Option Message) :
    rowAfter row (commitTxn m clock msg cur).ops = some { msg with updatedAt := clock }.json := by
  simp only [commitTxn, h, if_true, rowAfter]
  split <;> rfl

/-- A row after a save: it was there, or it is the one that was saved. -/
theorem row_save {s : Shared} {id j : Nat} {clock oldDue : Int} {msg r : Message} {evs : List Event} {q : Phase}
    (h : (s.commit j ⟨saveOps clock msg oldDue, evs, q⟩).row id = some r) :
    s.row id = some r ∨ id = j ∧ r = { msg with updatedAt := clock }.json := by
  by_cases hid : j = id
  · subst hid
    rw [row_commit, rowAfter_saveOps] at h
    exact .inr ⟨rfl, (Option.some.inj h).symm⟩
  · exact .inl ((row_commit_of_ne hid _).symm.trans h)

/-- A row after a transaction. -/
theorem row_transact {s : Shared} {id j : Nat} {cur r : Message} {st : Staged} (hrow : s.row j = some cur)
    (h : (s.commit j st).row id = some r) : s.row id = some r ∨ id = j ∧ rowAfter (some cur) st.ops = some r := by
  by_cases hid : j = id
  · subst hid
    rw [row_commit, hrow] at h
    exact .inr ⟨rfl, h⟩
  · exact .inl ((row_commit_of_ne hid _).symm.trans h)

/-- A phase that is about no message. -/
inductive Phase.Idle : Phase → Prop where
  | finished : Idle .finished
  | retrying {id : Nat} : Idle (.retrying id)
  | pruning : Idle .pruning
  | scanning {cutoff : Int} : Idle (.scanning cutoff)
  | retry {id : Nat} {now : Int} : Idle (.txn (.retry id now))
  | cancel {id : Nat} : Idle (.txn (.cancel id))
  | prune {cutoff : Int} {id : Nat} {rest : List Nat} : Idle (.txn (.prune cutoff id rest))

theorem idle_pruneNext (cutoff : Int) (rest : List Nat) : (pruneNext cutoff rest).Idle := by
  cases rest <;> constructor

theorem idle_failed (c : Call) : c.failed.Idle := by
  cases c with
  | prune cutoff id rest => exact idle_pruneNext cutoff rest
  | _ => constructor

/-- What a transaction on the row `cur` comes to: the row that it leaves, what it records, and where its
    thread goes on. -/
inductive Ends (m : Manager) (clock : Int) (cur : Message) : Call → Option Message → List Event → Phase → Prop where
  | kept {c : Call} {p : Phase} (hidle : p.Idle) : Ends m clock cur c (some cur) [] p
  | claimed {id : Nat} {now : Int} (hterm : isTerminal cur.state = false)
      (hfree : cur.state = .active → cur.leaseUntil ≤ now) :
    Ends m clock cur (.claim id now) (some (cur.taken m now).json) [.claimed cur.id m.nodeID]
      (.reading (cur.taken m now))
  | committed {msg : Message} {p : Phase} (hfence : fence m.nodeID cur = true) (hterm : isTerminal msg.state = false)
      (hidle : p.Idle) : Ends m clock cur (.commit msg) (some { msg with updatedAt := clock }.json)
        [.committed m.nodeID { msg with updatedAt := clock }] p
  | ended {msg : Message} (hfence : fence m.nodeID cur = true) (hterm : isTerminal msg.state = true) :
    Ends m clock cur (.commit msg) (some { msg with updatedAt := clock }.json)
      [.committed m.nodeID { msg with updatedAt := clock }] (.reclaiming { msg with updatedAt := clock })
  | deferred {msg : Message} (hfence : fence m.nodeID cur = true) (hstate : msg.state = .deferred) :
    Ends m clock cur (.commit msg) (some { msg with updatedAt := clock }.json)
      [.committed m.nodeID { msg with updatedAt := clock }] (.warning { msg with updatedAt := clock })
  | retried {id : Nat} {now : Int} (hact : cur.state ≠ .active) (hterm : isTerminal cur.state = false) :
    Ends m clock cur (.retry id now) (some (cur.requeued now).json) [.retried cur.id] .finished
  | cancelled {id : Nat} {p : Phase} (hact : cur.state ≠ .active) (hidle : p.Idle) :
    Ends m clock cur (.cancel id) none [.cancelled cur.id] p
  | dropped {id : Nat} (hact : cur.state ≠ .active) :
    Ends m clock cur (.cancel id) none [.cancelled cur.id] (.dropping cur.blobID)
  | pruned {cutoff : Int} {id : Nat} {rest : List Nat} {p : Phase} (hterm : isTerminal cur.state = true)
      (hidle : p.Idle) : Ends m clock cur (.prune cutoff id rest) none [] p
  | swept {cutoff : Int} {id : Nat} {rest : List Nat} (hterm : isTerminal cur.state = true) :
    Ends m clock cur (.prune cutoff id rest) none [] (.sweeping cur.blobID cutoff rest)

theorem Effect.ends {cur : Message} {c : Call} {st : Staged} (he : Effect m clock cur c st) :
    Ends m clock cur c (rowAfter (some cur) st.ops) st.events st.next := by
  cases he with
  | healed | busy | lost => exact .kept .finished
  | kept => exact .kept (idle_pruneNext _ _)
  | claimed hterm hfree => exact .claimed hterm hfree
  | @committed msg hf =>
    simp only [commitTxn, hf, if_true, rowAfter, afterCommit]
    split
    case isTrue hterm => exact .ended hf hterm
    case isFalse hterm =>
      split
      case isTrue hstate => exact .deferred hf hstate
      case isFalse => exact .committed hf (by simpa using hterm) .finished
  | retried hact hterm => exact .retried hact hterm
  | cancelled hact =>
    dsimp only
    split
    · exact .cancelled hact .finished
    · exact .dropped hact
  | @pruned cutoff id rest hterm =>
    unfold pruneTxn
    split
    · exact .kept (idle_pruneNext cutoff rest)
    · have hrow : rowAfter (some cur) (.deleteRow :: .deleteDue (unix (duePos cur)) ::
          (if cur.leaseUntil = zeroTime then [] else [.deleteDue (unix cur.leaseUntil)])) = none := by
        simp only [rowAfter]
        split <;> rfl
      simp only [hrow]
      split
      · exact .pruned hterm (idle_pruneNext cutoff rest)
      · exact .swept hterm

/-! ### Changes -/

/-- What a step of a thread can do to the rows and the record, when flushes apply to what was seen. -/
inductive Change (s : Shared) (m : Manager) : Phase → Shared → Prop where
  | quiet {p : Phase} {s' : Shared} (hrow : ∀ id, s'.row id = s.row id) (htrace : s'.trace = s.trace)
      (hclock : s'.clock = s.clock) (hcount : s.table.counter ≤ s'.table.counter) : Change s m p s'
  | handed {msg : Message} {body : Str} : Change s m (.handing msg body)
      { s with trace := .deliver m.nodeID msg (pendingOf msg) body :: s.trace }
  | submitted {id : Nat} {sub : Submission} {now : Int} : Change s m (.queueing id sub now)
      (s.commit id ⟨saveOps s.clock (sub.message m id now) zeroTime, [.submitted id], .finished⟩)
  | warned {msg : Message} : Change s m (.saving msg)
      (s.commit msg.id ⟨saveOps s.clock msg msg.nextAttempt, [.delayed msg.id], .finished⟩)
  | transacted {p : Phase} {c : Call} {clock : Int} {cur : Message} {st : Staged}
      (hp : p = .txn c ∨ ∃ seen clk, p = .flush c seen clk) (hrow : s.row c.id = some cur)
      (he : Effect m clock cur c st) : Change s m p (s.commit c.id st)

/-- A flush applies to the row that its closure saw. -/
def Sees (s : Shared) (p : Phase) : Prop := ∀ c seen clock, p = .flush c seen clock → s.row c.id = seen

/-- A step of a thread: what it does and where it leads. A flush may apply to a row that it did not see. -/
inductive Leads (env : Env) (s : Shared) (m : Manager) : Phase → Shared → Phase → Prop where
  | rests {p p' : Phase} (hidle : p'.Idle) : Leads env s m p s p'
  | named {sub : Submission} : Leads env s m (.naming sub)
      { s with table := { s.table with counter := s.table.counter + 1 } } (.spooling (s.table.counter + 1) sub)
  | spooled {id : Nat} {sub : Submission} : Leads env s m (.spooling id sub)
      { s with blobs := s.blobs.insert (blobName id) sub.data } (.queueing id sub s.clock)
  | submitted {id : Nat} {sub : Submission} {now : Int} : Leads env s m (.queueing id sub now)
      (s.commit id ⟨saveOps s.clock (sub.message m id now) zeroTime, [.submitted id], .finished⟩) .finished
  | due {id : Nat} : Leads env s m (.due id) s (.txn (.claim id s.clock))
  | opened {msg : Message} {body : Str} : Leads env s m (.reading msg) s (.handing msg body)
  | settled {p : Phase} {msg out : Message} (hp : p = .reading msg ∨ p = .delivering msg)
      (hout : (∃ err, out = applyTransportFailure m s.clock env.jitter err msg) ∨
        out = finalizeState m s.clock env.jitter msg ∨ out = settle m s.clock env.jitter env.verdict msg) :
    Leads env s m p s (.txn (.commit out))
  | handed {msg : Message} {body : Str} : Leads env s m (.handing msg body)
      { s with trace := .deliver m.nodeID msg (pendingOf msg) body :: s.trace } (.delivering msg)
  | erased {p p' : Phase} {blob : Str} (hidle : p'.Idle) (hp : (∃ msg, p = .reclaiming msg ∧ msg.blobID = blob) ∨
      p = .dropping blob ∨ ∃ cutoff rest, p = .sweeping blob cutoff rest) :
    Leads env s m p { s with blobs := s.blobs.erase blob } p'
  | warns {msg : Message} : Leads env s m (.warning msg) s (.saving { msg with lastWarningAt := s.clock })
  | warned {msg : Message} : Leads env s m (.saving msg)
      (s.commit msg.id ⟨saveOps s.clock msg msg.nextAttempt, [.delayed msg.id], .finished⟩) .finished
  | staged {c : Call} : Leads env s m (.txn c) s (.flush c (s.row c.id) s.clock)
  | transacted {p : Phase} {c : Call} {clock : Int} {cur : Message} {st : Staged}
      (hp : p = .txn c ∨ ∃ seen clk, p = .flush c seen clk)
      (hrow : Sees s p → s.row c.id = some cur)
      (he : Effect m clock cur c st) : Leads env s m p (s.commit c.id st) st.next

theorem outcome_of_settled {env : Env} {msg out : Message}
    (h : (∃ err, out = applyTransportFailure m clock env.jitter err msg) ∨
      out = finalizeState m clock env.jitter msg ∨ out = settle m clock env.jitter env.verdict msg) : Outcome msg out := by
  rcases h with ⟨err, rfl⟩ | rfl | rfl
  · exact outcome_applyTransportFailure ..
  · exact outcome_finalizeState ..
  · exact outcome_settle ..

variable {s s' : Shared} {p p' : Phase}

theorem leads_transact {env : Env} {c : Call} {seen : Option Message} (clock : Int)
    (hp : p = .txn c ∨ ∃ seen clk, p = .flush c seen clk)
    (hrow : Sees s p → s.row c.id = seen) :
    Leads env s m p (s.transact m c clock seen).1 (s.transact m c clock seen).2 := by
  unfold Shared.transact
  cases hst : c.stage m clock seen with
  | none => exact .rests (idle_failed c)
  | some st =>
    obtain ⟨cur, rfl, he⟩ := effect_of_stage hst
    exact .transacted hp hrow he

theorem leads_advance (mode : Mode) (env : Env) (s : Shared) (m : Manager) (p : Phase) :
    Leads env s m p (advance mode env s m p).1 (advance mode env s m p).2 := by
  cases p with
  | naming => exact .named
  | spooling => exact .spooled
  | queueing => exact .submitted
  | due => exact .due
  | reading msg =>
    simp only [advance]
    split
    · exact .settled (.inl rfl) (.inl ⟨_, rfl⟩)
    · split
      · exact .settled (.inl rfl) (.inr (.inl rfl))
      · exact .opened
  | handing => exact .handed
  | delivering => exact .settled (.inr rfl) (.inr (.inr rfl))
  | reclaiming => exact .erased .finished (.inl ⟨_, rfl, rfl⟩)
  | warning =>
    simp only [advance]
    split
    · exact .warns
    · exact .rests .finished
  | saving => exact .warned
  | retrying => exact .rests .retry
  | dropping => exact .erased .finished (.inr (.inl rfl))
  | pruning =>
    simp only [advance]
    split
    · exact .rests .finished
    · exact .rests .scanning
  | scanning => exact .rests (idle_pruneNext _ _)
  | sweeping => exact .erased (idle_pruneNext _ _) (.inr (.inr ⟨_, _, rfl⟩))
  | txn c =>
    cases mode with
    | native => exact leads_transact s.clock (.inl rfl) fun _ => rfl
    | buffered => exact .staged
  | flush c seen clock => exact leads_transact clock (.inr ⟨_, _, rfl⟩) fun h => h c seen clock rfl
  | finished => exact .rests .finished

theorem Leads.change {env : Env} (h : Leads env s m p s' p') (hsees : Sees s p) : Change s m p s' := by
  cases h with
  | rests | due | opened | settled | warns | staged | spooled | erased => exact .quiet (fun _ => rfl) rfl rfl le_rfl
  | named => exact .quiet (fun _ => rfl) rfl rfl (Nat.le_succ _)
  | submitted => exact .submitted
  | handed => exact .handed
  | warned => exact .warned
  | transacted hp hrow he => exact .transacted hp (hrow hsees) he

theorem Change.counter_le (hc : Change s m p s') :
    s.table.counter ≤ s'.table.counter := by
  cases hc with
  | quiet _ _ _ hcount => exact hcount
  | handed => exact le_rfl
  | submitted | warned | transacted => exact le_of_eq (counter_commit ..).symm

/-! ### Blob names -/

/-- The value of a hexadecimal digit. -/
def unhexDigit (b : UInt8) : Nat := if b < 0x3a then b.toNat - 0x30 else b.toNat - 0x57

theorem unhexDigit_hexDigit : ∀ d < 16, unhexDigit (hexDigit d) = d := by decide

theorem hexDigits_lt {n d : Nat} (h : d ∈ hexDigits n) : d < 16 := by
  rcases mem_append.mp h with hd | hd
  · exact Nat.digits_lt_base (by decide) hd
  · rw [(mem_replicate.mp hd).2]
    decide

theorem blobName_inj {a b : Nat} (h : blobName a = blobName b) : a = b := by
  have hback : ∀ n, ((hexDigits n).reverse.map hexDigit).map unhexDigit = (hexDigits n).reverse := by
    intro n
    rw [List.map_map]
    have hid : ∀ d ∈ (hexDigits n).reverse, (unhexDigit ∘ hexDigit) d = id d := fun d hd =>
      unhexDigit_hexDigit d (hexDigits_lt (mem_reverse.mp hd))
    rw [map_congr_left hid, List.map_id]
  have hrev : (hexDigits a).reverse = (hexDigits b).reverse := by
    rw [← hback a, ← hback b, append_cancel_left h]
  have hval := congrArg (Nat.ofDigits 16) (reverse_injective hrev)
  simpa [hexDigits, Nat.ofDigits_append_replicate_zero, Nat.ofDigits_digits] using hval

end Mailezine.Queue
