import Mailezine.Queue.Effect

/-! Claims on messages: the row of an active message is the claim of its worker.

    A worker that has claimed a message keeps a copy of the row. As long as nobody else may have
    stolen the claim, the row is that copy; once it is stolen, the fence of `commitOutcome` turns the
    worker away for good. Along the way the due index has exactly one entry for each message that is
    not terminal, because every transaction that moves an entry knows where it is. -/

namespace Mailezine.Queue
open Gostd Schemes

/-! ### Workers -/

/-- The copy of a worker between its claim and its commit. -/
def Phase.holding : Phase → Option Message
  | .reading msg | .handing msg _ | .delivering msg | .txn (.commit msg) | .flush (.commit msg) _ _ =>
    some msg
  | _ => none

/-- The message of a worker up to its commit. -/
def Phase.working : Phase → Option Nat
  | .due id | .txn (.claim id _) | .flush (.claim id _) _ _ => some id
  | .reading msg | .handing msg _ | .delivering msg | .txn (.commit msg) | .flush (.commit msg) _ _ =>
    some msg.id
  | _ => none

/-- The message of a Submit that has its ID and has not saved the row. -/
def Phase.submitting : Phase → Option Nat
  | .spooling id _ | .queueing id _ _ => some id
  | _ => none

/-! ### Rules for runs -/

/-- A worker starts on a message only when there is no other: none of the same node, or on a store
    that only one manager uses (`many = false`) none at all; and its node ID is text. -/
def solo (many : Bool) (w : World) : Action → Bool
  | .start m (.process id) => decide (coerceUTF8 m.nodeID = m.nodeID) && w.threads.all fun u =>
      decide (u.phase.working ≠ some id) || many && decide (u.mgr.nodeID ≠ m.nodeID)
  | _ => true

/-- The row is the given message as it would be written, the two fields of a warning apart. -/
def agrees (row : Option Message) (msg : Message) : Bool :=
  row.any fun r => r = { msg.json with lastWarningAt := r.lastWarningAt, updatedAt := r.updatedAt }

variable {msg : Message} {env : Env} {w : World} {id : Nat} {t : Table}

theorem row_of_agrees {row : Option Message} (h : agrees row msg = true) :
    ∃ r, row = some r ∧ r = { msg.json with lastWarningAt := r.lastWarningAt, updatedAt := r.updatedAt } := by
  cases row with
  | none => cases h
  | some r => exact ⟨r, rfl, of_decide_eq_true h⟩

/-- A delay warning is saved only over the row that it was decided on. -/
def harmless (w : World) : Action → Bool
  | .advance i _ =>
    match w.threads[i]? with
    | some ⟨_, .saving msg⟩ => agrees (w.shared.row msg.id) msg
    | _ => true
  | _ => true

/-- On a buffered store, operations are applied only to the row that their closure saw. -/
def undisturbed (w : World) : Action → Bool
  | .advance i _ =>
    match w.threads[i]? with
    | some ⟨_, .flush c seen _⟩ => w.shared.row c.id = seen
    | _ => true
  | _ => true

/-- A warning is saved over the row that it was decided on. -/
def Saves (s : Shared) (p : Phase) : Prop := ∀ msg, p = .saving msg → agrees (s.row msg.id) msg = true

theorem saves_of_harmless {i : Nat} {t : Thread} (h : harmless w (.advance i env) = true)
    (ht : w.threads[i]? = some t) : Saves w.shared t.phase := by
  intro msg hp
  rcases t with ⟨m, p⟩
  subst hp
  simpa [harmless, ht] using h

theorem sees_of_undisturbed {i : Nat} {t : Thread} (h : undisturbed w (.advance i env) = true)
    (ht : w.threads[i]? = some t) : Sees w.shared t.phase := by
  intro c seen clock hp
  rcases t with ⟨m, p⟩
  subst hp
  simpa [undisturbed, ht] using h

/-- The rules under which claims and index are kept. -/
def careful (many : Bool) (w : World) (a : Action) : Bool :=
  solo many w a && harmless w a && undisturbed w a

/-! ### The due index -/

/-- Where the due index should have an entry for a row. -/
def indexed (row : Option Message) : Option Int :=
  row.bind fun r => if isTerminal r.state then none else some (unix (duePos r))

/-- The due index has the entry of a message and no other for it. -/
def Exact (t : Table) (id : Nat) : Prop := ∀ pos, (pos, id) ∈ t.due ↔ indexed (t.rows[id]?) = some pos

theorem indexed_json (msg : Message) : indexed (some msg.json) = indexed (some msg) := rfl

/-- Entries of other messages are not touched. -/
theorem Exact.frame {j : Nat} (h : Exact t j) (hne : id ≠ j) (ops : List Op) : Exact (t.batch id ops) j := by
  obtain ⟨hrows, hdue⟩ := batch_frame hne ops t
  intro pos
  rw [hdue, hrows]
  exact h pos

/-- Moving an entry from where it is. -/
theorem Exact.moved {old : Int} (msg : Message) (h : Exact t id)
    (hold : ∀ pos, indexed (t.rows[id]?) = some pos → pos = old) (hterm : isTerminal msg.state = false) :
    Exact (t.batch id [.putRow msg, .deleteDue old, .putDue (unix (duePos msg))]) id := by
  intro pos
  have hnew : indexed (some msg.json) = some (unix (duePos msg)) := by
    rw [indexed_json, indexed, Option.bind_some, if_neg (by simp [hterm])]
  simp only [Table.batch, Table.write, List.foldl_cons, List.foldl_nil, getElem?_insert_row, if_true, hnew,
    Finset.mem_insert, Finset.mem_erase, Prod.mk.injEq, and_true, Option.some.injEq]
  constructor
  · rintro (rfl | ⟨hne, hin⟩)
    · rfl
    · exact absurd (by rw [hold pos ((h pos).mp hin)]) hne
  · rintro rfl
    exact .inl rfl

/-- Operations that delete the entry and write none leave none. -/
theorem Exact.dropped {ops : List Op} (h : Exact t id) (hnone : indexed (rowAfter (t.rows[id]?) ops) = none)
    (hput : ∀ pos, .putDue pos ∉ ops)
    (hold : ∀ pos, indexed (t.rows[id]?) = some pos → .deleteDue pos ∈ ops) : Exact (t.batch id ops) id := by
  have hdue : ∀ (ops : List Op) (t : Table), (∀ pos, .putDue pos ∉ ops) → ∀ pos,
      (pos, id) ∈ (t.batch id ops).due → (pos, id) ∈ t.due ∧ .deleteDue pos ∉ ops := by
    intro ops
    induction ops with
    | nil => exact fun t _ pos hin => ⟨hin, by simp⟩
    | cons op ops ih =>
      intro t hput pos hin
      obtain ⟨hin, hout⟩ := ih (t.write id op) (fun p hp => hput p (by simp [hp])) pos hin
      cases op with
      | putRow | deleteRow => exact ⟨hin, by simpa using hout⟩
      | putDue p => exact absurd (by simp) (hput p)
      | deleteDue p =>
        obtain ⟨hne, hin⟩ := Finset.mem_erase.mp hin
        exact ⟨hin, by simpa [hout] using fun he => hne (by rw [he])⟩
  intro pos
  rw [rows_batch, hnone]
  constructor
  · intro hin
    obtain ⟨hin, hout⟩ := hdue ops t hput pos hin
    exact absurd (hold pos ((h pos).mp hin)) hout
  · intro he
    cases he

/-- A new message has its entry. -/
theorem Exact.created (h : Exact t id) (hnone : t.rows[id]? = none) (hterm : isTerminal msg.state = false) :
    Exact (t.batch id [.putRow msg, .putDue (unix (duePos msg))]) id := by
  intro pos
  have hnew : indexed (some msg.json) = some (unix (duePos msg)) := by
    rw [indexed_json, indexed, Option.bind_some, if_neg (by simp [hterm])]
  have hold : (pos, id) ∉ t.due := fun hin => by simpa [hnone, indexed] using (h pos).mp hin
  simp [Table.batch, Table.write, hnew, hold, eq_comm]

/-- A row that is written anew with the same position, with or without its entry. -/
theorem Exact.rewritten {pos : Int} (h : Exact t id)
    (hold : indexed (t.rows[id]?) = some pos) (hnew : indexed (some msg) = some pos) :
    Exact (t.batch id [.putRow msg]) id ∧ Exact (t.batch id [.putRow msg, .putDue pos]) id := by
  have hin : (pos, id) ∈ t.due := (h pos).mpr hold
  have hput : Exact (t.batch id [.putRow msg]) id := fun p => by
    have hrow : (t.batch id [.putRow msg]).rows[id]? = some msg.json := by simp [Table.batch, Table.write]
    rw [hrow, indexed_json, hnew, ← hold]
    exact h p
  refine ⟨hput, ?_⟩
  have hsame : t.batch id [.putRow msg, .putDue pos] = t.batch id [.putRow msg] := by
    simp [Table.batch, Table.write, Finset.insert_eq_self.mpr hin]
  rwa [hsame]

/-! ### What the copy of a worker is worth -/

/-- The row is still what the worker wrote when it claimed the message. -/
def Claimed (s : Shared) (node : Str) (msg : Message) : Prop :=
  s.row msg.id = some msg.json ∧ msg.state = .active ∧ msg.owner = node

/-- The claim may have run out, and the fence turns the worker away. -/
def Lost (s : Shared) (node : Str) (msg : Message) : Prop :=
  msg.leaseUntil ≤ s.clock ∧ ∀ cur, s.row msg.id = some cur → fence node cur = false

/-- A worker has its claim, or where there are several managers it may have lost it. -/
def Held (many : Bool) (s : Shared) (node : Str) (msg : Message) : Prop :=
  Claimed s node msg ∨ many = true ∧ Lost s node msg

/-- The node ID survives `encoding/json`. -/
def Manager.Text (m : Manager) : Prop := coerceUTF8 m.nodeID = m.nodeID

/-- What a thread can rely on. -/
def Backed (many : Bool) (s : Shared) (m : Manager) : Phase → Prop
  | .due _ => m.Text
  | .txn (.claim _ now) | .flush (.claim _ now) _ _ => m.Text ∧ now ≤ s.clock
  | .reading msg | .handing msg _ | .delivering msg => m.Text ∧ Held many s m.nodeID msg
  | .txn (.commit out) | .flush (.commit out) _ _ =>
    m.Text ∧ ∃ msg, Outcome msg out ∧ Held many s m.nodeID msg
  | .warning msg | .saving msg => msg.state = .deferred
  | .spooling id _ | .queueing id _ _ => s.row id = none ∧ id ≤ s.table.counter
  | _ => True

/-- Threads that do not get into each other's way. -/
structure Apart (many : Bool) (t u : Thread) : Prop where
  workers : ∀ id, t.phase.working = some id → u.phase.working = some id →
    many = true ∧ t.mgr.nodeID ≠ u.mgr.nodeID
  submits : ∀ id, t.phase.submitting = some id → u.phase.submitting ≠ some id

/-- The due index is exact, and rows are filed under their IDs. -/
structure Good (s : Shared) : Prop where
  exact : ∀ id, Exact s.table id
  filed : ∀ id r, s.row id = some r → r.id = id ∧ id ≤ s.table.counter

/-- A row goes over in a way that a worker of `node` can live with: as it was, or no longer that
    worker's, and if it was before then its claim had run out. -/
def Yields (many : Bool) (node : Str) (clock : Int) (row row' : Option Message) : Prop :=
  row' = row ∨ (∀ cur, row' = some cur → fence node cur = false) ∧
    ∀ cur, row = some cur → fence node cur = true → many = true ∧ cur.leaseUntil ≤ clock

section Stability
variable {many : Bool} {s s' : Shared} {m : Manager}

theorem fence_json {msg : Message} (ht : m.Text) (hact : msg.state = .active) (hown : msg.owner = m.nodeID) :
    fence m.nodeID msg.json = true := by
  simp [fence, Message.json, hact, hown, show coerceUTF8 m.nodeID = m.nodeID from ht]

theorem Held.stable {msg : Message} (h : Held many s m.nodeID msg) (ht : m.Text) (hclock : s.clock ≤ s'.clock)
    (hy : Yields many m.nodeID s.clock (s.row msg.id) (s'.row msg.id)) : Held many s' m.nodeID msg := by
  rcases hy with hsame | ⟨hnew, hold⟩
  · refine h.imp (fun hc => ⟨hsame.trans hc.1, hc.2⟩) ?_
    rintro ⟨hm, hle, hf⟩
    exact ⟨hm, hle.trans hclock, fun cur hcur => hf cur (hsame ▸ hcur)⟩
  · rcases h with ⟨hrow, hact, hown⟩ | ⟨hm, hle, -⟩
    · obtain ⟨hm, hle⟩ := hold _ hrow (fence_json ht hact hown)
      exact .inr ⟨hm, hle.trans hclock, hnew⟩
    · exact .inr ⟨hm, hle.trans hclock, hnew⟩

variable {p : Phase}

/-- What other threads may do without hurting a thread. -/
theorem Backed.stable (h : Backed many s m p) (hclock : s.clock ≤ s'.clock)
    (hcount : s.table.counter ≤ s'.table.counter)
    (hyield : ∀ id, p.working = some id → Yields many m.nodeID s.clock (s.row id) (s'.row id))
    (hfresh : ∀ id, p.submitting = some id → s'.row id = s.row id) : Backed many s' m p := by
  cases p with
  | spooling id sub | queueing id sub now => exact ⟨(hfresh id rfl).trans h.1, h.2.trans hcount⟩
  | reading msg | handing msg body | delivering msg =>
    exact ⟨h.1, h.2.stable h.1 hclock (hyield msg.id rfl)⟩
  | txn c | flush c seen clock =>
    cases c with
    | claim id now => exact ⟨h.1, h.2.trans hclock⟩
    | commit out =>
      obtain ⟨ht, msg, hout, hheld⟩ := h
      exact ⟨ht, msg, hout, hheld.stable ht hclock (hout.id ▸ hyield out.id rfl)⟩
    | _ => trivial
  | _ => exact h

theorem row_none_of_submitting {id : Nat} (h : Backed many s m p)
    (hid : p.submitting = some id) : s.row id = none := by
  cases p <;> cases hid <;> exact h.1

theorem le_counter_of_submitting {id : Nat} (h : Backed many s m p)
    (hid : p.submitting = some id) : id ≤ s.table.counter := by
  cases p <;> cases hid <;> exact h.2

/-- Threads do not notice a change that leaves the rows and only lets time and IDs pass. -/
theorem Backed.unnoticed (h : Backed many s m p) (hclock : s.clock ≤ s'.clock)
    (hcount : s.table.counter ≤ s'.table.counter) (hrow : ∀ id, s'.row id = s.row id) : Backed many s' m p :=
  h.stable hclock hcount (fun id _ => .inl (hrow id)) fun id _ => hrow id

end Stability

/-! ### Transactions -/

section Effects
variable {many : Bool} {s : Shared} {m : Manager} {clock : Int} {cur : Message} {c : Call} {st : Staged}

theorem not_fence_of_state {node : Str} (h : cur.state ≠ .active) : fence node cur = false := by
  simp [fence, h]

/-- A worker whose commit passes the fence has its claim. -/
theorem claimed_of_fence {out : Message} (hb : Backed many s m (.txn (.commit out)))
    (hrow : s.row out.id = some cur) (hf : fence m.nodeID cur = true) :
    ∃ msg, Outcome msg out ∧ msg.json = cur ∧ msg.state = .active := by
  obtain ⟨-, msg, hout, hheld⟩ := hb
  rw [hout.id] at hrow
  rcases hheld with ⟨hmsg, hact, -⟩ | ⟨-, -, hlost⟩
  · exact ⟨msg, hout, Option.mem_unique hmsg hrow, hact⟩
  · rw [hlost cur hrow] at hf
    cases hf

theorem Outcome.not_active {msg out : Message} (h : Outcome msg out) : out.state ≠ .active := by
  rcases h.ended with hs | hs | hs <;> rw [hs] <;> decide

/-- A transaction leaves the row to the other workers, or takes it from one whose claim ran out. -/
theorem Ends.yields {row : Option Message} {evs : List Event} {q : Phase} (he : Ends m clock cur c row evs q)
    (hb : Backed many s m (.txn c)) (hrow : s.row c.id = some cur) {u : Thread} (hu : u.phase.working = some c.id)
    (hap : Apart many ⟨m, .txn c⟩ u) : Yields many u.mgr.nodeID s.clock (some cur) row := by
  have hidle : cur.state ≠ .active → ∀ r, some cur = some r → fence u.mgr.nodeID r = true →
      many = true ∧ r.leaseUntil ≤ s.clock := by
    rintro hact _ ⟨rfl⟩ hf
    rw [not_fence_of_state hact] at hf
    cases hf
  cases he with
  | kept => exact .inl rfl
  | claimed hterm hfree =>
    obtain ⟨ht, hnow⟩ := hb
    obtain ⟨hmany, hne⟩ := hap.workers _ rfl hu
    refine .inr ⟨?_, ?_⟩
    · rintro _ ⟨rfl⟩
      simp [fence, Message.json, Message.taken, show coerceUTF8 m.nodeID = m.nodeID from ht, hne]
    · rintro _ ⟨rfl⟩ hf
      have hact : cur.state = .active := by simpa using (Bool.and_eq_true_iff.mp hf).1
      exact ⟨hmany, (hfree hact).trans hnow⟩
  | committed hf | ended hf | deferred hf =>
    obtain ⟨-, hne⟩ := hap.workers _ rfl hu
    obtain ⟨msg, hout, -, -⟩ := claimed_of_fence hb hrow hf
    refine .inr ⟨?_, ?_⟩
    · rintro _ ⟨rfl⟩
      exact not_fence_of_state hout.not_active
    · rintro _ ⟨rfl⟩ hf'
      have h₁ : cur.owner = m.nodeID := by simpa using (Bool.and_eq_true_iff.mp hf).2
      have h₂ : cur.owner = u.mgr.nodeID := by simpa using (Bool.and_eq_true_iff.mp hf').2
      exact absurd (h₁.symm.trans h₂) hne
  | retried hact =>
    refine .inr ⟨?_, hidle hact⟩
    rintro _ ⟨rfl⟩
    exact not_fence_of_state (by simp [Message.json, Message.requeued])
  | cancelled hact | dropped hact => exact .inr ⟨by simp, hidle hact⟩
  | pruned hterm | swept hterm =>
    exact .inr ⟨by simp, hidle fun h => by simp [h, isTerminal] at hterm⟩

/-- A transaction keeps the index exact. -/
theorem Effect.exact (he : Effect m clock cur c st) (hb : Backed many s m (.txn c)) (hrow : s.row c.id = some cur)
    (h : Exact s.table c.id) : Exact (s.table.batch c.id st.ops) c.id := by
  have hrows : s.table.rows[c.id]? = some cur := hrow
  have hpos : ∀ pos, indexed (some cur) = some pos → pos = unix (duePos cur) := by
    intro pos hp
    simp only [indexed, Option.bind_some] at hp
    split at hp
    · cases hp
    · exact (Option.some.inj hp).symm
  have hnone : isTerminal cur.state = true → indexed (some cur) = none := by
    intro ht
    simp [indexed, ht]
  cases he with
  | busy | lost | kept => exact h
  | healed hterm =>
    refine h.dropped ?_ (by simp) fun pos hp => ?_
    · rw [hrows]; exact hnone hterm
    · rw [hrows, hnone hterm] at hp; cases hp
  | claimed hterm hfree =>
    refine h.moved (cur.taken m _) (fun pos hp => ?_) rfl
    rw [hrows] at hp
    exact hpos pos hp
  | @committed out hf =>
    obtain ⟨msg, hout, hjson, hact⟩ := claimed_of_fence hb hrow hf
    have hlease : duePos cur = out.leaseUntil := by
      rw [duePos, if_pos (show cur.state = .active from hjson ▸ hact), ← hjson, hout.leaseUntil]
      rfl
    have hold : ∀ pos, indexed (s.table.rows[out.id]?) = some pos → pos = unix out.leaseUntil := by
      intro pos hp
      have hp' : indexed (some cur) = some pos := hrows ▸ hp
      rw [hpos pos hp', hlease]
    simp only [commitTxn, hf, if_true]
    cases hterm : isTerminal out.state with
    | true =>
      refine h.dropped ?_ (by simp) fun pos hp => ?_
      · simp [rowAfter, indexed, Message.json, hterm]
      · simp [hold pos hp]
    | false => exact h.moved _ hold hterm
  | retried hact hterm =>
    refine h.moved (cur.requeued _) (fun pos hp => ?_) rfl
    rw [hrows] at hp
    exact hpos pos hp
  | cancelled hact =>
    refine h.dropped rfl (by simp) fun pos hp => ?_
    rw [hrows] at hp
    simp [hpos pos hp]
  | @pruned cutoff id rest hterm =>
    have hno : ∀ pos, indexed (s.table.rows[id]?) ≠ some pos := fun pos hp => by
      rw [show s.table.rows[id]? = some cur from hrows, hnone hterm] at hp
      cases hp
    unfold pruneTxn
    split
    · exact h
    · refine h.dropped ?_ (fun pos => ?_) fun pos hp => absurd hp (hno pos)
      · split <;> rfl
      · dsimp only
        split <;> simp

end Effects

/-! ### Changes -/

section Changes
variable {many : Bool} {s s' : Shared} {m : Manager} {p : Phase}

theorem Backed.txn_of {c : Call} (hb : Backed many s m p) (hp : p = .txn c ∨ ∃ seen clk, p = .flush c seen clk) :
    Backed many s m (.txn c) := by
  rcases hp with rfl | ⟨seen, clk, rfl⟩
  · exact hb
  · cases c <;> exact hb

variable {u : Thread}

theorem Apart.txn_of {c : Call} (h : Apart many ⟨m, p⟩ u)
    (hp : p = .txn c ∨ ∃ seen clk, p = .flush c seen clk) : Apart many ⟨m, .txn c⟩ u := by
  rcases hp with rfl | ⟨seen, clk, rfl⟩
  · exact h
  · exact ⟨fun id hid => h.workers id (by cases c <;> exact hid), fun id hid => by cases hid⟩

/-- Where a row after a step comes from. -/
inductive Comes (s : Shared) (m : Manager) : Phase → Nat → Message → Prop where
  | old {p : Phase} {id : Nat} {r : Message} (h : s.row id = some r) : Comes s m p id r
  | submitted {id : Nat} {sub : Submission} {now : Int} :
    Comes s m (.queueing id sub now) id { sub.message m id now with updatedAt := s.clock }.json
  | warned {msg r : Message} (hrow : s.row msg.id = some r)
      (hr : r = { msg.json with lastWarningAt := r.lastWarningAt, updatedAt := r.updatedAt }) :
    Comes s m (.saving msg) msg.id { msg with updatedAt := s.clock }.json
  | transacted {p q : Phase} {c : Call} {clock : Int} {cur r : Message} {evs : List Event}
      (hp : p = .txn c ∨ ∃ seen clk, p = .flush c seen clk) (hrow : s.row c.id = some cur)
      (he : Ends m clock cur c (some r) evs q) : Comes s m p c.id r

theorem Change.comes {id : Nat} {r : Message} (hc : Change s m p s') (hsave : Saves s p) (hr : s'.row id = some r) :
    Comes s m p id r := by
  cases hc with
  | quiet hrow => exact .old (hrow id ▸ hr)
  | handed => exact .old hr
  | submitted =>
    rcases row_save hr with hr | ⟨rfl, rfl⟩
    · exact .old hr
    · exact .submitted
  | @warned msg =>
    rcases row_save hr with hr | ⟨rfl, rfl⟩
    · exact .old hr
    · obtain ⟨r, hrow, hr⟩ := row_of_agrees (hsave msg rfl)
      exact .warned hrow hr
  | transacted hp hrow he =>
    rcases row_transact hrow hr with hold | ⟨rfl, hnew⟩
    · exact .old hold
    · exact .transacted hp hrow (hnew ▸ he.ends)

/-- What a step does to the row of another worker, that worker can live with. -/
theorem Change.yields (hc : Change s m p s') (hb : Backed many s m p) (hsave : Saves s p)
    (hap : Apart many ⟨m, p⟩ u) {id : Nat} (hu : u.phase.working = some id) :
    Yields many u.mgr.nodeID s.clock (s.row id) (s'.row id) := by
  cases hc with
  | quiet hrow => exact .inl (hrow id)
  | handed => exact .inl rfl
  | @submitted j sub now =>
    by_cases hid : j = id
    · -- no worker can have claimed a message without a row
      subst hid
      rw [row_commit, rowAfter_saveOps, hb.1]
      refine .inr ⟨?_, by simp⟩
      rintro _ ⟨rfl⟩
      exact not_fence_of_state (by simp [Message.json, Submission.message])
    · exact .inl (row_commit_of_ne hid _)
  | @warned msg =>
    by_cases hid : msg.id = id
    · subst hid
      have hd : msg.state = .deferred := hb
      obtain ⟨r, hrow, hr⟩ := row_of_agrees (hsave msg rfl)
      rw [row_commit, rowAfter_saveOps, hrow]
      refine .inr ⟨?_, ?_⟩
      · rintro _ ⟨rfl⟩
        exact not_fence_of_state (by simp [Message.json, hd])
      · rintro _ ⟨rfl⟩ hf
        rw [not_fence_of_state (by rw [hr]; simp [Message.json, hd])] at hf
        cases hf
    · exact .inl (row_commit_of_ne hid _)
  | @transacted _ c clock cur st hp hrow he =>
    by_cases hid : c.id = id
    · subst hid
      rw [row_commit, hrow]
      exact he.ends.yields (hb.txn_of hp) hrow hu (hap.txn_of hp)
    · exact .inl (row_commit_of_ne hid st)

/-- A message that is being submitted gets its row from its own thread. -/
theorem Change.unborn (hc : Change s m p s') (hsave : Saves s p) {id : Nat} (hsub : p.submitting ≠ some id)
    (hnone : s.row id = none) : s'.row id = none := by
  cases hr : s'.row id with
  | none => rfl
  | some r =>
    cases hc.comes hsave hr with
    | submitted => exact absurd rfl hsub
    | old hrow | warned hrow | transacted _ hrow =>
      rw [hnone] at hrow
      cases hrow

/-- A step takes nothing from the threads that it is apart from. -/
theorem Change.others (hc : Change s m p s') (hb : Backed many s m p) (hsave : Saves s p)
    (hap : Apart many ⟨m, p⟩ u) (hu : Backed many s u.mgr u.phase) : Backed many s' u.mgr u.phase := by
  have htime : s.clock ≤ s'.clock ∧ s.table.counter ≤ s'.table.counter := by
    cases hc with
    | quiet _ _ hclock hcount => exact ⟨le_of_eq hclock.symm, hcount⟩
    | handed => exact ⟨le_rfl, le_rfl⟩
    | submitted | warned | transacted => exact ⟨le_rfl, le_of_eq (counter_commit ..).symm⟩
  refine hu.stable htime.1 htime.2 (fun id hid => hc.yields hb hsave hap hid) fun id hid => ?_
  have hnone := row_none_of_submitting hu hid
  rw [hc.unborn hsave (fun he => hap.submits id he hid) hnone, hnone]

end Changes

/-! ### Steps -/

/-- What a step of a thread keeps, and where it leads. -/
structure Move (many : Bool) (s : Shared) (m : Manager) (p : Phase) (s' : Shared) (p' : Phase) : Prop where
  good : Good s'
  backed : Backed many s' m p'
  working : ∀ id, p'.working = some id → p.working = some id
  submitting : ∀ id, p'.submitting = some id → p.submitting = some id ∨ s.table.counter < id

section Moves
variable {many : Bool} {s s' : Shared} {m : Manager} {p p' : Phase}

/-- A step to a phase of no worker and of no Submit. -/
theorem Move.own (hg : Good s') (hb : Backed many s' m p') (hw : p'.working = none) (hs : p'.submitting = none) :
    Move many s m p s' p' :=
  ⟨hg, hb, fun id h => (by rw [hw] at h; cases h), fun id h => by rw [hs] at h; cases h⟩

theorem Move.idle (hg : Good s') (h : p'.Idle) : Move many s m p s' p' := by
  cases h <;> exact .own hg trivial rfl rfl

/-- Where a thread stands after a transaction. -/
theorem Ends.move {clock : Int} {cur : Message} {c : Call} {evs : List Event}
    (he : Ends m clock cur c (s'.row c.id) evs p') (hb : Backed many s m (.txn c)) (hid : cur.id = c.id)
    (hg : Good s') : Move many s m (.txn c) s' p' := by
  generalize hrow : s'.row c.id = row at he
  cases he with
  | kept hidle | committed _ _ hidle | cancelled _ hidle | pruned _ hidle => exact .idle hg hidle
  | claimed =>
    refine ⟨hg, ⟨hb.1, .inl ⟨(congrArg s'.row hid).trans hrow, rfl, rfl⟩⟩, fun id h => ?_, fun id h => by cases h⟩
    rw [← h]
    exact congrArg some hid.symm
  | ended | dropped | swept | retried => exact .own hg trivial rfl rfl
  | deferred _ hstate => exact .own hg hstate rfl rfl

/-- The save of a delay warning over the row that it was decided on. -/
theorem exact_saving {msg : Message} (hg : Good s) (hb : msg.state = .deferred)
    (hsave : agrees (s.row msg.id) msg = true) :
    Exact (s.table.batch msg.id (saveOps s.clock msg msg.nextAttempt)) msg.id := by
  obtain ⟨r, hrow, hr⟩ := row_of_agrees hsave
  have hpos : indexed (some r) = some (unix msg.nextAttempt) := by
    rw [hr]
    simp [indexed, duePos, Message.json, hb, isTerminal]
  have hnew : indexed (some { msg with updatedAt := s.clock }) = some (unix msg.nextAttempt) := by
    simp [indexed, duePos, hb, isTerminal]
  have hboth := (hg.exact msg.id).rewritten ((congrArg indexed hrow).trans hpos) hnew
  by_cases hz : msg.nextAttempt = zeroTime
  · simpa [saveOps, duePos, hb, isTerminal, hz] using hboth.2
  · simpa [saveOps, duePos, hb, isTerminal, hz] using hboth.1

variable {env : Env}

/-- A step keeps the index exact and files the rows that it writes. -/
theorem Leads.good (h : Leads env s m p s' p') (hg : Good s) (hb : Backed many s m p) (hsave : Saves s p)
    (hsees : Sees s p) : Good s' := by
  have hc := h.change hsees
  refine ⟨fun id => ?_, fun id r hr => ?_⟩
  · cases h with
    | @submitted j sub now =>
      by_cases hj : j = id
      · subst hj
        exact (hg.exact j).created hb.1 rfl
      · exact (hg.exact id).frame hj _
    | @warned msg =>
      by_cases hj : msg.id = id
      · subst hj
        exact exact_saving hg hb (hsave msg rfl)
      · exact (hg.exact id).frame hj _
    | @transacted _ c clock cur st hp hrow he =>
      by_cases hj : c.id = id
      · subst hj
        exact he.exact (hb.txn_of hp) (hrow hsees) (hg.exact c.id)
      · exact (hg.exact id).frame hj st.ops
    | _ => exact hg.exact id
  · refine (?_ : r.id = id ∧ id ≤ s.table.counter).imp_right hc.counter_le.trans'
    cases hc.comes hsave hr with
    | old hrow => exact hg.filed id r hrow
    | submitted => exact ⟨rfl, hb.2⟩
    | warned hrow => exact ⟨rfl, (hg.filed _ _ hrow).2⟩
    | transacted _ hrow he =>
      obtain ⟨hid, hle⟩ := hg.filed _ _ hrow
      refine ⟨?_, hle⟩
      cases he with
      | committed | ended | deferred => rfl
      | _ => exact hid

/-- A flush goes on as the transaction does. -/
theorem Move.txn_of {c : Call} (h : Move many s m (.txn c) s' p')
    (hp : p = .txn c ∨ ∃ seen clk, p = .flush c seen clk) : Move many s m p s' p' := by
  rcases hp with rfl | ⟨seen, clk, rfl⟩
  · exact h
  · exact ⟨h.good, h.backed, fun id hid => by cases c <;> exact h.working id hid, h.submitting⟩

/-- A step of a thread, saves and flushes only over what they were decided on. -/
theorem Leads.move (h : Leads env s m p s' p') (hg : Good s) (hb : Backed many s m p) (hsave : Saves s p)
    (hsees : Sees s p) : Move many s m p s' p' := by
  have hgood := h.good hg hb hsave hsees
  cases h with
  | rests hidle | erased hidle => exact .idle hgood hidle
  | submitted | warned => exact .idle hgood .finished
  | named =>
    refine ⟨hgood, ⟨?_, le_rfl⟩, fun id h => (by cases h), ?_⟩
    · -- rows have IDs that were handed out before
      cases hr : s.row (s.table.counter + 1) with
      | none => exact hr
      | some r => exact absurd (hg.filed _ r hr).2 (Nat.not_succ_le_self _)
    · intro id h
      cases h
      exact .inr (Nat.lt_succ_self _)
  | spooled => exact ⟨hgood, hb, fun _ h => h, fun _ h => .inl h⟩
  | due => exact ⟨hgood, ⟨hb, le_rfl⟩, fun _ h => h, fun _ h => by cases h⟩
  | opened | handed => exact ⟨hgood, hb, fun _ h => h, fun _ h => by cases h⟩
  | @settled _ msg out hp hout =>
    have hout := outcome_of_settled hout
    rcases hp with rfl | rfl <;>
      exact ⟨hgood, ⟨hb.1, msg, hout, hb.2⟩, fun id h => h ▸ congrArg some hout.id.symm, fun _ h => by cases h⟩
  | warns => exact .own hgood hb rfl rfl
  | @staged c =>
    cases c with
    | _ => exact ⟨hgood, hb, fun _ h => h, fun _ h => by cases h⟩
  | @transacted _ c clock cur st hp hrow he =>
    have hrow := hrow hsees
    have hend := he.ends
    rw [← hrow, ← row_commit] at hend
    exact (hend.move (hb.txn_of hp) (hg.filed _ _ hrow).1 hgood).txn_of hp

end Moves

/-! ### Runs -/

/-- The invariant: a good state, threads with what they rely on, apart from each other. -/
def Kept (many : Bool) : World → Prop :=
  System.Inv Good (fun s t => Backed many s t.mgr t.phase) (Apart many)

theorem kept_idle (many : Bool) (clock : Int) : Kept many (idle clock) := by
  refine .init ⟨fun id pos => ?_, fun id r h => ?_⟩
  · simp [indexed]
  · simp [Shared.row] at h

theorem Apart.of_move {many : Bool} {s s' : Shared} {m : Manager} {p p' : Phase} {u : Thread}
    (hm : Move many s m p s' p') (h : Apart many ⟨m, p⟩ u) (h' : Apart many u ⟨m, p⟩)
    (hu : Backed many s u.mgr u.phase) : Apart many ⟨m, p'⟩ u ∧ Apart many u ⟨m, p'⟩ := by
  have hsub : ∀ id, p'.submitting = some id → u.phase.submitting ≠ some id := fun id hid he =>
    (hm.submitting id hid).elim (fun hp => h.submits id hp he)
      fun hlt => absurd (le_counter_of_submitting hu he) (Nat.not_le.mpr hlt)
  exact ⟨⟨fun id hid => h.workers id (hm.working id hid), hsub⟩,
    ⟨fun id hid hid' => h'.workers id hid (hm.working id hid'), fun id hid he => hsub id he hid⟩⟩

theorem kept_start {many : Bool} {m : Manager} {job : Job} (h : Kept many w)
    (hsolo : solo many w (.start m job) = true) : Kept many (w.spawn ⟨m, job.phase⟩) := by
  have hquiet : ∀ p : Phase, p.working = none → p.submitting = none → Backed many w.shared m p →
      Kept many (w.spawn ⟨m, p⟩) := fun p hw hs hb => System.Inv.spawn h hb fun u _ =>
    ⟨⟨fun id h => by simp [hw] at h, fun id h => by simp [hs] at h⟩,
      ⟨fun id _ h => by simp [hw] at h, fun id _ h => by simp [hs] at h⟩⟩
  cases job with
  | submit sub =>
    simp only [Job.phase]
    split
    · exact hquiet _ rfl rfl trivial
    · exact hquiet _ rfl rfl trivial
  | retry id | cancel id | prune => exact hquiet _ rfl rfl trivial
  | process id =>
    simp only [solo, Bool.and_eq_true, decide_eq_true_eq, List.all_eq_true, Bool.or_eq_true] at hsolo
    obtain ⟨htext, hothers⟩ := hsolo
    refine System.Inv.spawn h htext fun u hu => ?_
    have hne : ∀ id', some id = some id' → u.phase.working = some id' →
        many = true ∧ u.mgr.nodeID ≠ m.nodeID := by
      rintro _ ⟨rfl⟩ hid
      exact (hothers u hu).resolve_left fun hno => hno hid
    exact ⟨⟨fun id' h h' => ⟨(hne id' h h').1, (hne id' h h').2.symm⟩, fun id' h => by cases h⟩,
      ⟨fun id' h' h => hne id' h h', fun id' _ h => by cases h⟩⟩

/-- KEPT: a careful step keeps the invariant. -/
theorem kept_step {many : Bool} (mode : Mode) (w : World) (a : Action) (h : Kept many w)
    (hok : careful many w a = true) : Kept many (step mode w a) := by
  simp only [careful, Bool.and_eq_true] at hok
  obtain ⟨⟨hsolo, hharm⟩, hundis⟩ := hok
  cases a with
  | tick d =>
    rw [step]
    refine System.Inv.alter h (fun hg => ⟨hg.exact, hg.filed⟩) fun t ht => ?_
    exact ht.unnoticed (Int.le_add_of_nonneg_right (Int.natCast_nonneg d)) le_rfl fun _ => rfl
  | start m job => exact kept_start h hsolo
  | advance i env =>
    refine System.Inv.move h fun t ht hg hb => ?_
    have hsave := saves_of_harmless hharm ht
    have hsees := sees_of_undisturbed hundis ht
    have hl := leads_advance mode env w.shared t.mgr t.phase
    have hm := hl.move hg hb hsave hsees
    refine ⟨hm.good, hm.backed, fun u hap hap' hu => ⟨?_, Apart.of_move hm hap hap' hu⟩⟩
    exact (hl.change hsees).others hb hsave hap hu
  | halt i =>
    rw [step]
    refine System.Inv.move h fun t ht hg hb => ⟨hg, trivial, fun u hap hap' hu => ⟨hu, ?_⟩⟩
    have hm : Move many w.shared t.mgr t.phase w.shared .finished := .idle hg .finished
    exact Apart.of_move hm hap hap' hu

theorem undisturbed_of_careful {many : Bool} {a : Action} (h : careful many w a = true) :
    undisturbed w a = true :=
  (Bool.and_eq_true_iff.mp h).2

theorem saves_of_careful {many : Bool} {i : Nat} {t : Thread}
    (h : careful many w (.advance i env) = true) (ht : w.threads[i]? = some t) : Saves w.shared t.phase :=
  saves_of_harmless (Bool.and_eq_true_iff.mp (Bool.and_eq_true_iff.mp h).1).2 ht

/-- What one step changes: nothing in the rows and the record, or what a step of a thread changes. -/
theorem step_change (mode : Mode) (w : World) (a : Action) (h : undisturbed w a = true) :
    (∀ id, (step mode w a).shared.row id = w.shared.row id) ∧ (step mode w a).shared.trace = w.shared.trace ∨
      ∃ i env t, a = .advance i env ∧ w.threads[i]? = some t ∧
        Change w.shared t.mgr t.phase (step mode w a).shared := by
  cases a with
  | tick d => exact .inl ⟨fun _ => rfl, rfl⟩
  | start m job => exact .inl ⟨fun _ => rfl, rfl⟩
  | halt i =>
    have hsame : (w.move i fun s t => (s, { t with phase := Phase.finished })).shared = w.shared := by
      unfold System.move
      split <;> rfl
    exact .inl ⟨fun id => by rw [step, hsame], by rw [step, hsame]⟩
  | advance i env =>
    cases ht : w.threads[i]? with
    | none =>
      have hsame : step mode w (.advance i env) = w := by simp only [step, System.move, ht]
      exact .inl ⟨fun id => by rw [hsame], by rw [hsame]⟩
    | some t =>
      refine .inr ⟨i, env, t, rfl, ht.symm ▸ rfl, ?_⟩
      have hstep : (step mode w (.advance i env)).shared = (advance mode env w.shared t.mgr t.phase).1 := by
        simp only [step, System.move, ht]
        rfl
      rw [hstep]
      exact (leads_advance mode env w.shared t.mgr t.phase).change (sees_of_undisturbed h ht)

end Mailezine.Queue
