import Mailezine.Store.Buffer
import Mailezine.Store.Bytes

/-! `DeliverEmail` and `DeliverEmailBatch` as closures over a transaction buffer.

    A closure stages its writes and reads them back through the buffer. What it means is a program on
    the byte map itself (`plainly`), so staging several messages in one closure is the same as
    committing them one after another. -/

namespace Mailezine.Store.Buffer
open Mailstore Schemes Bytes

/-! ### Closures as they are written -/

/-- A closure that calls `TxnOps` and may return an error. -/
structure Staging (α : Type) where
  closure : Closure RawErr α

namespace Staging
variable {α β : Type}

/-- Go on with the value, or return the error. -/
def andThen : Closure RawErr α → (α → Closure RawErr β) → Closure RawErr β
  | .done (.ok x), f => f x
  | .done (.error e), _ => .done (.error e)
  | .call c next, f => .call c fun answer => andThen (next answer) f

instance : Monad Staging where
  pure x := ⟨.done (.ok x)⟩
  bind m f := ⟨andThen m.closure fun x => (f x).closure⟩

/-- Return an error. -/
def fail (e : RawErr) : Staging α := ⟨.done (.error e)⟩

/-- `t.Get`; a missing key is no error. -/
def get (k : Str) : Staging (Option Str) := ⟨.call (.get k) fun v => .done (.ok v)⟩

/-- `t.Put`. -/
def put (k v : Str) : Staging Unit := ⟨.call (.put k v) fun _ => .done (.ok ())⟩

/-- `t.Append`. -/
def append (ops : List RawOp) : Staging Unit := ⟨.call (.append ops) fun _ => .done (.ok ())⟩

/-- `readCounter`. -/
def readCounter (k : Str) : Staging UInt64 := do
  match decodeCounter (← get k) with
  | .ok n => pure n
  | .error e => fail e

/-- `quotaValue`. -/
def quotaValue (k : Str) : Staging Int64 := do
  let n ← readCounter k
  pure n.toInt64

/-- `stageBlobLink`. -/
def stageBlobLink (a : UInt32) (blob : Str) : Staging Unit := do
  let refs ← readCounter (blobLinkKey a blob)
  if refs = 0 then append [(metaBlobGCKey blob, none)] else pure ()
  put (blobLinkKey a blob) (beUint64 (refs + 1))

/-- `deliverOne`. -/
def deliverOne (a : UInt32) (mb : UInt64) (fields : Fields) (blob : Str) (size : Int64)
    (extra : List RawOp) : Staging (UInt64 × UInt64 × UInt64) := do
  let uidKey := counterKey a counterKindNextDoc (collectionEmail :: beUint64 mb)
  let docKey := counterKey a counterKindNextDoc [collectionEmail]
  let modseqKey := fieldKey a collectionMailbox mb fieldMailboxModSeq
  let uid := (← readCounter uidKey) + 1
  put uidKey (beUint64 uid)
  let modseq := beUint64Value (← get modseqKey) + 1
  put modseqKey (beUint64 modseq)
  let docID := (← readCounter docKey) + 1
  append [(docKey, some (beUint64 docID)), (fieldKey a collectionEmail docID fieldMeta, some [1])]
  append (orderedFieldOps a collectionEmail docID
    (fields ++ [(emailFieldUID, beUint64 uid), (emailFieldModSeq, beUint64 modseq)]))
  stageBlobLink a blob
  let curQuota ← quotaValue (quotaKey a)
  append [(quotaKey a, some (beUint64 (curQuota + size).toUInt64))]
  let nextChange := (← readCounter (changeCounter a)) + 1
  append [(changeCounter a, some (beUint64 nextChange)), (changeLogKey a collectionEmail nextChange,
    some (encodeChangeValue collectionEmail docID opCreate))]
  append [(indexEmailKey a mb uid, some (beUint64 docID))]
  append extra
  pure (uid, modseq, docID)

/-- `DeliverResult`. -/
structure DeliverResult where
  uid : UInt64
  modSeq : UInt64
  docID : UInt64
  deriving DecidableEq

/-- One message of a batch. -/
def deliverRequest (a : UInt32) (r : Request) : Staging DeliverResult := do
  let (uid, modseq, docID) ← deliverOne a r.mailboxID r.fields r.blobID r.size []
  pure ⟨uid, modseq, docID⟩

/-- The closure of `DeliverEmailBatch`. -/
def deliverAll (a : UInt32) : List Request → Staging (List DeliverResult)
  | [] => pure []
  | r :: rs => do
    let one ← deliverRequest a r
    let rest ← deliverAll a rs
    pure (one :: rest)

/-! ### What a closure means -/

/-- The closure on the map itself. -/
def plainly (m : Staging α) : RawTxn α := fun raw =>
  let o := m.closure.run plain raw
  o.result.map fun x => (x, o.state)

theorem plainly_andThen (f : α → Staging β) : ∀ (m : Closure RawErr α) (raw : Raw),
    plainly ⟨andThen m fun x => (f x).closure⟩ raw = (plainly ⟨m⟩ raw >>= fun r => plainly (f r.1) r.2)
  | .done (.ok _), _ => rfl
  | .done (.error _), _ => rfl
  | .call c next, raw => plainly_andThen f (next (c.answer raw)) (raw.batch c.ops)

theorem plainly_bind_apply (m : Staging α) (f : α → Staging β) (raw : Raw) :
    plainly (m >>= f) raw = (plainly m raw >>= fun r => plainly (f r.1) r.2) :=
  plainly_andThen f m.closure raw

end Staging

/-! ### Commits -/

/-- What a call of the store answers, and the state it leaves. -/
abbrev Reply (α : Type) := Except RawErr α × Raw

/-- The engines that stage a closure's writes in memory. -/
inductive Backend where
  | bufTxn
  | memory

/-- `s.txn.WithTxn`. -/
def Backend.withTxn {α : Type} (engine : Backend) (base : Raw) (fn : Staging α) : Reply α :=
  match engine with
  | .bufTxn => ((bufTxnWithTxn base fn.closure).result, (bufTxnWithTxn base fn.closure).state)
  | .memory => ((memoryWithTxn base fn.closure).result, (memoryWithTxn base fn.closure).state)

/-- A transaction on the map: an error takes everything back. -/
def settle {α : Type} (base : Raw) : Except RawErr (α × Raw) → Reply α
  | .ok r => (.ok r.1, r.2)
  | .error e => (.error e, base)

/-- A commit is the closure's meaning, all of it or nothing. -/
theorem Backend.withTxn_eq {α : Type} (engine : Backend) (base : Raw) (fn : Staging α) :
    engine.withTxn base fn = settle base (fn.plainly base) := by
  have hplain : engine.withTxn base fn =
      ((Buffer.withTxn base fn.closure).result, (Buffer.withTxn base fn.closure).state) := by
    cases engine with
    | bufTxn => rw [← bufTxnWithTxn_eq]; rfl
    | memory => rw [← memoryWithTxn_eq]; rfl
  rw [hplain]
  unfold Buffer.withTxn Staging.plainly settle
  cases h : (fn.closure.run plain base).result <;> simp [h, Except.map]

section Deliver
variable (engine : Backend) (a : UInt32)

/-- `DeliverEmail`. -/
def deliverEmail (base : Raw) (r : Request) : Reply Staging.DeliverResult :=
  engine.withTxn base (Staging.deliverRequest a r)

/-- `DeliverEmailBatch`. -/
def deliverEmailBatch (base : Raw) (rs : List Request) : Reply (List Staging.DeliverResult) :=
  engine.withTxn base (Staging.deliverAll a rs)

/-- `DeliverEmail` for one request after another, up to the first error. -/
def deliverEach (base : Raw) : List Request → Reply (List Staging.DeliverResult)
  | [] => (.ok [], base)
  | r :: rs =>
    match deliverEmail engine a base r with
    | (.error e, raw) => (.error e, raw)
    | (.ok one, raw) => ((deliverEach raw rs).1.map (one :: ·), (deliverEach raw rs).2)

/-- The messages of a batch on the map, and the same messages committed one by one. -/
theorem deliverEach_eq (rs : List Request) : ∀ base : Raw,
    (∀ r, (Staging.deliverAll a rs).plainly base = .ok r → deliverEach engine a base rs = (.ok r.1, r.2)) ∧
    (∀ e, (Staging.deliverAll a rs).plainly base = .error e → (deliverEach engine a base rs).1 = .error e) := by
  induction rs with
  | nil =>
    intro base
    refine ⟨fun r hr => ?_, fun e he => ?_⟩
    · cases hr; rfl
    · cases he
  | cons r rs ih =>
    intro base
    rw [Staging.deliverAll, Staging.plainly_bind_apply, deliverEach, deliverEmail, Backend.withTxn_eq]
    cases (Staging.deliverRequest a r).plainly base with
    | error e =>
      refine ⟨fun r hr => ?_, fun e he => ?_⟩
      · cases hr
      · cases he; rfl
    | ok one =>
      obtain ⟨hok, herr⟩ := ih one.2
      have hstep : (Except.ok one >>= fun r => Staging.plainly
          (Staging.deliverAll a rs >>= fun rest => pure (r.1 :: rest)) r.2) =
          ((Staging.deliverAll a rs).plainly one.2 >>= fun rest =>
            Staging.plainly (pure (one.1 :: rest.1)) rest.2) := Staging.plainly_bind_apply ..
      rw [hstep]
      simp only [settle]
      cases hrest : (Staging.deliverAll a rs).plainly one.2 with
      | error e =>
        refine ⟨fun r hr => ?_, fun e' he => ?_⟩
        · cases hr
        · cases he
          rw [herr e hrest]; rfl
      | ok rest =>
        refine ⟨fun r hr => ?_, fun e' he => ?_⟩
        · cases hr
          rw [hok rest hrest]; rfl
        · cases he

/-- BATCH: a batch that succeeds has the results and the state of delivering its requests one after
    another; when any of them fails, the batch returns that error and the store is unchanged. -/
theorem batch_is_one_by_one (base : Raw) (rs : List Request) :
    (∀ res raw, deliverEmailBatch engine a base rs = (.ok res, raw) →
      deliverEach engine a base rs = (.ok res, raw)) ∧ (∀ e, (deliverEach engine a base rs).1 = .error e →
      deliverEmailBatch engine a base rs = (.error e, base)) ∧
    (∀ e raw, deliverEmailBatch engine a base rs = (.error e, raw) → raw = base) := by
  obtain ⟨hok, herr⟩ := deliverEach_eq engine a rs base
  rw [deliverEmailBatch, Backend.withTxn_eq]
  cases hall : (Staging.deliverAll a rs).plainly base with
  | error e => simp [settle, herr e hall]
  | ok r => simp [settle, hok r hall]

end Deliver

/-- Two messages of one mailbox with one blob: every counter is read back through the buffer. -/
theorem twins_one_by_one :
    let rs : List Request := [⟨1, [], ascii "x", 7⟩, ⟨1, [], ascii "x", 7⟩]
    (deliverEmailBatch .bufTxn 1 ∅ rs).1 = .ok [⟨1, 1, 1⟩, ⟨2, 2, 2⟩] ∧
      deliverEach .bufTxn 1 ∅ rs =
        (.ok [⟨1, 1, 1⟩, ⟨2, 2, 2⟩], (deliverEmailBatch .bufTxn 1 ∅ rs).2) := by
  intro rs
  have hrun : (deliverEmailBatch .bufTxn 1 ∅ rs).1 = .ok [⟨1, 1, 1⟩, ⟨2, 2, 2⟩] := by decide +kernel
  exact ⟨hrun, (batch_is_one_by_one .bufTxn 1 ∅ rs).1 _ _ (Prod.ext hrun rfl)⟩

end Mailezine.Store.Buffer
