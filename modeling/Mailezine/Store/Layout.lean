import Mailezine.Schemes.Hoare
import Mailezine.Store.Bytes

/-! What the transactions write: which keys, and that document keys name a field.

    A transaction that returns has applied one batch of writes; saying which writes can be in it is
    enough for any invariant that such writes keep. -/

namespace Mailezine.Store.Bytes
open Mailstore Schemes List

/-- A transaction whose effect is a batch of writes in `P`. -/
def Confined {α : Type} (P : RawOp → Prop) (m : RawTxn α) : Prop :=
  ∀ s x t, m s = .ok (x, t) → ∃ ops : List RawOp, (∀ op ∈ ops, P op) ∧ t = s.batch ops

section Confined
variable {α β : Type} {P : RawOp → Prop}

theorem Confined.bind {m : RawTxn α} {f : α → RawTxn β} (hm : Confined P m)
    (hf : ∀ x, Confined P (f x)) : Confined P (m >>= f) := by
  intro s y u hrun
  have hrun : (m s >>= fun r => f r.1 r.2) = .ok (y, u) := hrun
  cases hmid : m s with
  | error e => rw [hmid] at hrun; cases hrun
  | ok r =>
    rw [hmid] at hrun
    obtain ⟨l, hl, ht⟩ := hm s r.1 r.2 hmid
    obtain ⟨l', hl', hu⟩ := hf r.1 r.2 y u hrun
    refine ⟨l ++ l', fun op hop => ?_, by rw [hu, ht, Raw.batch_append]⟩
    rcases mem_append.mp hop with h | h
    · exact hl op h
    · exact hl' op h

theorem confined_pure (x : α) : Confined P (pure x : RawTxn α) := by
  intro s y t hrun
  cases hrun
  exact ⟨[], by simp, rfl⟩

theorem confined_throw (e : RawErr) : Confined P (throw e : RawTxn α) := by
  intro s y t hrun
  cases hrun

theorem confined_get : Confined P (get : RawTxn Raw) := by
  intro s y t hrun
  cases hrun
  exact ⟨[], by simp, rfl⟩

theorem confined_append {ops : List RawOp} (h : ∀ op ∈ ops, P op) : Confined P (append ops) := by
  intro s y t hrun
  cases hrun
  exact ⟨ops, h, rfl⟩

theorem confined_putRow {k v : Str} (h : P (k, some v)) : Confined P (putRow k v) :=
  confined_append (by simpa using h)

theorem confined_getRow (k : Str) : Confined P (getRow k) := confined_get.bind fun _ => confined_pure _

theorem confined_ifSo {c : Prop} {_ : Decidable c} {m : RawTxn Unit} (h : Confined P m) :
    Confined P (ifSo c m) := by
  unfold ifSo
  split
  · exact h
  · exact confined_pure _

theorem confined_readCounter (k : Str) : Confined P (readCounter k) := by
  refine (confined_getRow k).bind fun v => ?_
  cases decodeCounter v with
  | ok n => exact confined_pure n
  | error e => exact confined_throw e

theorem confined_quotaValue (k : Str) : Confined P (quotaValue k) :=
  (confined_readCounter k).bind fun _ => confined_pure _

variable {a : UInt32}

theorem confined_stageBlobLink {blob : Str} (hlink : ∀ v, P (blobLinkKey a blob, v))
    (hclaim : ∀ v, P (metaBlobGCKey blob, v)) : Confined P (stageBlobLink a blob) :=
  (confined_readCounter _).bind fun _ =>
    (confined_ifSo (confined_append (by simpa using hclaim none))).bind fun _ =>
    confined_putRow (hlink _)

theorem confined_unlinkBlob {blob : Str} (now : UInt64)
    (hlink : ∀ v, P (blobLinkKey a blob, v)) (hclaim : ∀ v, P (metaBlobGCKey blob, v)) :
    Confined P (unlinkBlob a blob now) := by
  refine (confined_readCounter _).bind fun refs => ?_
  split_ifs
  · exact confined_append (by simpa using hlink none)
  · exact confined_append (by simpa using ⟨hlink _, hclaim _⟩)
  · exact confined_putRow (hlink _)

theorem confined_chargeQuota (size : Int64) (h : ∀ v, P (quotaKey a, v)) : Confined P (chargeQuota a size) :=
  (confined_quotaValue _).bind fun _ => confined_putRow (h _)

theorem confined_releaseQuota (size : Int64) (h : ∀ v, P (quotaKey a, v)) : Confined P (releaseQuota a size) :=
  (confined_quotaValue _).bind fun _ => confined_putRow (h _)

end Confined

/-- `readCounter` returns the value of the row. -/
theorem readCounter_spec (P : Raw → Prop) (k : Str) :
    Triple P (readCounter k) fun n raw => P raw ∧ decodeCounter raw[k]? = .ok n := by
  refine Triple.bind (Q := fun v raw => P raw ∧ v = raw[k]?)
    (Triple.bind (Triple.get (Q := fun r raw => P raw ∧ r = raw) fun s h => ⟨h, rfl⟩)
      fun r => Triple.pure ?_) fun v => ?_
  · rintro s ⟨h, rfl⟩
    exact ⟨h, rfl⟩
  · cases hv : decodeCounter v with
    | ok n =>
      refine Triple.pure ?_
      rintro s ⟨h, rfl⟩
      exact ⟨h, hv⟩
    | error e => exact Triple.throw e

/-! ### Document keys -/

/-- In the document space a key ends with the byte of a field. -/
def IsStoreKey (k : Str) : Prop := k.head? = some spaceDocument → 15 ≤ k.length

/-- Every document key of the store names a field. -/
def Fielded (raw : Raw) : Prop := ∀ r ∈ raw.toList, IsStoreKey r.1

/-- A write that cannot leave any other document key. -/
def KeepsFielded (op : RawOp) : Prop := op.2 = none ∨ IsStoreKey op.1

variable {raw : Raw}

theorem fielded_iff : Fielded raw ↔ ∀ k v, raw[k]? = some v → IsStoreKey k :=
  ⟨fun h k v hk => h (k, v) (mem_scan.mpr hk), fun h r hr => h r.1 r.2 (mem_scan.mp hr)⟩

theorem fielded_empty : Fielded ∅ := fielded_iff.mpr (by simp)

theorem Fielded.write (h : Fielded raw) {op : RawOp} (hop : KeepsFielded op) : Fielded (raw.write op) := by
  rw [fielded_iff] at h ⊢
  intro k v hk
  rw [Raw.getElem?_write] at hk
  split_ifs at hk with heq
  · rcases hop with hop | hop
    · rw [hop] at hk; cases hk
    · rwa [← heq]
  · exact h k v hk

theorem Fielded.batch (h : Fielded raw) {ops : List RawOp}
    (hops : ∀ op ∈ ops, KeepsFielded op) : Fielded (raw.batch ops) := by
  induction ops generalizing raw with
  | nil => exact h
  | cons op ops ih => exact ih (h.write (hops op (by simp))) fun o ho => hops o (by simp [ho])

theorem Confined.fielded {α : Type} {m : RawTxn α} (hm : Confined KeepsFielded m) :
    Triple Fielded m fun _ => Fielded := by
  intro s x t hs hrun
  obtain ⟨ops, hops, rfl⟩ := hm s x t hrun
  exact hs.batch hops

/-- Outside the document space. -/
theorem keepsFielded_cons {s : UInt8} (hs : s ≠ spaceDocument) (t : Str) (v : Option Str) :
    KeepsFielded (s :: t, v) :=
  .inr fun h => absurd (Option.some.inj h) hs

theorem keepsFielded_field (a : UInt32) (c : UInt8) (id : UInt64) (f : UInt8) (v : Option Str) :
    KeepsFielded (fieldKey a c id f, v) :=
  .inr fun _ => by simp [fieldKey, documentKey, collectionKey, spaceID]

theorem keepsFielded_fieldOps {a : UInt32} {c : UInt8} {id : UInt64} {fields : Fields} :
    ∀ op ∈ orderedFieldOps a c id fields, KeepsFielded op := by
  intro op hop
  obtain ⟨f, -, rfl⟩ := List.mem_map.mp hop
  exact keepsFielded_field ..

theorem keepsFielded_indexRows {a : UInt32} {extra : List IndexOp} :
    ∀ op ∈ extra.map (indexRow a), KeepsFielded op := by
  intro op hop
  obtain ⟨x, -, rfl⟩ := List.mem_map.mp hop
  cases x <;> exact keepsFielded_cons (by decide) _ _

/-! ### The transactions -/

section Transactions
variable (a : UInt32) (c : UInt8) (id : UInt64) (fields : Fields) (blob : Str) (size : Int64)
  (extra : List IndexOp)

theorem fielded_stageBlobLink : Confined KeepsFielded (stageBlobLink a blob) :=
  confined_stageBlobLink (keepsFielded_cons (by decide) _) (keepsFielded_cons (by decide) _)

theorem fielded_chargeQuota : Confined KeepsFielded (chargeQuota a size) :=
  confined_chargeQuota size (keepsFielded_cons (by decide) _)

theorem keepsFielded_logRows (next : UInt64) (value : Str) :
    ∀ op ∈ ([(changeCounter a, some (beUint64 next)), (changeLogKey a c next, some value)] : List RawOp),
      KeepsFielded op := by
  intro op hop
  simp only [mem_cons, not_mem_nil, or_false] at hop
  rcases hop with rfl | rfl
  · exact keepsFielded_cons (by decide) _ _
  · exact keepsFielded_cons (by decide) _ _

theorem fielded_allocChange (value : Str) : Confined KeepsFielded (allocChange a c value) :=
  (confined_readCounter _).bind fun _ => (confined_append (keepsFielded_logRows _ _ _ _)).bind fun _ =>
    confined_pure _

theorem fielded_deliverOne (mb : UInt64) : Confined KeepsFielded (deliverOne a mb fields blob size extra) := by
  refine (confined_readCounter _).bind fun uid =>
    (confined_putRow (keepsFielded_cons (by decide) _ _)).bind fun _ =>
    (confined_getRow _).bind fun v => (confined_putRow (keepsFielded_field ..)).bind fun _ =>
    (confined_readCounter _).bind fun d => (confined_append ?_).bind fun _ =>
    (confined_append keepsFielded_fieldOps).bind fun _ => (fielded_stageBlobLink a blob).bind fun _ =>
    (fielded_chargeQuota a size).bind fun _ => (fielded_allocChange _ _ _).bind fun _ =>
    (confined_putRow (keepsFielded_cons (by decide) _ _)).bind fun _ =>
    (confined_append keepsFielded_indexRows).bind fun _ => confined_pure _
  simpa using ⟨keepsFielded_cons (by decide) _ _, keepsFielded_field ..⟩

theorem fielded_deliverEmailBatch : ∀ rs : List Request, Confined KeepsFielded (deliverEmailBatch a rs)
  | [] => confined_pure _
  | r :: rs => (fielded_deliverOne a r.fields r.blobID r.size [] r.mailboxID).bind fun _ =>
    (fielded_deliverEmailBatch rs).bind fun _ => confined_pure _

theorem fielded_appendEmailAtomically :
    Confined KeepsFielded (appendEmailAtomically a c id fields blob size extra) :=
  (confined_append keepsFielded_fieldOps).bind fun _ => (fielded_stageBlobLink a blob).bind fun _ =>
    (fielded_chargeQuota a size).bind fun _ => (fielded_allocChange _ _ _).bind fun _ =>
    confined_append keepsFielded_indexRows

theorem fielded_deleteEmailAtomically (requireFlag : Str) (now : UInt64) :
    Confined KeepsFielded (deleteEmailAtomically a c id requireFlag extra now) := by
  refine confined_get.bind fun raw => ?_
  refine (confined_ifSo (confined_throw _)).bind fun _ => (confined_ifSo (confined_throw _)).bind fun _ =>
    (confined_append ?_).bind fun _ => (confined_ifSo (confined_unlinkBlob now
      (keepsFielded_cons (by decide) _) (keepsFielded_cons (by decide) _))).bind fun _ =>
    (confined_ifSo (confined_releaseQuota _ (keepsFielded_cons (by decide) _))).bind fun _ =>
    (fielded_allocChange _ _ _).bind fun _ => confined_append keepsFielded_indexRows
  intro op hop
  obtain ⟨r, -, rfl⟩ := List.mem_map.mp hop
  exact .inl rfl

theorem fielded_updateDocumentAtomically :
    Confined KeepsFielded (updateDocumentAtomically a c id fields extra) :=
  (confined_append keepsFielded_fieldOps).bind fun _ => (fielded_allocChange _ _ _).bind fun _ =>
    confined_append keepsFielded_indexRows

theorem fielded_stageUpdates : ∀ (docs : List (UInt64 × Fields)) (next : UInt64),
    Confined KeepsFielded (stageUpdates a c docs next)
  | [], _ => confined_pure _
  | _ :: docs, next => (confined_append keepsFielded_fieldOps).bind fun _ =>
    (confined_append (keepsFielded_logRows _ _ _ _)).bind fun _ => fielded_stageUpdates docs (next + 1)

theorem fielded_updateDocumentsAtomically (docs : List (UInt64 × Fields)) :
    Confined KeepsFielded (updateDocumentsAtomically a c docs extra) :=
  confined_ifSo ((confined_readCounter _).bind fun _ => (fielded_stageUpdates a c docs _).bind fun _ =>
    confined_append keepsFielded_indexRows)

end Transactions

/-! ### Quota counters -/

/-- The used-bytes counter of an account. -/
def quotaOf (raw : Raw) (a : UInt32) : Int64 := (beUint64Value raw[quotaKey a]?).toInt64

/-- A write that is no quota counter. -/
def NotQuota (op : RawOp) : Prop := op.1.head? ≠ some spaceQuota

theorem NotQuota.ne {op : RawOp} (h : NotQuota op) (a : UInt32) : op.1 ≠ quotaKey a := by
  intro e
  rw [NotQuota, e] at h
  exact h rfl

theorem notQuota_cons {s : UInt8} (hs : s ≠ spaceQuota) (t : Str) (v : Option Str) :
    NotQuota (s :: t, v) := fun h => hs (Option.some.inj h)

/-- The counters are as given. -/
def QuotasAre (q : UInt32 → Int64) (raw : Raw) : Prop := ∀ a, quotaOf raw a = q a

theorem Confined.quotas {α : Type} {m : RawTxn α} (hm : Confined NotQuota m) (q : UInt32 → Int64) :
    Triple (QuotasAre q) m fun _ => QuotasAre q := by
  intro s x t hs hrun a
  obtain ⟨ops, hops, rfl⟩ := hm s x t hrun
  rw [← hs a, quotaOf, quotaOf, Raw.getElem?_batch_of_ne fun op hop => (hops op hop).ne a]

theorem quotaKey_inj {a b : UInt32} (h : quotaKey a = quotaKey b) : a = b :=
  beUint32_inj (cons.inj h).2

theorem beUint64Value_of_decode {v : Option Str} {n : UInt64} (h : decodeCounter v = .ok n) :
    beUint64Value v = n := by
  cases v with
  | none => exact Except.ok.inj h
  | some v =>
    rw [decodeCounter] at h
    split_ifs at h with hlen
    rw [beUint64Value, if_pos hlen, Except.ok.inj h]

theorem beUint64Value_be (n : UInt64) : beUint64Value (some (beUint64 n)) = n :=
  beUint64Value_of_decode (decodeCounter_be n)

/-- A charge adds to its own counter, in 64 bits. -/
theorem quotas_chargeQuota (a : UInt32) (size : Int64) (q : UInt32 → Int64) :
    Triple (QuotasAre q) (chargeQuota a size) fun _ => QuotasAre (Function.update q a (q a + size)) := by
  have hread : Triple (QuotasAre q) (quotaValue (quotaKey a)) fun n raw => QuotasAre q raw ∧ n = q a := by
    refine Triple.bind (readCounter_spec (QuotasAre q) _) fun n => Triple.pure ?_
    rintro raw ⟨hq, hn⟩
    exact ⟨hq, by rw [← hq a, quotaOf, beUint64Value_of_decode hn]⟩
  refine Triple.bind hread fun n => Triple.modify ?_
  rintro raw ⟨hq, rfl⟩ b
  rw [quotaOf, Raw.batch, foldl_cons, foldl_nil, Raw.getElem?_write]
  by_cases hb : b = a
  · subst hb
    rw [if_pos rfl, beUint64Value_be, Function.update_self]
    rfl
  · rw [if_neg fun e => hb (quotaKey_inj e).symm, Function.update_of_ne hb]
    exact hq b

/-- A delivery charges its size to its own account and nothing to any other. -/
theorem quotas_deliverOne (a : UInt32) (mb : UInt64) (fields : Fields) (blob : Str) (size : Int64)
    (extra : List IndexOp) (q : UInt32 → Int64) : Triple (QuotasAre q) (deliverOne a mb fields blob size extra)
      fun _ => QuotasAre (Function.update q a (q a + size)) := by
  have hfields : ∀ (id : UInt64) (fields : Fields), ∀ op ∈ orderedFieldOps a collectionEmail id fields,
      NotQuota op := by
    intro id fields op hop
    obtain ⟨f, -, rfl⟩ := List.mem_map.mp hop
    exact notQuota_cons (by decide) _ _
  have hindex : ∀ op ∈ extra.map (indexRow a), NotQuota op := by
    intro op hop
    obtain ⟨x, -, rfl⟩ := List.mem_map.mp hop
    cases x <;> exact notQuota_cons (by decide) _ _
  refine Triple.bind ((confined_readCounter _).quotas q) fun uid =>
    Triple.bind ((confined_putRow (notQuota_cons (by decide) _ _)).quotas q) fun _ =>
    Triple.bind ((confined_getRow _).quotas q) fun v =>
    Triple.bind ((confined_putRow (notQuota_cons (by decide) _ _)).quotas q) fun _ =>
    Triple.bind ((confined_readCounter _).quotas q) fun d =>
    Triple.bind ((confined_append ?_).quotas q) fun _ =>
    Triple.bind ((confined_append (hfields _ _)).quotas q) fun _ =>
    Triple.bind ((confined_stageBlobLink (notQuota_cons (by decide) _)
      (notQuota_cons (by decide) _)).quotas q) fun _ =>
    Triple.bind (quotas_chargeQuota a size q) fun _ =>
    ((?_ : Confined NotQuota _).quotas _)
  · simpa using ⟨notQuota_cons (by decide) _ _, notQuota_cons (by decide) _ _⟩
  · refine ((confined_readCounter _).bind fun _ => (confined_append ?_).bind fun _ =>
      confined_pure _).bind fun _ => (confined_putRow (notQuota_cons (by decide) _ _)).bind fun _ =>
      (confined_append hindex).bind fun _ => confined_pure _
    simpa using ⟨notQuota_cons (by decide) _ _, notQuota_cons (by decide) _ _⟩

end Mailezine.Store.Bytes
