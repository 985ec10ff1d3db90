import Mailezine.Store.Layout

/-! The change log law.

    Change IDs come from one counter per account and the rows are filed by collection. `LogState` runs
    the store's transactions on the byte store and keeps beside it the journal of what each of them
    recorded; `LogInv` says that the log rows are the journal, row by row. -/

namespace Mailezine.Store.Bytes
open Mailstore Schemes List

/-! ### What is recorded -/

/-- One recorded change; `copy` is the mailbox and the UID that a delete of an Email records. -/
structure Entry where
  collection : UInt8
  docID : UInt64
  op : UInt8
  copy : Option (Str × UInt32) := none

/-- The value of its row. -/
def Entry.encode (e : Entry) : Str :=
  match e.copy with
  | some c => encodeEmailDeleteValue e.collection e.docID c.1 c.2
  | none => encodeChangeValue e.collection e.docID e.op

/-- The change that a reader is owed for it. -/
def Entry.change (e : Entry) (id : UInt64) : Change :=
  { changeID := id, collection := e.collection, docID := e.docID, op := e.op
    mailbox := (e.copy.map (·.1)).getD [], uid := (e.copy.map (·.2)).getD 0 }

/-- Only deletes carry a copy, and the name's length fits in 16 bits. -/
def Entry.Readable (e : Entry) : Prop := ∀ c, e.copy = some c → e.op = opDelete ∧ c.1.length < 2 ^ 16

/-- The changes of a collection past a cursor, in the order they were recorded. -/
def recordedSince (es : List Entry) (collection : UInt8) (after : UInt64) : List Change :=
  ((es.zipIdx 1).filter fun r => r.1.collection = collection ∧ after.toNat < r.2).map fun r =>
    r.1.change (.ofNat r.2)

/-- A log row or a change counter. -/
def isLogKey : Str → Bool
  | [] => false
  | s :: t => s = spaceLog || (s = spaceAccount && t.drop 4 = [counterKindChange])

/-- A transaction of the store. `other` is any batch of writes elsewhere: what the remaining
    operations do to documents, indexes, links, quotas and the registry. -/
inductive LogOp where
  | appendChange (a : UInt32) (collection : UInt8) (docID : UInt64) (op : UInt8)
  | deliverEmail (a : UInt32) (mb : UInt64) (fields : Fields) (blob : Str) (size : Int64)
      (extra : List IndexOp)
  | deliverEmailBatch (a : UInt32) (rs : List Request)
  | appendEmailAtomically (a : UInt32) (collection : UInt8) (docID : UInt64) (fields : Fields)
      (blob : Str) (size : Int64) (extra : List IndexOp)
  | deleteEmailAtomically (a : UInt32) (collection : UInt8) (docID : UInt64) (requireFlag : Str)
      (extra : List IndexOp) (now : UInt64)
  | updateDocumentAtomically (a : UInt32) (collection : UInt8) (docID : UInt64) (fields : Fields)
      (extra : List IndexOp)
  | updateDocumentsAtomically (a : UInt32) (collection : UInt8) (docs : List (UInt64 × Fields))
      (extra : List IndexOp)
  | other (a : UInt32) (ops : List RawOp) (outside : ∀ op ∈ ops, isLogKey op.1 = false)

/-- The account it runs on. -/
def LogOp.account : LogOp → UInt32
  | .appendChange a .. => a
  | .deliverEmail a .. => a
  | .deliverEmailBatch a .. => a
  | .appendEmailAtomically a .. => a
  | .deleteEmailAtomically a .. => a
  | .updateDocumentAtomically a .. => a
  | .updateDocumentsAtomically a .. => a
  | .other a .. => a

/-- Run it, and say what it recorded. -/
def LogOp.run : LogOp → RawTxn (List Entry)
  | .appendChange a collection docID op => do
    let _ ← Bytes.appendChange a collection docID op
    pure [⟨collection, docID, op, none⟩]
  | .deliverEmail a mb fields blob size extra => do
    let r ← deliverOne a mb fields blob size extra
    pure [⟨collectionEmail, r.2.2, opCreate, none⟩]
  | .deliverEmailBatch a rs => do
    let ids ← Bytes.deliverEmailBatch a rs
    pure (ids.map fun id => ⟨collectionEmail, id, opCreate, none⟩)
  | .appendEmailAtomically a collection docID fields blob size extra => do
    Bytes.appendEmailAtomically a collection docID fields blob size extra
    pure [⟨collection, docID, opCreate, none⟩]
  | .deleteEmailAtomically a collection docID requireFlag extra now => do
    let raw ← get
    let rows := raw.scan (documentKey a collection docID)
    Bytes.deleteEmailAtomically a collection docID requireFlag extra now
    pure [⟨collection, docID, opDelete, deletedCopy collection rows⟩]
  | .updateDocumentAtomically a collection docID fields extra => do
    Bytes.updateDocumentAtomically a collection docID fields extra
    pure [⟨collection, docID, opUpdate, none⟩]
  | .updateDocumentsAtomically a collection docs extra => do
    Bytes.updateDocumentsAtomically a collection docs extra
    pure (docs.map fun d => ⟨collection, d.1, opUpdate, none⟩)
  | .other _ ops _ => do
    append ops
    pure []

/-- What each account has recorded, oldest first. -/
abbrev Journal := UInt32 → List Entry

/-- Add to an account's journal. -/
def Journal.add (j : Journal) (a : UInt32) (es : List Entry) : Journal :=
  Function.update j a (j a ++ es)

/-- The byte store and the journal. -/
structure LogState where
  raw : Raw := ∅
  journal : Journal := fun _ => []

/-- One transaction; one that fails changes nothing. -/
def LogState.step (σ : LogState) (op : LogOp) : LogState :=
  match op.run σ.raw with
  | .ok (es, raw) => ⟨raw, σ.journal.add op.account es⟩
  | .error _ => σ

/-- A run. -/
def LogState.run (σ : LogState) (ops : List LogOp) : LogState := ops.foldl LogState.step σ

/-- The value of an account's change counter. -/
def changeCount (raw : Raw) (a : UInt32) : Nat := (beUint64Value raw[changeCounter a]?).toNat

/-- How many change IDs it takes at most. -/
def LogOp.size : LogOp → Nat
  | .deliverEmailBatch _ rs => rs.length
  | .updateDocumentsAtomically _ _ docs _ => docs.length
  | .other .. => 0
  | _ => 1

/-- A transaction that the log can hold: the counter does not reach `2 ^ 64`, and the mailbox name of an
    Email that it deletes is shorter than `2 ^ 16` bytes. -/
def LogOp.fits (raw : Raw) (op : LogOp) : Bool :=
  changeCount raw op.account + op.size < 2 ^ 64 &&
    match op with
    | .deleteEmailAtomically a collection docID _ _ _ =>
      (deletedCopy collection (raw.scan (documentKey a collection docID))).all fun c =>
        c.1.length < 2 ^ 16
    | _ => true

/-- Every transaction of the run fits. -/
def LogState.steady : LogState → List LogOp → Bool
  | _, [] => true
  | σ, op :: ops => op.fits σ.raw && (σ.step op).steady ops

/-! ### Rows decode to what was recorded -/

variable (a : UInt32) (c : UInt8) (id : UInt64)

theorem changeIDFromLogKey_eq : changeIDFromLogKey (changeLogKey a c id) = id := by
  unfold changeIDFromLogKey changeLogKey
  rw [drop_left' (by simp [changeLogPrefix, spaceID]), take_of_length_le (by simp),
    toNat_ofNat_be]

/-- The fixed part of a value, whatever follows it. -/
theorem value_parts (collection : UInt8) (docID : UInt64) (op : UInt8) (tail : Str) :
    let v := encodeChangeValue collection docID op ++ tail
    v.length = 10 + tail.length ∧ v.headD 0 = collection ∧
      UInt64.ofNat (unbe ((v.drop 1).take 8)) = docID ∧ (v.drop 9).headD 0 = op ∧ v.drop 10 = tail := by
  have hv : encodeChangeValue collection docID op ++ tail =
      [collection] ++ (beUint64 docID ++ ([op] ++ tail)) := by simp [encodeChangeValue]
  rw [hv]
  refine ⟨?_, rfl, ?_, ?_, ?_⟩
  · simp; omega
  · show UInt64.ofNat (unbe ((beUint64 docID ++ ([op] ++ tail)).take 8)) = docID
    rw [take_left' (length_beUint64 docID), toNat_ofNat_be]
  · rw [← append_assoc, drop_left' (by simp)]; rfl
  · rw [← append_assoc, ← append_assoc, drop_left' (by simp)]

theorem decodeChange_encode (e : Entry) (h : e.Readable) :
    decodeChange (changeLogKey a c id, e.encode) = some (e.change id) := by
  unfold decodeChange Entry.encode Entry.change
  cases hc : e.copy with
  | none =>
    obtain ⟨hlen, hcol, hdoc, hop, -⟩ := value_parts e.collection e.docID e.op []
    rw [append_nil] at hlen hcol hdoc hop
    simp only [hlen, hcol, hdoc, hop, changeIDFromLogKey_eq, length_nil]
    rw [if_neg (by omega), if_neg (by omega)]
    rfl
  | some copy =>
    obtain ⟨mailbox, uid⟩ := copy
    obtain ⟨hdel, hname⟩ := h _ hc
    have hv : encodeEmailDeleteValue e.collection e.docID mailbox uid =
        encodeChangeValue e.collection e.docID opDelete ++
          (be 8 uid.toNat ++ (be 2 mailbox.length ++ mailbox)) := by
      simp only [encodeEmailDeleteValue, append_assoc]
    obtain ⟨hlen, hcol, hdoc, hop, h10⟩ := value_parts e.collection e.docID opDelete
      (be 8 uid.toNat ++ (be 2 mailbox.length ++ mailbox))
    rw [← hv] at hlen hcol hdoc hop h10
    have h18 : (encodeEmailDeleteValue e.collection e.docID mailbox uid).drop 18 =
        be 2 mailbox.length ++ mailbox := by
      rw [show 18 = 10 + 8 from rfl, ← drop_drop, h10, drop_left' (length_be ..)]
    have h20 : (encodeEmailDeleteValue e.collection e.docID mailbox uid).drop 20 = mailbox := by
      rw [show 20 = 18 + 2 from rfl, ← drop_drop, h18, drop_left' (length_be ..)]
    have huid : (UInt64.ofNat (unbe (be 8 uid.toNat))).toUInt32 = uid := by
      have hlt : uid.toNat < 256 ^ 8 := uid.toNat_lt.trans (by decide)
      rw [unbe_be, Nat.mod_eq_of_lt hlt, UInt64.toUInt32_ofNat', UInt32.ofNat_toNat]
    have hn : unbe (be 2 mailbox.length) = mailbox.length := by
      rw [unbe_be, Nat.mod_eq_of_lt (show mailbox.length < 256 ^ 2 from hname)]
    have hlen' : (encodeEmailDeleteValue e.collection e.docID mailbox uid).length =
        20 + mailbox.length := by rw [hlen]; simp; omega
    have hname' : (if 0 < mailbox.length ∧ 20 + mailbox.length ≤ 20 + mailbox.length then
        mailbox.take mailbox.length else []) = mailbox := by
      rcases mailbox with _ | ⟨b, t⟩ <;> simp
    simp only [hlen', hcol, hdoc, hop, hdel, changeIDFromLogKey_eq, h10, h18, h20,
      take_left' (length_be 8 uid.toNat), take_left' (length_be 2 mailbox.length), hn, huid,
      hname']
    rw [if_neg (by omega), if_pos ⟨trivial, by omega⟩]
    rfl

/-! ### The log is the journal -/

/-- The rows in the log space are the entries of the journal under their numbers, and each account's
    counter is the number of its entries. -/
structure LogInv (j : Journal) (raw : Raw) : Prop where
  counter : ∀ a, decodeCounter raw[changeCounter a]? = .ok (.ofNat (j a).length)
  bounded : ∀ a, (j a).length < 2 ^ 64
  readable : ∀ a, ∀ e ∈ j a, e.Readable
  rows : ∀ (k v : Str), k.head? = some spaceLog → (raw[k]? = some v ↔
    ∃ a i e, (j a)[i]? = some e ∧ k = changeLogKey a e.collection (.ofNat (i + 1)) ∧ v = e.encode)

theorem isLogKey_of_head {k : Str} (h : k.head? = some spaceLog) : isLogKey k = true := by
  cases k with
  | nil => simp at h
  | cons s t => simp_all [isLogKey]

theorem isLogKey_changeCounter : isLogKey (changeCounter a) = true := by
  have : (beUint32 a ++ [counterKindChange]).drop 4 = [counterKindChange] :=
    drop_left' (length_beUint32 a)
  simp [isLogKey, changeCounter, counterKey, spaceID, this]

variable {raw : Raw}

/-- Writes elsewhere leave the log alone. -/
theorem LogInv.batch {j : Journal} (h : LogInv j raw) {ops : List RawOp}
    (hops : ∀ op ∈ ops, isLogKey op.1 = false) : LogInv j (raw.batch ops) := by
  have hkeep : ∀ k, isLogKey k = true → (raw.batch ops)[k]? = raw[k]? := fun k hk =>
    Raw.getElem?_batch_of_ne fun op hop he => by simpa [he, hk] using hops op hop
  refine ⟨fun a => ?_, h.bounded, h.readable, fun k v hk => ?_⟩
  · rw [hkeep _ (isLogKey_changeCounter a)]; exact h.counter a
  · rw [hkeep k (isLogKey_of_head hk)]; exact h.rows k v hk

theorem ofNat_inj {i n : Nat} (hi : i < 2 ^ 64) (hn : n < 2 ^ 64)
    (h : UInt64.ofNat i = UInt64.ofNat n) : i = n := by
  have := congrArg UInt64.toNat h
  rwa [UInt64.toNat_ofNat', UInt64.toNat_ofNat', Nat.mod_eq_of_lt hi, Nat.mod_eq_of_lt hn] at this

/-- A new row under the next number is the journal with one more entry. -/
theorem LogInv.log {j : Journal} (h : LogInv j raw) {a : UInt32} (e : Entry)
    (hlt : (j a).length + 1 < 2 ^ 64) (he : e.Readable) : LogInv (j.add a [e]) (raw.batch
      [(changeCounter a, some (beUint64 (.ofNat (j a).length + 1))),
        (changeLogKey a e.collection (.ofNat (j a).length + 1), some e.encode)]) := by
  have hnext : UInt64.ofNat (j a).length + 1 = UInt64.ofNat ((j a).length + 1) := by
    rw [UInt64.ofNat_add]; rfl
  rw [hnext]
  have hctr : ∀ b, changeCounter b ≠ changeLogKey a e.collection (.ofNat ((j a).length + 1)) := by
    intro b hb
    have : some spaceAccount = some spaceLog := congrArg List.head? hb
    exact absurd this (by decide)
  have hget : ∀ k, (raw.batch [(changeCounter a, some (beUint64 (.ofNat ((j a).length + 1)))),
      (changeLogKey a e.collection (.ofNat ((j a).length + 1)), some e.encode)])[k]? =
      if changeLogKey a e.collection (.ofNat ((j a).length + 1)) = k then some e.encode
      else if changeCounter a = k then some (beUint64 (.ofNat ((j a).length + 1))) else raw[k]? := by
    intro k
    rw [Raw.batch, foldl_cons, foldl_cons, foldl_nil, Raw.getElem?_write,
      Raw.getElem?_write]
  have hj : ∀ b, j.add a [e] b = if a = b then j b ++ [e] else j b := by
    intro b
    by_cases hb : b = a
    · subst hb; simp [Journal.add]
    · simp [Journal.add, hb, Ne.symm hb]
  have hmem : ∀ b i e', (j.add a [e] b)[i]? = some e' ↔
      (j b)[i]? = some e' ∨ b = a ∧ i = (j a).length ∧ e' = e := by
    intro b i e'
    rw [hj]
    split_ifs with hb
    · subst hb
      rw [getElem?_append, getElem?_singleton]
      split_ifs with hi hi' <;> grind
    · simp [Ne.symm hb]
  refine ⟨fun b => ?_, fun b => ?_, fun b e' he' => ?_, fun k v hk => ?_⟩
  · rw [hget, if_neg (hctr b).symm, hj]
    by_cases hb : a = b
    · subst hb
      rw [if_pos rfl, if_pos rfl, decodeCounter_be, length_append, length_singleton]
    · have hne : changeCounter a ≠ changeCounter b := fun he => hb (spaceID_append_inj he).2.1
      rw [if_neg hne, if_neg hb]
      exact h.counter b
  · rw [hj]
    split_ifs with hb
    · subst hb; simpa using hlt
    · exact h.bounded b
  · obtain ⟨i, hi⟩ := mem_iff_getElem?.mp he'
    rcases (hmem b i e').mp hi with hi | ⟨-, -, rfl⟩
    · exact h.readable b e' (mem_of_getElem? hi)
    · exact he
  · have hkc : changeCounter a ≠ k := fun hc => by
      rw [← hc] at hk
      have hk : some spaceAccount = some spaceLog := hk
      exact absurd hk (by decide)
    rw [hget, if_neg hkc]
    constructor
    · split_ifs with hkey
      · rintro ⟨⟩
        exact ⟨a, (j a).length, e, (hmem ..).mpr (.inr ⟨rfl, rfl, rfl⟩), hkey.symm, rfl⟩
      · intro hv
        obtain ⟨b, i, e', hi, hrow⟩ := (h.rows k v hk).mp hv
        exact ⟨b, i, e', (hmem ..).mpr (.inl hi), hrow⟩
    · rintro ⟨b, i, e', hi, rfl, rfl⟩
      rcases (hmem b i e').mp hi with hi | ⟨rfl, rfl, rfl⟩
      · -- the numbers of older entries are smaller
        have hne : changeLogKey a e.collection (.ofNat ((j a).length + 1)) ≠
            changeLogKey b e'.collection (.ofNat (i + 1)) := fun he => by
          obtain ⟨rfl, -, hid⟩ := changeLogKey_inj he
          have hil := (List.getElem?_eq_some_iff.mp hi).1
          have := ofNat_inj hlt (by omega) hid
          omega
        rw [if_neg hne]
        exact (h.rows _ _ hk).mpr ⟨b, i, e', hi, rfl, rfl⟩
      · rw [if_pos rfl]

/-! ### Steps that leave the log alone -/

/-- A transaction that keeps the log as it is. -/
def Quiet {α : Type} (m : RawTxn α) : Prop := ∀ j, Triple (LogInv j) m fun _ => LogInv j

section Quiet
variable {α β : Type}

/-- What a transaction writes outside the log does not touch it. -/
theorem Confined.quiet {m : RawTxn α} (h : Confined (fun op => isLogKey op.1 = false) m) : Quiet m := by
  intro j s x t hinv hrun
  obtain ⟨ops, hops, rfl⟩ := h s x t hrun
  exact hinv.batch hops

theorem quiet_append {ops : List RawOp} (h : ∀ op ∈ ops, isLogKey op.1 = false) :
    Quiet (append ops) := (confined_append h).quiet

theorem quiet_putRow {k : Str} (v : Str) (h : isLogKey k = false) : Quiet (putRow k v) :=
  (confined_putRow h).quiet

theorem quiet_getRow (k : Str) : Quiet (getRow k) := (confined_getRow k).quiet

theorem quiet_readCounter (k : Str) : Quiet (readCounter k) := (confined_readCounter k).quiet

theorem quiet_ifSo {c : Prop} {_ : Decidable c} {m : RawTxn Unit}
    (h : Confined (fun op => isLogKey op.1 = false) m) : Quiet (ifSo c m) := (confined_ifSo h).quiet

end Quiet

/-- A key of another space is no log key. -/
theorem isLogKey_cons {s : UInt8} (t : Str) (hl : s ≠ spaceLog) (ha : s ≠ spaceAccount) :
    isLogKey (s :: t) = false := by
  simp [isLogKey, hl, ha]

theorem isLogKey_field (f : UInt8) : isLogKey (fieldKey a c id f) = false := isLogKey_cons _ (by decide) (by decide)

theorem isLogKey_nextDoc (sub : Str) : isLogKey (counterKey a counterKindNextDoc sub) = false := by
  have : (beUint32 a ++ counterKindNextDoc :: sub).drop 4 = counterKindNextDoc :: sub :=
    drop_left' (length_beUint32 a)
  have hspace : spaceAccount ≠ spaceLog := by decide
  have hkind : counterKindNextDoc ≠ counterKindChange := by decide
  simp [isLogKey, counterKey, spaceID, this, hspace, hkind]

theorem isLogKey_fieldOps {a : UInt32} {c : UInt8} {id : UInt64} {fields : Fields} :
    ∀ op ∈ orderedFieldOps a c id fields, isLogKey op.1 = false := by
  intro op hop
  obtain ⟨f, -, rfl⟩ := List.mem_map.mp hop
  exact isLogKey_field a c id f.1

theorem isLogKey_indexRows {a : UInt32} {extra : List IndexOp} :
    ∀ op ∈ extra.map (indexRow a), isLogKey op.1 = false := by
  intro op hop
  obtain ⟨x, -, rfl⟩ := List.mem_map.mp hop
  cases x <;> exact isLogKey_cons _ (by decide) (by decide)

theorem quiet_stageBlobLink (blob : Str) : Quiet (stageBlobLink a blob) :=
  (confined_stageBlobLink (fun _ => isLogKey_cons _ (by decide) (by decide))
    fun _ => isLogKey_cons _ (by decide) (by decide)).quiet

theorem outside_unlinkBlob (blob : Str) (now : UInt64) :
    Confined (fun op => isLogKey op.1 = false) (unlinkBlob a blob now) :=
  confined_unlinkBlob now (fun _ => isLogKey_cons _ (by decide) (by decide))
    fun _ => isLogKey_cons _ (by decide) (by decide)

theorem quiet_chargeQuota (size : Int64) : Quiet (chargeQuota a size) :=
  (confined_chargeQuota size fun _ => isLogKey_cons _ (by decide) (by decide)).quiet

theorem outside_releaseQuota (size : Int64) : Confined (fun op => isLogKey op.1 = false) (releaseQuota a size) :=
  confined_releaseQuota size fun _ => isLogKey_cons _ (by decide) (by decide)

/-! ### Steps that record -/

/-- From the journal `j`, a transaction adds `es` to the journal of account `a`. -/
def Records {α : Type} (j : Journal) (a : UInt32) (m : RawTxn α) (es : α → List Entry) : Prop :=
  Triple (LogInv j) m fun x => LogInv (j.add a (es x))

section Records
variable {α β : Type} {j : Journal} {a : UInt32}

/-- Quiet work before a record. -/
theorem Records.after {m : RawTxn α} {f : α → RawTxn β} {es : β → List Entry} (hm : Quiet m)
    (hf : ∀ x, Records j a (f x) es) : Records j a (m >>= f) es := Triple.bind (hm j) hf

/-- Quiet work after a record. -/
theorem Records.before {m : RawTxn α} {f : α → RawTxn β} {es : List Entry}
    (hm : Records j a m fun _ => es) (hf : ∀ x, Quiet (f x)) :
    Records j a (m >>= f) fun _ => es := Triple.bind hm fun x => hf x _

/-- A transaction that returns what it has recorded. -/
theorem Records.noted {m : RawTxn α} {es : α → List Entry} (hm : Records j a m es) :
    Triple (LogInv j) (m >>= fun x => pure (es x)) fun es => LogInv (j.add a es) :=
  Triple.bind hm fun _ => Triple.pure fun _ h => h

theorem readCounter_changeCounter (j : Journal) (a : UInt32) : Triple (LogInv j)
    (readCounter (changeCounter a)) fun n raw => LogInv j raw ∧ n = .ofNat (j a).length := by
  refine (readCounter_spec (LogInv j) _).mono (fun _ h => h) ?_
  rintro n raw ⟨h, hn⟩
  rw [h.counter a] at hn
  exact ⟨h, (Except.ok.inj hn).symm⟩

theorem records_allocChange (e : Entry) (hlt : (j a).length + 1 < 2 ^ 64) (he : e.Readable) :
    Records j a (allocChange a e.collection e.encode) fun _ => [e] := by
  refine Triple.bind (readCounter_changeCounter j a) fun n => ?_
  refine Triple.bind (Q := fun _ => LogInv (j.add a [e])) (Triple.modify ?_) fun _ =>
    Triple.pure fun _ h => h
  rintro raw ⟨h, rfl⟩
  exact h.log e hlt he

theorem readable_plain (op : UInt8) : (⟨c, id, op, none⟩ : Entry).Readable := by
  intro c hc; cases hc

theorem records_deliverOne (mb : UInt64) (fields : Fields) (blob : Str) (size : Int64)
    (extra : List IndexOp) (hlt : (j a).length + 1 < 2 ^ 64) :
    Records j a (deliverOne a mb fields blob size extra)
      fun r => [⟨collectionEmail, r.2.2, opCreate, none⟩] := by
  refine .after (quiet_readCounter _) fun n => .after (quiet_putRow _ (isLogKey_nextDoc ..)) fun _ =>
    .after (quiet_getRow _) fun v => .after (quiet_putRow _ (isLogKey_field ..)) fun _ =>
    .after (quiet_readCounter _) fun d => .after (quiet_append ?_) fun _ =>
    .after (quiet_append isLogKey_fieldOps) fun _ => .after (quiet_stageBlobLink a blob) fun _ =>
    .after (quiet_chargeQuota a size) fun _ => ?_
  · simpa using ⟨isLogKey_nextDoc a _, isLogKey_field ..⟩
  · refine Triple.bind (records_allocChange ⟨collectionEmail, d + 1, opCreate, none⟩ hlt
      (readable_plain _ _ _)) fun _ => ?_
    refine Triple.bind (quiet_putRow _ (isLogKey_cons _ (by decide) (by decide)) _) fun _ =>
      Triple.bind (quiet_append isLogKey_indexRows _) fun _ => Triple.pure fun _ h => h

theorem Journal.add_nil (j : Journal) (a : UInt32) : j.add a [] = j := by
  simp [Journal.add]

theorem Journal.add_add (j : Journal) (a : UInt32) (es fs : List Entry) :
    (j.add a es).add a fs = j.add a (es ++ fs) := by
  simp [Journal.add]

theorem Journal.add_self (j : Journal) (a : UInt32) (es : List Entry) : j.add a es a = j a ++ es := by
  simp [Journal.add]

/-- Each message of a batch records its own entry. -/
theorem records_deliverEmailBatch (rs : List Request) : ∀ j : Journal,
    (j a).length + rs.length < 2 ^ 64 → Records j a (deliverEmailBatch a rs)
      fun ids => ids.map fun id => ⟨collectionEmail, id, opCreate, none⟩ := by
  induction rs with
  | nil => exact fun j _ => Triple.pure fun raw h => (Journal.add_nil j a).symm ▸ h
  | cons r rs ih =>
    intro j hlt
    rw [length_cons] at hlt
    refine Triple.bind (records_deliverOne _ _ _ _ _ (by omega)) fun one => ?_
    refine Triple.bind (ih (j.add a _) ?_) fun ids => Triple.pure fun _ h => ?_
    · rw [Journal.add_self, length_append, length_singleton]
      omega
    · rwa [Journal.add_add] at h

theorem records_appendEmailAtomically (fields : Fields) (blob : Str)
    (size : Int64) (extra : List IndexOp) (hlt : (j a).length + 1 < 2 ^ 64) :
    Records j a (appendEmailAtomically a c id fields blob size extra) fun _ => [⟨c, id, opCreate, none⟩] :=
  .after (quiet_append isLogKey_fieldOps) fun _ => .after (quiet_stageBlobLink a blob) fun _ =>
    .after (quiet_chargeQuota a size) fun _ =>
    .before (records_allocChange ⟨c, id, opCreate, none⟩ hlt (readable_plain _ _ _)) fun _ =>
    quiet_append isLogKey_indexRows

theorem records_updateDocumentAtomically (fields : Fields) (extra : List IndexOp) (hlt : (j a).length + 1 < 2 ^ 64) :
    Records j a (updateDocumentAtomically a c id fields extra) fun _ => [⟨c, id, opUpdate, none⟩] :=
  .after (quiet_append isLogKey_fieldOps) fun _ =>
    .before (records_allocChange ⟨c, id, opUpdate, none⟩ hlt (readable_plain _ _ _)) fun _ =>
    quiet_append isLogKey_indexRows

/-- The counter that the loop carries stays the length of the journal. -/
theorem records_stageUpdates (docs : List (UInt64 × Fields)) : ∀ j : Journal,
    (j a).length + docs.length < 2 ^ 64 → Records j a (stageUpdates a c docs (.ofNat (j a).length))
      fun _ => docs.map fun d => ⟨c, d.1, opUpdate, none⟩ := by
  induction docs with
  | nil => exact fun j _ => Triple.pure fun _ h => by rwa [map_nil, Journal.add_nil]
  | cons d docs ih =>
    intro j hlt
    rw [length_cons] at hlt
    refine .after (quiet_append isLogKey_fieldOps) fun _ => ?_
    refine Triple.bind (Q := fun _ => LogInv (j.add a [⟨c, d.1, opUpdate, none⟩])) (Triple.modify
      fun raw h => h.log ⟨c, d.1, opUpdate, none⟩ (by omega) (readable_plain _ _ _)) fun _ => ?_
    have hnext : UInt64.ofNat (j a).length + 1 =
        UInt64.ofNat (j.add a [⟨c, d.1, opUpdate, none⟩] a).length := by
      rw [Journal.add_self, length_append, UInt64.ofNat_add]; rfl
    rw [hnext]
    refine (ih (j.add a [⟨c, d.1, opUpdate, none⟩]) ?_).mono (fun _ h => h) fun _ _ h => ?_
    · rw [Journal.add_self, length_append, length_singleton]
      omega
    · rwa [Journal.add_add] at h

theorem records_updateDocumentsAtomically (docs : List (UInt64 × Fields))
    (extra : List IndexOp) (hlt : (j a).length + docs.length < 2 ^ 64) :
    Records j a (updateDocumentsAtomically a c docs extra) fun _ => docs.map fun d => ⟨c, d.1, opUpdate, none⟩ := by
  unfold updateDocumentsAtomically ifSo
  split_ifs with hdocs
  · refine Triple.bind (readCounter_changeCounter j a) fun n => ?_
    refine Triple.bind (Q := fun _ => LogInv (j.add a (docs.map fun d => ⟨c, d.1, opUpdate, none⟩)))
      ?_ fun _ => quiet_append isLogKey_indexRows _
    rintro raw x raw' ⟨h, rfl⟩ hrun
    exact records_stageUpdates c docs j hlt raw x raw' h hrun
  · rw [not_not.mp hdocs]
    exact Triple.pure fun _ h => by rwa [map_nil, Journal.add_nil]

/-- A delete records the copy that its scan found. -/
theorem records_deleteRows {c : UInt8} {id : UInt64} (requireFlag : Str) (extra : List IndexOp)
    (now : UInt64) {rows : List (Str × Str)} (hdoc : ∀ r ∈ rows, documentKey a c id <+: r.1)
    (hlt : (j a).length + 1 < 2 ^ 64)
    (hname : ∀ copy, deletedCopy c rows = some copy → copy.1.length < 2 ^ 16) :
    Records j a (deleteRows a c id requireFlag extra now rows)
      fun _ => [⟨c, id, opDelete, deletedCopy c rows⟩] := by
  have hrows : ∀ op ∈ rows.map fun r => ((r.1, none) : RawOp), isLogKey op.1 = false := by
    intro op hop
    obtain ⟨r, hr, rfl⟩ := List.mem_map.mp hop
    obtain ⟨t, ht⟩ := hdoc r hr
    rw [← ht]
    exact isLogKey_cons _ (by decide) (by decide)
  have he : (⟨c, id, opDelete, deletedCopy c rows⟩ : Entry).Readable :=
    fun copy hcopy => ⟨rfl, hname copy hcopy⟩
  have hval : deleteValue c id (deletedCopy c rows) =
      (⟨c, id, opDelete, deletedCopy c rows⟩ : Entry).encode := by
    unfold Entry.encode deleteValue
    cases deletedCopy c rows <;> rfl
  unfold deleteRows
  rw [hval]
  exact .after (quiet_ifSo (confined_throw _)) fun _ => .after (quiet_ifSo (confined_throw _)) fun _ =>
    .after (quiet_append hrows) fun _ => .after (quiet_ifSo (outside_unlinkBlob _ _ _)) fun _ =>
    .after (quiet_ifSo (outside_releaseQuota _ _)) fun _ =>
    .before (records_allocChange ⟨c, id, opDelete, deletedCopy c rows⟩ hlt he) fun _ =>
    quiet_append isLogKey_indexRows

end Records

/-! ### Runs -/

theorem LogInv.changeCount {j : Journal} (h : LogInv j raw) (a : UInt32) :
    changeCount raw a = (j a).length := by
  have hc := h.counter a
  unfold Bytes.changeCount
  cases hv : raw[changeCounter a]? with
  | none =>
    rw [hv] at hc
    have := congrArg UInt64.toNat (Except.ok.inj hc)
    rw [UInt64.toNat_ofNat', Nat.mod_eq_of_lt (h.bounded a)] at this
    simpa [beUint64Value] using this
  | some v =>
    rw [hv, decodeCounter] at hc
    split_ifs at hc with hlen
    rw [beUint64Value, if_pos hlen, Except.ok.inj hc, UInt64.toNat_ofNat',
      Nat.mod_eq_of_lt (h.bounded a)]

/-- What one transaction adds to the log is what it recorded. -/
theorem LogInv.run {j : Journal} (h : LogInv j raw) (op : LogOp)
    (hfit : op.fits raw = true) {es : List Entry} {raw' : Raw} (hrun : op.run raw = .ok (es, raw')) :
    LogInv (j.add op.account es) raw' := by
  unfold LogOp.fits at hfit
  rw [Bool.and_eq_true, decide_eq_true_eq, h.changeCount] at hfit
  obtain ⟨hlt, hname⟩ := hfit
  cases op with
  | appendChange a c id op =>
    exact (records_allocChange ⟨c, id, op, none⟩ hlt (readable_plain _ _ _)).noted raw es raw' h hrun
  | deliverEmail a mb fields blob size extra =>
    exact (records_deliverOne mb fields blob size extra hlt).noted raw es raw' h hrun
  | deliverEmailBatch a rs =>
    exact (records_deliverEmailBatch rs j hlt).noted raw es raw' h hrun
  | appendEmailAtomically a c id fields blob size extra =>
    exact (records_appendEmailAtomically c id fields blob size extra hlt).noted raw es raw' h hrun
  | deleteEmailAtomically a c id requireFlag extra now =>
    have hdoc : ∀ r ∈ raw.scan (documentKey a c id), documentKey a c id <+: r.1 := fun r hr =>
      isPrefixOf_iff_prefix.mp (mem_filter.mp hr).2
    have hname' : ∀ copy, deletedCopy c (raw.scan (documentKey a c id)) = some copy →
        copy.1.length < 2 ^ 16 := fun copy hcopy => by simpa [hcopy] using hname
    exact (records_deleteRows requireFlag extra now hdoc hlt hname').noted raw es raw' h hrun
  | updateDocumentAtomically a c id fields extra =>
    exact (records_updateDocumentAtomically c id fields extra hlt).noted raw es raw' h hrun
  | updateDocumentsAtomically a c docs extra =>
    exact (records_updateDocumentsAtomically c docs extra hlt).noted raw es raw' h hrun
  | other a ops outside =>
    refine Triple.bind (quiet_append outside j)
      (fun _ => Triple.pure (Q := fun es => LogInv (j.add a es)) fun _ h => ?_) raw es raw' h hrun
    exact (Journal.add_nil j a).symm ▸ h

theorem LogInv.step {σ : LogState} (h : LogInv σ.journal σ.raw) (op : LogOp)
    (hfit : op.fits σ.raw = true) : LogInv (σ.step op).journal (σ.step op).raw := by
  unfold LogState.step
  cases hrun : op.run σ.raw with
  | ok r => exact h.run op hfit hrun
  | error e => exact h

theorem LogInv.steady (ops : List LogOp) : ∀ {σ : LogState}, LogInv σ.journal σ.raw →
    σ.steady ops = true → LogInv (σ.run ops).journal (σ.run ops).raw := by
  induction ops with
  | nil => exact fun h _ => h
  | cons op ops ih =>
    intro σ h hs
    obtain ⟨hfit, hrest⟩ := Bool.and_eq_true_iff.mp hs
    exact ih (h.step op hfit) hrest

theorem logInv_empty : LogInv (fun _ => []) (∅ : Raw) where
  counter := fun _ => by simp [decodeCounter]
  bounded := fun _ => by simp
  readable := by simp
  rows := by simp

/-! ### Reading from a cursor -/

/-- A range from inside a prefix to its end has the keys of the prefix from there on. -/
theorem mem_scanRange {p s e : Str} (he : prefixEnd p = some e) (r : Str × Str) :
    (compare r.1 (p ++ s) ≠ .lt && (some e).all fun e => compare r.1 e = .lt) = true ↔
      ∃ t, r.1 = p ++ t ∧ compare t s ≠ .lt := by
  have hpre := isPrefix_iff_of_prefixEnd he
  rw [Bool.and_eq_true, decide_eq_true_eq, Option.all_some, decide_eq_true_eq]
  constructor
  · rintro ⟨hge, hlt⟩
    obtain ⟨t, ht⟩ := (hpre r.1).mpr ⟨compare_ne_lt_of_append hge, hlt⟩
    exact ⟨t, ht.symm, by rwa [← ht, compare_append] at hge⟩
  · rintro ⟨t, ht, hge⟩
    exact ⟨by rwa [ht, compare_append], ((hpre r.1).mp (ht ▸ prefix_append p t)).2⟩

theorem pairwise_zipIdx {α : Type} (l : List α) (n : Nat) : (l.zipIdx n).Pairwise fun r s => r.2 < s.2 := by
  rw [← pairwise_map, zipIdx_map_snd]
  exact pairwise_lt_range'

theorem compare_beUint64 (v w : UInt64) : compare (beUint64 v) (beUint64 w) = compare v.toNat w.toNat := by
  rw [beUint64, beUint64, compare_be, Nat.mod_eq_of_lt (show v.toNat < 256 ^ 8 from v.toNat_lt),
    Nat.mod_eq_of_lt (show w.toNat < 256 ^ 8 from w.toNat_lt)]

/-- READ: from a cursor below the last number, the reader gets what was recorded past it. -/
theorem LogInv.changesSince {j : Journal} (h : LogInv j raw) (a : UInt32)
    (collection : UInt8) {after : UInt64} (hafter : after.toNat + 1 < 2 ^ 64) :
    changesSince raw a collection after = recordedSince (j a) collection after := by
  obtain ⟨e, hend⟩ : ∃ e, prefixEnd (changeLogPrefix a collection) = some e :=
    prefixEnd_isSome_of_lt (show spaceLog < 0xff by decide) (beUint32 a ++ [collection])
  have hnext : (after + 1).toNat = after.toNat + 1 := by
    rw [UInt64.toNat_add]
    exact Nat.mod_eq_of_lt hafter
  let wanted := (j a).zipIdx 1 |>.filter fun r => r.1.collection = collection ∧ after.toNat < r.2
  have hmem : ∀ r, r ∈ wanted ↔ (1 ≤ r.2 ∧ (j a)[r.2 - 1]? = some r.1) ∧
      r.1.collection = collection ∧ after.toNat < r.2 := fun r => by
    rw [mem_filter, mem_zipIdx_iff_le_and_getElem?_sub, decide_eq_true_eq]
  have hid : ∀ r ∈ wanted, (UInt64.ofNat r.2).toNat = r.2 := by
    intro r hr
    have hlt := (List.getElem?_eq_some_iff.mp ((hmem r).mp hr).1.2).1
    have hb := h.bounded a
    rw [UInt64.toNat_ofNat', Nat.mod_eq_of_lt (by omega)]
  have hscan : raw.scanRange (changeLogKey a collection (after + 1))
      (prefixEnd (changeLogPrefix a collection)) =
      wanted.map fun r => (changeLogKey a collection (.ofNat r.2), r.1.encode) := by
    unfold Raw.scanRange
    rw [hend]
    refine filter_scan_eq ?_ fun r => ?_
    · rw [pairwise_map]
      refine ((pairwise_zipIdx (j a) 1).filter _).imp_of_mem fun {r s} hr hs hrs => ?_
      simp only [changeLogKey, compare_append, compare_beUint64, hid r hr, hid s hs]
      exact Nat.compare_eq_lt.mpr hrs
    · rw [changeLogKey, mem_scanRange hend, List.mem_map]
      constructor
      · rintro ⟨w, hw, rfl⟩
        obtain ⟨⟨hle, hget⟩, hcol, hlt⟩ := (hmem w).mp hw
        refine ⟨(h.rows _ _ rfl).mpr ⟨a, w.2 - 1, w.1, hget, ?_, rfl⟩, beUint64 (.ofNat w.2), rfl, ?_⟩
        · rw [hcol, Nat.sub_add_cancel hle]
        · rw [compare_beUint64, hid w hw, hnext, Ne, Nat.compare_eq_lt]
          omega
      · rintro ⟨hrow, t, ht, hge⟩
        have hhead : r.1.head? = some spaceLog := by rw [ht]; rfl
        obtain ⟨b, i, e', hget, hk, hv⟩ := (h.rows r.1 r.2 hhead).mp hrow
        obtain ⟨rfl, rfl, rfl⟩ := changeLogPrefix_append_inj (ht.symm.trans hk)
        have hi : i + 1 < 2 ^ 64 := by
          have hlt := (List.getElem?_eq_some_iff.mp hget).1
          have hb := h.bounded a
          omega
        rw [compare_beUint64, hnext, UInt64.toNat_ofNat', Nat.mod_eq_of_lt hi, Ne,
          Nat.compare_eq_lt] at hge
        refine ⟨(e', i + 1), (hmem _).mpr ⟨⟨by omega, by simpa using hget⟩, rfl, by omega⟩, ?_⟩
        exact Prod.ext hk.symm hv.symm
  unfold Bytes.changesSince recordedSince
  rw [hscan, filterMap_map]
  refine filterMap_eq_map_iff_forall_eq_some.mpr fun r hr => ?_
  exact decodeChange_encode _ _ _ _ (h.readable a r.1 (mem_of_getElem? ((hmem r).mp hr).1.2))

/-- A row under a change ID is the journal's entry of that number. -/
theorem LogInv.mem_iff {j : Journal} (h : LogInv j raw) (a : UInt32) (c : UInt8)
    (id : UInt64) : changeLogKey a c id ∈ raw ↔
      ∃ i e, (j a)[i]? = some e ∧ e.collection = c ∧ id.toNat = i + 1 := by
  have hlt : ∀ {i e}, (j a)[i]? = some e → i + 1 < 2 ^ 64 := fun hi => by
    have := (List.getElem?_eq_some_iff.mp hi).1
    have := h.bounded a
    omega
  rw [Std.ExtTreeMap.mem_iff_isSome_getElem?, Option.isSome_iff_exists]
  constructor
  · rintro ⟨v, hv⟩
    obtain ⟨b, i, e, hi, hk, -⟩ := (h.rows _ v rfl).mp hv
    obtain ⟨rfl, hc, rfl⟩ := changeLogKey_inj hk
    exact ⟨i, e, hi, hc.symm, by rw [UInt64.toNat_ofNat', Nat.mod_eq_of_lt (hlt hi)]⟩
  · rintro ⟨i, e, hi, rfl, hid⟩
    refine ⟨e.encode, (h.rows _ _ rfl).mpr ⟨a, i, e, hi, ?_, rfl⟩⟩
    rw [← hid, UInt64.ofNat_toNat]

/-- LOGGED: in a run whose transactions the log can hold, every row in an account's log has a change ID
    under some collection, the IDs are `1` up to the account's counter, none is in two collections, and
    a reader whose cursor is not the last number gets exactly what was recorded in its collection past
    the cursor, in order. -/
theorem change_log_law (ops : List LogOp) (hsteady : ({} : LogState).steady ops = true) (a : UInt32) :
    let σ := ({} : LogState).run ops
    (∀ k ∈ σ.raw, spaceID spaceLog a <+: k → ∃ c id, k = changeLogKey a c id) ∧
    (∀ id : UInt64, (∃ c, changeLogKey a c id ∈ σ.raw) ↔
      1 ≤ id.toNat ∧ id.toNat ≤ changeCount σ.raw a) ∧
    (∀ (id : UInt64) c d, changeLogKey a c id ∈ σ.raw → changeLogKey a d id ∈ σ.raw → c = d) ∧
    ∀ (collection : UInt8) (after : UInt64), after.toNat + 1 < 2 ^ 64 →
      changesSince σ.raw a collection after = recordedSince (σ.journal a) collection after := by
  intro σ
  have h : LogInv σ.journal σ.raw := LogInv.steady ops logInv_empty hsteady
  refine ⟨fun k hk hpre => ?_, fun id => ⟨fun ⟨c, hc⟩ => ?_, fun ⟨h1, hn⟩ => ?_⟩,
    fun id c d hc hd => ?_, fun c after hafter => h.changesSince a c hafter⟩
  · obtain ⟨t, ht⟩ := hpre
    rw [Std.ExtTreeMap.mem_iff_isSome_getElem?, Option.isSome_iff_exists] at hk
    obtain ⟨v, hv⟩ := hk
    obtain ⟨b, i, e, -, hkey, -⟩ := (h.rows k v (by rw [← ht]; rfl)).mp hv
    rw [changeLogKey, changeLogPrefix, append_assoc] at hkey
    obtain ⟨-, rfl, -⟩ := spaceID_append_inj (ht.trans hkey)
    exact ⟨e.collection, _, by rw [hkey, changeLogKey, changeLogPrefix, append_assoc]⟩
  · obtain ⟨i, e, hi, -, hid⟩ := (h.mem_iff a c id).mp hc
    have hlt := (List.getElem?_eq_some_iff.mp hi).1
    rw [h.changeCount]
    omega
  · rw [h.changeCount] at hn
    obtain ⟨e, he⟩ : ∃ e, (σ.journal a)[id.toNat - 1]? = some e :=
      ⟨_, getElem?_eq_getElem (by omega)⟩
    exact ⟨e.collection, (h.mem_iff a _ id).mpr ⟨id.toNat - 1, e, he, rfl, by omega⟩⟩
  · obtain ⟨i, e, hi, rfl, hid⟩ := (h.mem_iff a c id).mp hc
    obtain ⟨i', e', hi', rfl, hid'⟩ := (h.mem_iff a d id).mp hd
    obtain rfl : i = i' := by omega
    rw [Option.mem_unique hi hi']

/-- A delivery to mailbox 1 of account 1, the delete of its document, and an update. -/
def sampleLog : List LogOp :=
  [.deliverEmail 1 1 [(emailFieldMailbox, ascii "INBOX"), (emailFieldBlob, ascii "b")] (ascii "b") 3 [],
    .updateDocumentAtomically 1 collectionMailbox 1 [] [],
    .deleteEmailAtomically 1 collectionEmail 1 [] [.dropRow 1 1] 0]

theorem change_log_sample : changesSince (({} : LogState).run sampleLog).raw 1 collectionEmail 1 =
      [⟨3, collectionEmail, 1, opDelete, ascii "INBOX", 1⟩] :=
  ((change_log_law sampleLog (by decide +kernel) 1).2.2.2 collectionEmail 1 (by decide)).trans
    (by decide +kernel)

/-- The last cursor wraps: a reader that has seen every possible change gets all of them again. -/
theorem changesSince_wraps :
    changesSince (({} : LogState).run sampleLog).raw 1 collectionEmail 0xffffffffffffffff =
      [⟨1, collectionEmail, 1, opCreate, [], 0⟩, ⟨3, collectionEmail, 1, opDelete, ascii "INBOX", 1⟩] ∧
    recordedSince ((({} : LogState).run sampleLog).journal 1) collectionEmail 0xffffffffffffffff = [] := by
  decide +kernel

end Mailezine.Store.Bytes
