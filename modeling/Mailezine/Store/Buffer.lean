import Mailezine.Store.Key
import Mailezine.Schemes.Script
import Mathlib.Data.List.Nodup

/-! The transaction buffers of `txn.go` and `memkv.go`.

    A closure of `WithTxn` sees its own writes although nothing reaches the engine before the commit:
    both buffers keep one staged operation per key, in the place where the key was first written, and
    an index from keys to places. `bufTxn` merges a staged scan with the base scan and sorts; the
    in-memory engine overlays a copy of its map. Both mean the same as applying every mutation to the
    map at once. -/

namespace Mailezine.Store.Buffer
open Mailstore Schemes List

/-! ### Closures -/

/-- The calls of `TxnOps`. -/
inductive Call where
  | get (key : Str)
  | put (key val : Str)
  | delete (key : Str)
  | append (ops : List RawOp)
  | scan (pre : Str)

/-- What a call returns; `Get` of a missing key is `ErrNotFound`. -/
def Call.Answer : Call → Type
  | .get _ => Option Str
  | .scan _ => List (Str × Str)
  | .put .. | .delete _ | .append _ => Unit

/-- The mutations of a call. -/
def Call.ops : Call → List RawOp
  | .put k v => [(k, some v)]
  | .delete k => [(k, none)]
  | .append ops => ops
  | .get _ | .scan _ => []

/-- The closure given to `WithTxn`: each call may depend on the answers before it. -/
abbrev Closure (ε α : Type) := Script Call Call.Answer (Except ε α)

/-- The calls of a closure with their answers. -/
abbrev Log := List (Exchange Call Call.Answer)

/-- The mutations of a closure in order. -/
def mutations (log : Log) : List RawOp := log.flatMap fun e => e.1.ops

/-- What a call returns on a plain map. -/
def Call.answer : (c : Call) → Raw → c.Answer
  | .get k, raw => raw[k]?
  | .scan pre, raw => raw.scan pre
  | .put .., _ | .delete _, _ | .append _, _ => ()

/-- Calls on a plain map that is changed at once. -/
def plain : Handler Call Call.Answer Raw := fun c raw => (c.answer raw, raw.batch c.ops)

/-! ### Staged operations -/

/-- The staged operations with the place of each key. -/
structure Staged where
  idx : Names Nat
  ops : List RawOp
  indexed : ∀ (k : Str) (i : Nat), idx[k]? = some i ↔ ∃ v, ops[i]? = some (k, v)

/-- Nothing staged. -/
def Staged.empty : Staged := ⟨∅, [], by simp⟩

/-- `stage` on the fields: overwrite the place of the key, or open one at the end. -/
def stageOp (idx : Names Nat) (ops : List RawOp) (op : RawOp) : Names Nat × List RawOp :=
  match idx[op.1]? with
  | some i => (idx, ops.set i op)
  | none => (idx.insert op.1 ops.length, ops ++ [op])

theorem stageOp_indexed {idx : Names Nat} {ops : List RawOp} (op : RawOp)
    (h : ∀ (k : Str) (i : Nat), idx[k]? = some i ↔ ∃ v, ops[i]? = some (k, v)) (k : Str) (i : Nat) :
    (stageOp idx ops op).1[k]? = some i ↔ ∃ v, (stageOp idx ops op).2[i]? = some (k, v) := by
  unfold stageOp
  cases hidx : idx[op.1]? with
  | some j =>
    -- the place keeps its key
    obtain ⟨w, hj⟩ := (h _ _).mp hidx
    have hlt : j < ops.length := (List.getElem?_eq_some_iff.mp hj).1
    simp only [h k i, getElem?_set]
    by_cases hij : j = i
    · subst hij
      rw [hj, if_pos rfl, if_pos hlt]
      simp [Prod.ext_iff]
    · simp [hij]
  | none =>
    have hfresh : ∀ i v, ops[i]? ≠ some (op.1, v) := fun i v hi => by
      simpa [hidx] using (h op.1 i).mpr ⟨v, hi⟩
    simp only [getElem?_insert_row]
    by_cases hk : op.1 = k
    · subst hk
      rcases lt_trichotomy i ops.length with hi | rfl | hi
      · simp [getElem?_append_left hi, hfresh, hi.ne']
      · simp [Prod.ext_iff]
      · simp [getElem?_append_right hi.le, hi.ne, (Nat.sub_pos_of_lt hi).ne']
    · rw [if_neg hk, h k i]
      rcases lt_trichotomy i ops.length with hi | rfl | hi
      · simp [getElem?_append_left hi]
      · simp [Prod.ext_iff, hk]
      · simp [getElem?_append_right hi.le, hi.le, (Nat.sub_pos_of_lt hi).ne']

/-- `stage`. -/
def Staged.stage (w : Staged) (op : RawOp) : Staged :=
  ⟨(stageOp w.idx w.ops op).1, (stageOp w.idx w.ops op).2, stageOp_indexed op w.indexed⟩

/-- `Append`. -/
def Staged.append (w : Staged) (ops : List RawOp) : Staged := ops.foldl Staged.stage w

/-- `Get`: the staged operation of the key, else the base. -/
def Staged.get (base : Raw) (w : Staged) (k : Str) : Option Str :=
  match w.idx[k]? with
  | some i => (w.ops[i]?).bind (·.2)
  | none => base[k]?

/-- `writeBuf.Scan`. -/
def Staged.writeBufScan (base : Raw) (w : Staged) (pre : Str) : List (Str × Str) :=
  let staged := w.ops.filter fun op => pre.isPrefixOf op.1
  let fresh := staged.filterMap fun op => op.2.map (op.1, ·)
  let old := (base.scan pre).filter fun r => !(staged.map (·.1)).contains r.1
  (fresh ++ old).mergeSort fun a b => (compare a.1 b.1).isLE

/-- `memTxn.Scan`. -/
def Staged.memScan (m : Raw) (w : Staged) (pre : Str) : List (Str × Str) :=
  let merged : Raw := m.filter fun k _ => pre.isPrefixOf k
  (Raw.batch merged (w.ops.filter fun op => pre.isPrefixOf op.1)).toList

/-- A buffer over a base map; the two differ in how they scan. -/
def buffer (scan : Staged → Str → List (Str × Str)) (base : Raw) : Handler Call Call.Answer Staged
  | .get k, w => (w.get base k, w)
  | .put k v, w => ((), w.stage (k, some v))
  | .delete k, w => ((), w.stage (k, none))
  | .append ops, w => ((), w.append ops)
  | .scan pre, w => (scan w pre, w)

/-- `writeBuf`. -/
def writeBuf (base : Raw) : Handler Call Call.Answer Staged := buffer (Staged.writeBufScan base) base

/-- `memTxn`. -/
def memTxn (m : Raw) : Handler Call Call.Answer Staged := buffer (Staged.memScan m) m

/-- What `WithTxn` leaves: the answers its closure saw, its result, and the base. -/
abbrev Commit (ε α : Type) := Outcome Call Call.Answer (Except ε α) Raw

/-- `WithTxn` over a buffer: an error drops the staged operations, else they are one batch. -/
def commit {ε α : Type} (base : Raw) (o : Outcome Call Call.Answer (Except ε α) Staged) : Commit ε α :=
  { o with
    state := match o.result with
      | .error _ => base
      | .ok _ => base.batch o.state.ops }

/-- `bufTxn.WithTxn`. -/
def bufTxnWithTxn {ε α : Type} (base : Raw) (fn : Closure ε α) : Commit ε α :=
  commit base (fn.run (writeBuf base) .empty)

/-- `MemoryKV.WithTxn`. -/
def memoryWithTxn {ε α : Type} (m : Raw) (fn : Closure ε α) : Commit ε α :=
  commit m (fn.run (memTxn m) .empty)

/-! ### One operation per key -/

theorem Staged.nodup (w : Staged) : (w.ops.map (·.1)).Nodup := by
  rw [nodup_iff_getElem?_ne_getElem?]
  intro i j hij hj
  have hi : i < w.ops.length := by simpa using hij.trans hj
  have hj : j < w.ops.length := by simpa using hj
  rw [getElem?_map, getElem?_map, getElem?_eq_getElem hi, getElem?_eq_getElem hj]
  intro he
  have he : w.ops[i].1 = w.ops[j].1 := by simpa using he
  have h₁ := (w.indexed w.ops[i].1 i).mpr ⟨w.ops[i].2, getElem?_eq_getElem hi⟩
  have h₂ := (w.indexed w.ops[j].1 j).mpr ⟨w.ops[j].2, getElem?_eq_getElem hj⟩
  rw [he, h₂, Option.some.injEq] at h₁
  exact hij.ne' h₁

/-- An operation of a batch that writes each key once decides its key. -/
theorem getElem?_batch_of_mem {ops : List RawOp} {k : Str} {v : Option Str} :
    ∀ {raw : Raw}, (ops.map (·.1)).Nodup → (k, v) ∈ ops → (raw.batch ops)[k]? = v := by
  induction ops with
  | nil => intro _ _ hmem; cases hmem
  | cons op ops ih =>
    intro raw hnd hmem
    obtain ⟨hout, hnd⟩ := nodup_cons.mp hnd
    rcases mem_cons.mp hmem with rfl | hmem
    · have hne : ∀ o ∈ ops, o.1 ≠ k := fun o ho he => hout (List.mem_map.mpr ⟨o, ho, he⟩)
      exact (Raw.getElem?_batch_of_ne hne).trans (by rw [Raw.getElem?_write, if_pos rfl])
    · exact ih hnd hmem

/-- The map a buffer stands for. -/
def Staged.view (base : Raw) (w : Staged) : Raw := base.batch w.ops

theorem Staged.not_mem_of_idx {w : Staged} {k : Str} (h : w.idx[k]? = none) : ∀ op ∈ w.ops, op.1 ≠ k := by
  rintro op hop rfl
  obtain ⟨i, hi⟩ := mem_iff_getElem?.mp hop
  simpa [h] using (w.indexed op.1 i).mpr ⟨op.2, hi⟩

variable (base : Raw) (w : Staged)

/-- READ YOUR WRITES: a point read of the buffer is a point read of the map it stands for. -/
theorem Staged.get_eq (k : Str) : w.get base k = (w.view base)[k]? := by
  unfold Staged.get Staged.view
  cases hidx : w.idx[k]? with
  | none => exact (Raw.getElem?_batch_of_ne (w.not_mem_of_idx hidx)).symm
  | some i =>
    obtain ⟨v, hv⟩ := (w.indexed k i).mp hidx
    rw [getElem?_batch_of_mem w.nodup (mem_of_getElem? hv)]
    simp [hv]

theorem Staged.get_stage (op : RawOp) (k : Str) :
    (w.stage op).get base k = if op.1 = k then op.2 else w.get base k := by
  change (match (stageOp w.idx w.ops op).1[k]? with
    | some i => ((stageOp w.idx w.ops op).2[i]?).bind (·.2)
    | none => base[k]?) = _
  unfold Staged.get stageOp
  cases hidx : w.idx[op.1]? with
  | none =>
    simp only [getElem?_insert_row]
    by_cases hk : op.1 = k
    · simp [hk]
    · simp only [if_neg hk]
      cases hk' : w.idx[k]? with
      | none => rfl
      | some i =>
        obtain ⟨v, hv⟩ := (w.indexed k i).mp hk'
        simp [getElem?_append_left (List.getElem?_eq_some_iff.mp hv).1]
  | some j =>
    obtain ⟨v, hj⟩ := (w.indexed _ _).mp hidx
    by_cases hk : op.1 = k
    · subst hk
      simp [hidx, (List.getElem?_eq_some_iff.mp hj).1]
    · simp only [if_neg hk]
      cases hk' : w.idx[k]? with
      | none => rfl
      | some i =>
        -- another key has another place
        have hji : j ≠ i := by
          rintro rfl
          obtain ⟨v', hv'⟩ := (w.indexed k j).mp hk'
          rw [hj, Option.some.injEq, Prod.ext_iff] at hv'
          exact hk hv'.1
        simp [getElem?_set_ne hji]

/-- Staging an operation is applying it. -/
theorem Staged.view_stage (op : RawOp) : (w.stage op).view base = (w.view base).write op := by
  refine Std.ExtTreeMap.ext_getElem? fun k => ?_
  rw [← Staged.get_eq, Staged.get_stage, Staged.get_eq, Raw.getElem?_write]

theorem Staged.view_append (ops : List RawOp) : ∀ w : Staged, (w.append ops).view base = (w.view base).batch ops := by
  induction ops with
  | nil => intro w; rfl
  | cons op ops ih =>
    intro w
    have hstep : (w.append (op :: ops)).view base = ((w.stage op).view base).batch ops := ih (w.stage op)
    rw [hstep, Staged.view_stage, Raw.batch, Raw.batch, foldl_cons]

/-! ### Scans -/

/-- Operations outside the scanned prefix do not show under it. -/
theorem getElem?_overlay {pre k : Str} (ops : List RawOp) : ∀ {x m : Raw},
    x[k]? = (if pre.isPrefixOf k then m[k]? else none) →
      (x.batch (ops.filter fun op => pre.isPrefixOf op.1))[k]? =
        if pre.isPrefixOf k then (m.batch ops)[k]? else none := by
  induction ops with
  | nil => exact fun h => h
  | cons op ops ih =>
    intro x m h
    by_cases hop : pre.isPrefixOf op.1 = true
    · rw [filter_cons, if_pos hop]
      refine ih (x := x.write op) (m := m.write op) ?_
      rw [Raw.getElem?_write, Raw.getElem?_write, h]
      by_cases hk : op.1 = k
      · simp [hk, hk ▸ hop]
      · simp [hk]
    · rw [filter_cons, if_neg hop]
      refine ih (m := m.write op) ?_
      rw [Raw.getElem?_write, h]
      by_cases hk : op.1 = k
      · simp [hk ▸ hop]
      · simp [hk]

/-- `memTxn.Scan` is the scan of the map it stands for. -/
theorem Staged.memScan_eq (m : Raw) (w : Staged) (pre : Str) : w.memScan m pre = (w.view m).scan pre := by
  refine (filter_scan_eq Std.ExtTreeMap.ordered_keys_toList fun r => ?_).symm
  have hbase : (m.filter fun k _ => pre.isPrefixOf k)[r.1]? =
      if pre.isPrefixOf r.1 then m[r.1]? else none := by
    rw [Std.ExtTreeMap.getElem?_filter']
    cases pre.isPrefixOf r.1 <;> cases m[r.1]? <;> rfl
  rw [mem_scan, getElem?_overlay w.ops hbase, Staged.view]
  cases pre.isPrefixOf r.1 <;> simp

theorem Staged.view_of_mem {w : Staged} {k : Str} {v : Option Str} (h : (k, v) ∈ w.ops) : (w.view base)[k]? = v :=
  getElem?_batch_of_mem w.nodup h

/-- The rows that `writeBuf.Scan` merges are the rows of the map it stands for. -/
theorem Staged.mem_merged (pre : Str) (r : Str × Str) :
    r ∈ w.writeBufScan base pre ↔ (w.view base)[r.1]? = some r.2 ∧ pre.isPrefixOf r.1 = true := by
  obtain ⟨k, x⟩ := r
  simp only [Staged.writeBufScan, mem_mergeSort, mem_append, mem_filterMap,
    mem_filter, Raw.scan, mem_scan]
  by_cases hk : ∃ v, (k, v) ∈ w.ops
  · obtain ⟨v, hv⟩ := hk
    rw [Staged.view_of_mem base hv]
    constructor
    · rintro (⟨op, ⟨hop, hpre⟩, hx⟩ | ⟨⟨-, hpre⟩, hout⟩)
      · obtain ⟨y, hy, he⟩ := Option.map_eq_some_iff.mp hx
        cases he
        have hvy : v = op.2 := (Staged.view_of_mem base hv).symm.trans (Staged.view_of_mem base hop)
        exact ⟨hvy.trans hy, hpre⟩
      · have hin : k ∈ (w.ops.filter fun op => pre.isPrefixOf op.1).map (·.1) :=
          List.mem_map.mpr ⟨(k, v), mem_filter.mpr ⟨hv, hpre⟩, rfl⟩
        simp [hin] at hout
    · rintro ⟨rfl, hpre⟩
      exact .inl ⟨(k, some x), ⟨hv, hpre⟩, rfl⟩
  · have hne : ∀ op ∈ w.ops, op.1 ≠ k := fun op hop he => hk ⟨op.2, he ▸ hop⟩
    rw [Staged.view, Raw.getElem?_batch_of_ne hne]
    constructor
    · rintro (⟨op, ⟨hop, -⟩, hx⟩ | ⟨h, -⟩)
      · obtain ⟨y, -, he⟩ := Option.map_eq_some_iff.mp hx
        exact absurd (Prod.ext_iff.mp he).1 (hne op hop)
      · exact h
    · intro h
      refine .inr ⟨h, ?_⟩
      simp only [Bool.not_eq_true', contains_eq_mem, decide_eq_false_iff_not, List.mem_map,
        mem_filter, not_exists, not_and]
      exact fun op hop => hne op hop.1

theorem Staged.nodup_merged (pre : Str) : ((w.writeBufScan base pre).map (·.1)).Nodup := by
  simp only [Staged.writeBufScan]
  rw [((mergeSort_perm _ _).map _).nodup_iff, map_append, nodup_append]
  refine ⟨?_, ?_, ?_⟩
  · have hsub : ∀ ops : List RawOp, ((ops.filterMap fun op => op.2.map (op.1, ·)).map (·.1)).Sublist
        (ops.map (·.1)) := by
      intro ops
      induction ops with
      | nil => exact Sublist.refl _
      | cons op ops ih =>
        rcases op with ⟨k, _ | v⟩
        · exact ih.cons k
        · exact ih.cons_cons k
    exact w.nodup.sublist ((hsub _).trans (filter_sublist.map _))
  · exact (nodup_scan_keys base).sublist ((filter_sublist.trans filter_sublist).map _)
  · -- a base row is merged only when its key is not staged
    rintro k hk _ hk' rfl
    obtain ⟨r, hr, rfl⟩ := List.mem_map.mp hk
    obtain ⟨op, hop, hx⟩ := mem_filterMap.mp hr
    obtain ⟨y, -, rfl⟩ := Option.map_eq_some_iff.mp hx
    obtain ⟨r', hr', he⟩ := List.mem_map.mp hk'
    have hout := (mem_filter.mp hr').2
    rw [he, contains_iff_mem.mpr (List.mem_map.mpr ⟨op, hop, rfl⟩)] at hout
    cases hout

/-- `writeBuf.Scan` is the scan of the map it stands for. -/
theorem Staged.writeBufScan_eq (pre : Str) : w.writeBufScan base pre = (w.view base).scan pre := by
  refine (filter_scan_eq ?_ (w.mem_merged base pre)).symm
  have hle : (w.writeBufScan base pre).Pairwise fun a b => (compare a.1 b.1).isLE := by
    have htrans : ∀ a b c : Str, (compare a b).isLE → (compare b c).isLE → (compare a c).isLE :=
      fun _ _ _ => Std.TransCmp.isLE_trans
    refine pairwise_mergeSort (fun a b c => htrans a.1 b.1 c.1) (fun a b => ?_) _
    have hswap : compare b.1 a.1 = (compare a.1 b.1).swap := Std.OrientedCmp.eq_swap
    rw [hswap]
    cases compare a.1 b.1 <;> rfl
  have hne := pairwise_map.mp (w.nodup_merged base pre)
  refine (hle.and hne).imp fun {a b} h => ?_
  rcases h with ⟨hle, hne⟩
  cases hcmp : compare a.1 b.1 with
  | lt => rfl
  | eq => exact absurd (Std.LawfulEqCmp.eq_of_compare hcmp) hne
  | gt => simp [hcmp] at hle

/-! ### Closures on a buffer -/

/-- A call on a buffer answers as it does on the map the buffer stands for, and changes it alike. -/
theorem buffer_simulates {scan : Staged → Str → List (Str × Str)} {base : Raw}
    (hscan : ∀ w pre, scan w pre = (w.view base).scan pre) (c : Call) (w : Staged) (raw : Raw)
    (h : w.view base = raw) :
    (buffer scan base c w).1 = (plain c raw).1 ∧ (buffer scan base c w).2.view base = (plain c raw).2 := by
  subst h
  cases c with
  | get k => exact ⟨w.get_eq base k, rfl⟩
  | put k v => exact ⟨rfl, w.view_stage base _⟩
  | delete k => exact ⟨rfl, w.view_stage base _⟩
  | append ops => exact ⟨rfl, w.view_append base ops⟩
  | scan pre => exact ⟨hscan w pre, rfl⟩

/-- What `WithTxn` means: the closure works on the map itself, and an error takes everything back. -/
def withTxn {ε α : Type} (base : Raw) (fn : Closure ε α) : Commit ε α :=
  let o := fn.run plain base
  { o with
    state := match o.result with
      | .error _ => base
      | .ok _ => o.state }

theorem commit_eq {ε α : Type} {scan : Staged → Str → List (Str × Str)} {base : Raw}
    (hscan : ∀ w pre, scan w pre = (w.view base).scan pre) (fn : Closure ε α) :
    commit base (fn.run (buffer scan base) .empty) = withTxn base fn := by
  obtain ⟨hlog, hres, hview⟩ := Script.run_simulates (buffer_simulates hscan) fn .empty base rfl
  simp only [commit, withTxn, hlog, hres, ← hview, Staged.view]

/-- `bufTxn` runs a closure as if on the map itself. -/
theorem bufTxnWithTxn_eq {ε α : Type} (base : Raw) (fn : Closure ε α) :
    bufTxnWithTxn base fn = withTxn base fn :=
  commit_eq (Staged.writeBufScan_eq base) fn

/-- `MemoryKV` runs a closure as if on the map itself. -/
theorem memoryWithTxn_eq {ε α : Type} (m : Raw) (fn : Closure ε α) : memoryWithTxn m fn = withTxn m fn :=
  commit_eq (Staged.memScan_eq m) fn

theorem after_plain (log : Log) : plain.after base log = base.batch (mutations log) := by
  induction log generalizing base with
  | nil => rfl
  | cons e log ih =>
    have hstep : plain.after base (e :: log) = plain.after (base.batch e.1.ops) log := rfl
    rw [hstep, ih, ← Raw.batch_append]
    rfl

/-- SEQUENTIAL: both buffers run a closure as it runs on the base map itself, where every call is
    answered by the base with the earlier mutations applied in order, scans in ascending key order with
    each key once; what is left is every mutation in order, or the base after an error. -/
theorem closures_apply_in_order {ε α : Type} (base : Raw) (fn : Closure ε α) :
    bufTxnWithTxn base fn = memoryWithTxn base fn ∧ memoryWithTxn base fn = withTxn base fn ∧
    (∀ pre c a post, (fn.run plain base).log = pre ++ ⟨c, a⟩ :: post →
      a = c.answer (base.batch (mutations pre))) ∧
    (∀ raw pre, (Raw.scan raw pre).Pairwise (fun a b => compare a.1 b.1 = .lt) ∧
      ∀ k v, (k, v) ∈ Raw.scan raw pre ↔ raw[k]? = some v ∧ pre <+: k) ∧
    match (fn.run plain base).result with
    | .ok _ => (memoryWithTxn base fn).state = base.batch (mutations (fn.run plain base).log)
    | .error _ => (memoryWithTxn base fn).state = base := by
  refine ⟨(bufTxnWithTxn_eq base fn).trans (memoryWithTxn_eq base fn).symm, memoryWithTxn_eq base fn, ?_, ?_, ?_⟩
  · intro pre c a post hlog
    rw [← after_plain]
    exact Script.run_answer plain pre fn base hlog
  · intro raw pre
    refine ⟨Std.ExtTreeMap.ordered_keys_toList.filter _, fun k v => ?_⟩
    rw [Raw.scan, mem_filter, mem_scan, isPrefixOf_iff_prefix]
  · rw [memoryWithTxn_eq]
    have hstate := fn.run_state plain base
    rw [after_plain] at hstate
    simp only [withTxn]
    cases (fn.run plain base).result with
    | error e => rfl
    | ok r => exact hstate

end Mailezine.Store.Buffer
