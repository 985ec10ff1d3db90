import Mailezine.Mailstore.Surface
import Mailezine.Schemes.Gather
import Mailezine.Store.ChangeLog

/-! `mailboxEmails` on the byte store, as it is written: in range scans.

    The index scan gives the document IDs, which are sorted and cut into runs; each run is one range scan
    over the rows of its documents and of whatever lies between them. The rows of a document lie next to
    each other, so grouping by ID gives every document of the range whole, and the listing is the one
    that looks each ID up on its own. -/

namespace Mailezine.Mailstore.Bytes
open Gostd Schemes Store Store.Bytes List

/-! ### Range scans -/

/-- The `flush` of `ScanDocumentRange`: a document without its sentinel is skipped. -/
def flush : Option (UInt64 × List (Str × Str)) → List (UInt64 × Doc)
  | none => []
  | some (id, rows) => if (fieldOf rows fieldMeta).isSome then [(id, fieldOf rows)] else []

/-- The row callback of `ScanDocumentRange` over the rows of the range; `cur` is the open document. -/
def streamDocuments (cur : Option (UInt64 × List (Str × Str))) :
    List (Str × Str) → Except RawErr (List (UInt64 × Doc))
  | [] => .ok (flush cur)
  | r :: rows =>
    if r.1.length < 15 then .error .corrupt
    else
      let docID := documentIDFromFieldKey r.1
      match cur with
      | none => streamDocuments (some (docID, [r])) rows
      | some (curID, fields) =>
        if docID = curID then streamDocuments (some (curID, fields ++ [r])) rows
        else (streamDocuments (some (docID, [r])) rows).map (flush cur ++ ·)

/-- The exclusive end of `ScanDocumentRange`. -/
def rangeEnd (a : UInt32) (collection : UInt8) (endDocID : UInt64) : Option Str :=
  if endDocID = 0xffffffffffffffff then prefixEnd (collectionKey a collection)
  else some (documentKey a collection (endDocID + 1))

/-- `ScanDocumentRange`: the documents that it hands to its callback. -/
def scanDocumentRange (raw : Raw) (a : UInt32) (collection : UInt8) (startDocID endDocID : UInt64) :
    Except RawErr (List (UInt64 × Doc)) :=
  if endDocID < startDocID then .ok []
  else streamDocuments none
    (raw.scanRange (documentKey a collection startDocID) (rangeEnd a collection endDocID))

/-! ### `mailboxEmails` -/

/-- `maxSpan`. -/
def maxSpan : UInt64 := 512

/-- The runs of sorted document IDs, `run` reversed; the bound is computed in 64 bits. -/
def runsFrom (first : UInt64) (run : List UInt64) : List UInt64 → List (List UInt64)
  | [] => [run.reverse]
  | id :: rest =>
    if id ≤ first + maxSpan then runsFrom first (id :: run) rest
    else run.reverse :: runsFrom id [id] rest

/-- The runs that `mailboxEmails` scans. -/
def runs : List UInt64 → List (List UInt64)
  | [] => []
  | id :: rest => runsFrom id [id] rest

/-- The map `byID`. -/
abbrev ByID := UInt64 → Option Email

/-- The documents of one range scan that the run wants, put in the map. -/
def keepWanted (env : Env) (run : List UInt64) (docs : List (UInt64 × Doc)) (byID : ByID) : ByID :=
  (docs.filter fun d => run.contains d.1).foldl
    (fun m d => Function.update m d.1 (some (emailFromFields d.1.toNat (decodeEmail env d.2)))) byID

/-- The range scans. -/
def fetchRuns (env : Env) (raw : Raw) (a : UInt32) : List (List UInt64) → ByID → Except RawErr ByID
  | [], byID => .ok byID
  | run :: rest, byID => do
    let docs ← scanDocumentRange raw a collectionEmail (run.headD 0) (run.getLastD 0)
    fetchRuns env raw a rest (keepWanted env run docs byID)

/-- The document IDs of a mailbox's index rows; a row that is not eight bytes long is skipped. -/
def indexOrder (raw : Raw) (a : UInt32) (mb : UInt64) : List UInt64 :=
  (raw.scan (indexEmailPrefix a mb)).filterMap fun r => (decodeNumber 8 (some r.2)).map UInt64.ofNat

/-- `mailboxEmails` with its range scans. -/
def mailboxEmailsBySpans (env : Env) (a : UInt32) (mb : UInt64) (raw : Raw) : Except RawErr (List Email) :=
  let docIDs := indexOrder raw a mb
  if docIDs = [] then .ok []
  else do
    let byID ← fetchRuns env raw a (runs (docIDs.insertionSort (· ≤ ·))) fun _ => none
    pure (docIDs.filterMap byID)

/-! ### Field keys -/

theorem length_collectionKey (a : UInt32) (c : UInt8) : (collectionKey a c).length = 6 := by
  simp [collectionKey, spaceID]

theorem documentIDFromFieldKey_eq (a : UInt32) (c : UInt8) (id : UInt64) (t : Str) :
    documentIDFromFieldKey (documentKey a c id ++ t) = id := by
  unfold documentIDFromFieldKey documentKey
  rw [append_assoc, drop_left' (length_collectionKey a c),
    take_left' (length_beUint64 id), toNat_ofNat_be]

/-- Eight bytes are the digits of the number they are read as. -/
theorem beUint64_ofNat_unbe {l : Str} (h : l.length = 8) : beUint64 (.ofNat (unbe l)) = l := by
  have hl := be_unbe l
  have hlt : unbe l % 256 ^ 8 = unbe l := by rw [← unbe_be 8 (unbe l), ← h, hl]
  rw [beUint64, UInt64.toNat_ofNat', show unbe l % 2 ^ 64 = unbe l from hlt, ← h, hl]

/-- A key of a collection is a field key of the document that it names. -/
theorem fieldKey_parts {a : UInt32} {c : UInt8} {k : Str} (hp : collectionKey a c <+: k)
    (hk : 15 ≤ k.length) : ∃ t, t ≠ [] ∧ k = documentKey a c (documentIDFromFieldKey k) ++ t := by
  obtain ⟨s, rfl⟩ := hp
  rw [length_append, length_collectionKey] at hk
  refine ⟨s.drop 8, fun h => ?_, ?_⟩
  · rw [drop_eq_nil_iff] at h
    omega
  · unfold documentIDFromFieldKey documentKey
    rw [drop_left' (length_collectionKey a c), append_assoc,
      beUint64_ofNat_unbe (by rw [length_take]; omega), take_append_drop]

theorem isStoreKey_of_mem {raw : Raw} (h : Fielded raw) {a : UInt32} {c : UInt8} {r : Str × Str}
    (hr : r ∈ raw.toList) (hp : collectionKey a c <+: r.1) : 15 ≤ r.1.length := by
  refine h r hr ?_
  obtain ⟨s, hs⟩ := hp
  rw [← hs]
  rfl

/-! ### The rows of a range -/

/-- A field key against the start of a document. -/
theorem compare_documentKey (a : UInt32) (c : UInt8) (id bound : UInt64) {t : Str} (ht : t ≠ []) :
    compare (documentKey a c id ++ t) (documentKey a c bound) = (compare id.toNat bound.toNat).then .gt := by
  have htail : compare t [] = .gt := by
    cases t with
    | nil => exact absurd rfl ht
    | cons b t => rfl
  have := compare_append_append (p := beUint64 id) (q := beUint64 bound) (by simp) t []
  rw [documentKey, documentKey, append_assoc, compare_append, ← append_nil (beUint64 bound),
    this, compare_beUint64, htail]

variable {id : UInt64}

theorem compare_documentKey_lt {a : UInt32} {c : UInt8} {bound : UInt64} {t : Str} (ht : t ≠ []) :
    compare (documentKey a c id ++ t) (documentKey a c bound) = .lt ↔ id < bound := by
  rw [compare_documentKey a c id bound ht, UInt64.lt_iff_toNat_lt, ← Nat.compare_eq_lt]
  cases compare id.toNat bound.toNat <;> simp

/-- A range of documents lies in its collection. -/
theorem isPrefix_of_range {a : UInt32} {c : UInt8} {first last : UInt64} {k : Str}
    (hge : compare k (documentKey a c first) ≠ .lt)
    (hlt : (rangeEnd a c last).all fun e => compare k e = .lt) : collectionKey a c <+: k := by
  unfold rangeEnd at hlt
  split_ifs at hlt with hmax
  · obtain ⟨e, he⟩ := prefixEnd_isSome_of_lt (b := spaceDocument) (by decide) (beUint32 a ++ [c])
    have he : prefixEnd (collectionKey a c) = some e := he
    rw [he, Option.all_some, decide_eq_true_eq] at hlt
    exact (isPrefix_iff_of_prefixEnd he k).mpr ⟨compare_ne_lt_of_append hge, hlt⟩
  · rw [Option.all_some, decide_eq_true_eq] at hlt
    exact isPrefix_of_between hge hlt

/-- A field key is below the end of a range when its document is not past the last one. -/
theorem below_rangeEnd {a : UInt32} {c : UInt8} {last : UInt64} {t : Str} (ht : t ≠ []) :
    ((rangeEnd a c last).all fun e => compare (documentKey a c id ++ t) e = .lt) = true ↔ id ≤ last := by
  unfold rangeEnd
  split_ifs with hmax
  · obtain ⟨e, he⟩ := prefixEnd_isSome_of_lt (b := spaceDocument) (by decide) (beUint32 a ++ [c])
    have he : prefixEnd (collectionKey a c) = some e := he
    have hp : collectionKey a c <+: documentKey a c id ++ t := by
      rw [documentKey, append_assoc]
      exact prefix_append ..
    rw [he, Option.all_some, decide_eq_true_eq]
    have hle : id ≤ last := by
      rw [hmax, UInt64.le_iff_toNat_le]
      exact Nat.le_of_lt_succ id.toNat_lt
    exact iff_of_true ((isPrefix_iff_of_prefixEnd he _).mp hp).2 hle
  · have hsucc : (last + 1).toNat = last.toNat + 1 := by
      have hne : last.toNat ≠ 2 ^ 64 - 1 := fun h => hmax (UInt64.toNat.inj h)
      have hlt := last.toNat_lt
      rw [UInt64.toNat_add]
      exact Nat.mod_eq_of_lt (by show last.toNat + 1 < 2 ^ 64; omega)
    rw [Option.all_some, decide_eq_true_eq, compare_documentKey_lt ht, UInt64.lt_iff_toNat_lt, hsucc,
      UInt64.le_iff_toNat_le, Nat.lt_succ_iff]

variable {raw : Raw} {a : UInt32} {c : UInt8}

/-- The rows of a range are the field rows of the documents from the first to the last. -/
theorem mem_range (h : Fielded raw) (first last : UInt64) {r : Str × Str} :
    r ∈ raw.scanRange (documentKey a c first) (rangeEnd a c last) ↔
      r ∈ raw.toList ∧ ∃ id t, t ≠ [] ∧ r.1 = documentKey a c id ++ t ∧ first ≤ id ∧ id ≤ last := by
  rw [Raw.scanRange, mem_filter, Bool.and_eq_true, decide_eq_true_eq]
  refine and_congr_right fun hr => ⟨?_, ?_⟩
  · rintro ⟨hge, hlt⟩
    have hp := isPrefix_of_range hge hlt
    obtain ⟨t, ht, hk⟩ := fieldKey_parts hp (isStoreKey_of_mem h hr hp)
    rw [hk] at hge hlt
    rw [Ne, compare_documentKey_lt ht, UInt64.not_lt] at hge
    exact ⟨_, t, ht, hk, hge, (below_rangeEnd ht).mp hlt⟩
  · rintro ⟨id, t, ht, hk, hge, hlt⟩
    rw [hk, Ne, compare_documentKey_lt ht, UInt64.not_lt]
    exact ⟨hge, (below_rangeEnd ht).mpr hlt⟩

/-- The rows of one document of a range are the rows that its own scan finds. -/
theorem filter_range (h : Fielded raw) {first last : UInt64} (hge : first ≤ id) (hle : id ≤ last) :
    (raw.scanRange (documentKey a c first) (rangeEnd a c last)).filter
      (fun r => documentIDFromFieldKey r.1 = id) = raw.scan (documentKey a c id) := by
  unfold Raw.scan Raw.scanRange
  rw [List.filter_filter]
  refine filter_congr fun r hr => Bool.eq_iff_iff.mpr ?_
  rw [Bool.and_eq_true, decide_eq_true_eq, isPrefixOf_iff_prefix]
  have hmem := mem_range (a := a) (c := c) h first last (r := r)
  rw [Raw.scanRange, mem_filter] at hmem
  constructor
  · rintro ⟨hid, hin⟩
    obtain ⟨-, id', t, -, hk, -⟩ := hmem.mp ⟨hr, hin⟩
    rw [hk, documentIDFromFieldKey_eq] at hid
    rw [hk, hid]
    exact prefix_append ..
  · rintro ⟨t, ht⟩
    have hne : t ≠ [] := by
      rintro rfl
      have := isStoreKey_of_mem (a := a) (c := c) h hr (ht ▸ by
        rw [documentKey, append_assoc]; exact prefix_append ..)
      rw [← ht, append_nil, documentKey, length_append, length_collectionKey,
        length_beUint64] at this
      omega
    refine ⟨by rw [← ht, documentIDFromFieldKey_eq], ?_⟩
    exact (hmem.mpr ⟨hr, id, t, hne, ht.symm, hge, hle⟩).2

/-- Rows in key order have their document IDs in order. -/
theorem sorted_range (h : Fielded raw) (first last : UInt64) :
    (raw.scanRange (documentKey a c first) (rangeEnd a c last)).Pairwise
      fun r s => documentIDFromFieldKey r.1 ≤ documentIDFromFieldKey s.1 := by
  have hkeys : (raw.scanRange (documentKey a c first) (rangeEnd a c last)).Pairwise
      fun r s => compare r.1 s.1 = .lt := Std.ExtTreeMap.ordered_keys_toList.filter _
  refine hkeys.imp_of_mem fun {r s} hr hs hlt => ?_
  obtain ⟨-, i, t, -, hr, -⟩ := (mem_range h _ _).mp hr
  obtain ⟨-, j, u, -, hs, -⟩ := (mem_range h _ _).mp hs
  rw [hr, hs, documentKey, documentKey, append_assoc, append_assoc, compare_append,
    compare_append_append (by simp), compare_beUint64] at hlt
  rw [hr, hs, documentIDFromFieldKey_eq, documentIDFromFieldKey_eq, UInt64.le_iff_toNat_le,
    ← Nat.not_lt, ← Nat.compare_eq_gt]
  intro hgt
  rw [hgt] at hlt
  cases hlt

/-! ### The documents of a range -/

/-- On field keys, the row callback groups. -/
theorem streamDocuments_eq : ∀ (rows : List (Str × Str)) (cur : Option (UInt64 × List (Str × Str))),
    (∀ r ∈ rows, 15 ≤ r.1.length) → streamDocuments cur rows =
      .ok ((gather (fun r => documentIDFromFieldKey r.1) cur rows).flatMap fun g => flush (some g))
  | [], none, _ => rfl
  | [], some g, _ => by simp [streamDocuments, gather]
  | r :: rows, cur, h => by
    have hr := Nat.not_lt.mpr (h r (by simp))
    have ih := fun g => streamDocuments_eq rows g fun s hs => h s (by simp [hs])
    rw [streamDocuments, if_neg hr]
    cases cur with
    | none => rw [gather]; exact ih _
    | some g =>
      obtain ⟨curID, fields⟩ := g
      rw [gather]
      by_cases hid : documentIDFromFieldKey r.1 = curID
      · simp only [if_pos hid]
        exact ih _
      · simp only [if_neg hid, ih]
        rfl

theorem mem_flush {d : Doc} {g : UInt64 × List (Str × Str)} :
    (id, d) ∈ flush (some g) ↔ g.1 = id ∧ d = fieldOf g.2 ∧ (d fieldMeta).isSome := by
  obtain ⟨j, rows⟩ := g
  rw [flush]
  split_ifs with hm
  · rw [mem_singleton, Prod.mk.injEq]
    exact ⟨fun h => ⟨h.1.symm, h.2, h.2 ▸ hm⟩, fun h => ⟨h.1.symm, h.2.1⟩⟩
  · refine iff_of_false (by simp) ?_
    rintro ⟨-, rfl, hs⟩
    exact hm hs

/-- `GetDocumentFields` of a live document. -/
def liveDocument (raw : Raw) (a : UInt32) (c : UInt8) (id : UInt64) : Option Doc :=
  (getDocumentFields raw a c id).filter fun d => (d fieldMeta).isSome

theorem liveDocument_eq_some {d : Doc} : liveDocument raw a c id = some d ↔
    raw.scan (documentKey a c id) ≠ [] ∧ d = fieldOf (raw.scan (documentKey a c id)) ∧
      (d fieldMeta).isSome := by
  rw [liveDocument, Option.filter_eq_some_iff, getDocumentFields]
  cases raw.scan (documentKey a c id) with
  | nil => simp
  | cons r rows =>
    rw [Option.some.injEq, eq_comm (a := d)]
    exact (and_iff_right (cons_ne_nil r rows)).symm

/-- The order of document IDs. -/
@[reducible] def orderOfIDs : LinearOrder UInt64 where
  le_refl := UInt64.le_refl
  le_trans _ _ _ := UInt64.le_trans
  le_antisymm _ _ := UInt64.le_antisymm
  le_total := UInt64.le_total
  lt_iff_le_not_ge v w := by
    rw [UInt64.lt_iff_toNat_lt, UInt64.le_iff_toNat_le, UInt64.le_iff_toNat_le]
    omega
  toDecidableLE := inferInstance
  toDecidableEq := inferInstance
  toDecidableLT := inferInstance

/-- The range scan succeeds and hands out the live documents of its range. -/
theorem scanDocumentRange_spec (h : Fielded raw) (first last : UInt64) :
    ∃ docs, scanDocumentRange raw a c first last = .ok docs ∧ ∀ id d, (id, d) ∈ docs ↔
      first ≤ id ∧ id ≤ last ∧ liveDocument raw a c id = some d := by
  let _ := orderOfIDs
  unfold scanDocumentRange
  split_ifs with hlt
  · refine ⟨[], rfl, fun id d => iff_of_false (by simp) ?_⟩
    rintro ⟨hge, hle, -⟩
    exact UInt64.not_le.mpr hlt (UInt64.le_trans hge hle)
  · rw [streamDocuments_eq _ none fun r hr => ?_]
    · refine ⟨_, rfl, fun id d => ?_⟩
      rw [mem_flatMap]
      constructor
      · rintro ⟨⟨j, rows⟩, hg, hd⟩
        obtain ⟨rfl, rfl, hm⟩ := mem_flush.mp hd
        obtain ⟨rfl, hne⟩ := (mem_gather (sorted_range h first last)).mp hg
        obtain ⟨r, hr⟩ := exists_mem_of_ne_nil _ hne
        obtain ⟨hr, hj⟩ := mem_filter.mp hr
        obtain ⟨-, i, t, -, hk, hge, hle⟩ := (mem_range h _ _).mp hr
        rw [decide_eq_true_eq, hk, documentIDFromFieldKey_eq] at hj
        subst hj
        rw [filter_range h hge hle] at hne hm ⊢
        exact ⟨hge, hle, liveDocument_eq_some.mpr ⟨hne, rfl, hm⟩⟩
      · rintro ⟨hge, hle, hlive⟩
        obtain ⟨hne, rfl, hm⟩ := liveDocument_eq_some.mp hlive
        refine ⟨(id, raw.scan (documentKey a c id)), ?_, mem_flush.mpr ⟨rfl, rfl, hm⟩⟩
        exact (mem_gather (sorted_range h first last)).mpr ⟨(filter_range h hge hle).symm, hne⟩
    · obtain ⟨hr, id, t, ht, hk, -⟩ := (mem_range h _ _).mp hr
      refine isStoreKey_of_mem (a := a) (c := c) h hr ?_
      rw [hk, documentKey, append_assoc]
      exact prefix_append ..

/-! ### Runs -/

theorem flatten_runsFrom : ∀ (l run : List UInt64) (first : UInt64),
    (runsFrom first run l).flatten = run.reverse ++ l
  | [], run, first => by simp [runsFrom]
  | id :: l, run, first => by
    unfold runsFrom
    split_ifs
    · rw [flatten_runsFrom l (id :: run) first]; simp
    · rw [flatten_cons, flatten_runsFrom l [id] id]; simp

/-- Every document ID is in one run. -/
theorem flatten_runs (l : List UInt64) : (runs l).flatten = l := by
  cases l with
  | nil => rfl
  | cons id l => simp [runs, flatten_runsFrom]

/-! ### The listing -/

variable {env : Env}

/-- A document on its own: its Email when it is live. -/
def liveEmail (env : Env) (raw : Raw) (a : UInt32) (id : UInt64) : Option Email :=
  (liveDocument raw a collectionEmail id).map fun d => emailFromFields id.toNat (decodeEmail env d)

/-- The listing that `Surface` has, by document IDs. -/
theorem mailboxEmails_eq (env : Env) (raw : Raw) (a : UInt32) (mb : UInt64) :
    mailboxEmails env a mb raw = (indexOrder raw a mb).filterMap (liveEmail env raw a) := by
  unfold mailboxEmails indexOrder
  rw [filterMap_filterMap]
  refine filterMap_congr fun r _ => ?_
  rw [Option.bind_map]
  refine Option.bind_congr fun n hn => ?_
  obtain ⟨v, hv, rfl⟩ := Option.map_eq_some_iff.mp hn
  obtain ⟨-, hlen⟩ := Option.filter_eq_some_iff.mp hv
  have hn : (UInt64.ofNat (unbe v)).toNat = unbe v := by
    have hbytes := congrArg unbe (beUint64_ofNat_unbe (of_decide_eq_true hlen))
    rw [beUint64, unbe_be] at hbytes
    exact (Nat.mod_eq_of_lt (UInt64.toNat_lt _)).symm.trans hbytes
  rw [Function.comp, liveEmail, liveDocument, hn]
  cases getDocumentFields raw a collectionEmail (.ofNat (unbe v)) with
  | none => rfl
  | some d => cases hm : d fieldMeta <;> simp [hm]

/-- The map holds the live documents among those asked for. -/
def Fetched (env : Env) (raw : Raw) (a : UInt32) (wanted : List UInt64) (byID : ByID) : Prop :=
  ∀ id, byID id = if id ∈ wanted then liveEmail env raw a id else none

theorem foldl_update {docs : List (UInt64 × Doc)} (id : UInt64) : ∀ byID : ByID,
    (∀ p ∈ docs, liveDocument raw a collectionEmail p.1 = some p.2) →
    docs.foldl (fun (m : ByID) d => Function.update m d.1
      (some (emailFromFields d.1.toNat (decodeEmail env d.2)))) byID id =
      if id ∈ docs.map (·.1) then liveEmail env raw a id else byID id := by
  induction docs with
  | nil => exact fun byID _ => by simp
  | cons p docs ih =>
    intro byID h
    rw [foldl_cons, ih _ fun q hq => h q (by simp [hq])]
    by_cases hid : id = p.1
    · subst hid
      simp [liveEmail, h p (by simp)]
    · have hmem : id ∈ (p :: docs).map (·.1) ↔ id ∈ docs.map (·.1) := by
        rw [map_cons, mem_cons, or_iff_right hid]
      rw [Function.update_of_ne hid]
      exact (if_congr hmem rfl rfl).symm

/-- One range scan adds the documents of its run, and only those. -/
theorem Fetched.keepWanted {wanted run : List UInt64} {byID : ByID} {docs : List (UInt64 × Doc)}
    (hrun : ∀ id ∈ run, run.headD 0 ≤ id ∧ id ≤ run.getLastD 0) (hdocs : ∀ id d, (id, d) ∈ docs ↔
      run.headD 0 ≤ id ∧ id ≤ run.getLastD 0 ∧ liveDocument raw a collectionEmail id = some d)
    (h : Fetched env raw a wanted byID) : Fetched env raw a (wanted ++ run) (keepWanted env run docs byID) := by
  intro id
  have hlive : ∀ p ∈ docs.filter fun d => run.contains d.1,
      liveDocument raw a collectionEmail p.1 = some p.2 := fun p hp =>
    ((hdocs p.1 p.2).mp (mem_filter.mp hp).1).2.2
  have hmem : id ∈ (docs.filter fun d => run.contains d.1).map (·.1) ↔
      id ∈ run ∧ (liveDocument raw a collectionEmail id).isSome := by
    simp only [List.mem_map, mem_filter, contains_iff_mem, Option.isSome_iff_exists]
    constructor
    · rintro ⟨p, ⟨hp, hin⟩, rfl⟩
      exact ⟨hin, p.2, ((hdocs p.1 p.2).mp hp).2.2⟩
    · rintro ⟨hin, d, hd⟩
      exact ⟨(id, d), ⟨(hdocs id d).mpr ⟨(hrun id hin).1, (hrun id hin).2, hd⟩, hin⟩, rfl⟩
  rw [Bytes.keepWanted, foldl_update id byID hlive, h id]
  simp only [hmem, mem_append]
  cases hd : liveDocument raw a collectionEmail id with
  | none => simp [liveEmail, hd]
  | some d => by_cases h₁ : id ∈ run <;> by_cases h₂ : id ∈ wanted <;> simp [h₁, h₂]

/-- The range scans of all runs fetch every live document of theirs. -/
theorem fetchRuns_spec (env : Env) (h : Fielded raw) : ∀ (rs : List (List UInt64)) (wanted : List UInt64)
    (byID : ByID), (∀ run ∈ rs, ∀ id ∈ run, run.headD 0 ≤ id ∧ id ≤ run.getLastD 0) →
    Fetched env raw a wanted byID →
    ∃ byID', fetchRuns env raw a rs byID = .ok byID' ∧ Fetched env raw a (wanted ++ rs.flatten) byID'
  | [], wanted, byID, _, hf => ⟨byID, rfl, by simpa using hf⟩
  | run :: rs, wanted, byID, hrs, hf => by
    obtain ⟨docs, hscan, hdocs⟩ := scanDocumentRange_spec (a := a) (c := collectionEmail) h
      (run.headD 0) (run.getLastD 0)
    obtain ⟨byID', hfetch, hf'⟩ := fetchRuns_spec env h rs (wanted ++ run) (keepWanted env run docs byID)
      (fun r hr => hrs r (by simp [hr])) (hf.keepWanted (hrs run (by simp)) hdocs)
    refine ⟨byID', ?_, by rwa [flatten_cons, ← append_assoc]⟩
    rw [fetchRuns, hscan]
    exact hfetch

/-! ### The states of the store -/

/-- A transaction of the store; the writes that `other` stands for are on the store's own keys. -/
def OnStoreKeys : LogOp → Prop
  | .other _ ops _ => ∀ op ∈ ops, KeepsFielded op
  | _ => True

theorem fielded_logOp {op : LogOp} (h : OnStoreKeys op) : Confined KeepsFielded op.run := by
  cases op with
  | appendChange a c id op => exact (fielded_allocChange a c _).bind fun _ => confined_pure _
  | deliverEmail a mb fields blob size extra =>
    exact (fielded_deliverOne a fields blob size extra mb).bind fun _ => confined_pure _
  | deliverEmailBatch a rs => exact (fielded_deliverEmailBatch a rs).bind fun _ => confined_pure _
  | appendEmailAtomically a c id fields blob size extra =>
    exact (fielded_appendEmailAtomically a c id fields blob size extra).bind fun _ => confined_pure _
  | deleteEmailAtomically a c id requireFlag extra now =>
    exact confined_get.bind fun _ =>
      (fielded_deleteEmailAtomically a c id extra requireFlag now).bind fun _ => confined_pure _
  | updateDocumentAtomically a c id fields extra =>
    exact (fielded_updateDocumentAtomically a c id fields extra).bind fun _ => confined_pure _
  | updateDocumentsAtomically a c docs extra =>
    exact (fielded_updateDocumentsAtomically a c extra docs).bind fun _ => confined_pure _
  | other a ops outside => exact (confined_append h).bind fun _ => confined_pure _

/-- LAYOUT: whatever transactions run, every document key names a field. -/
theorem fielded_run (ops : List LogOp) (h : ∀ op ∈ ops, OnStoreKeys op) : ∀ {σ : LogState},
    Fielded σ.raw → Fielded (σ.run ops).raw := by
  induction ops with
  | nil => exact id
  | cons op ops ih =>
    intro σ hσ
    refine ih (fun o ho => h o (by simp [ho])) ?_
    unfold LogState.step
    cases hrun : op.run σ.raw with
    | ok r => exact (fielded_logOp (h op (by simp))).fielded σ.raw r.1 r.2 hσ hrun
    | error e => exact hσ

/-- SPANS: in a store whose document keys name fields, the listing by range scans succeeds and is the
    listing that walks the index in key order and looks each document up on its own. -/
theorem mailboxEmailsBySpans_eq (env : Env) {raw : Raw} (h : Fielded raw) (a : UInt32) (mb : UInt64) :
    mailboxEmailsBySpans env a mb raw = .ok (mailboxEmails env a mb raw) := by
  let _ := orderOfIDs
  rw [mailboxEmails_eq, mailboxEmailsBySpans]
  split_ifs with hnone
  · rw [hnone]; rfl
  · obtain ⟨byID, hfetch, hf⟩ := fetchRuns_spec (a := a) env h
      (runs ((indexOrder raw a mb).insertionSort (· ≤ ·))) [] (fun _ => none)
      (fun run hrun => chunk_bounds (by
        rw [flatten_runs]
        exact pairwise_insertionSort (· ≤ ·) _) hrun)
      fun id => by simp
    rw [hfetch]
    refine congrArg Except.ok (filterMap_congr fun id hid => ?_)
    rw [hf id, nil_append, flatten_runs, if_pos ((mem_insertionSort _).mpr hid)]

/-- Two messages of mailbox 1 with a foreign one between them. -/
def interleaved : List LogOp :=
  [.deliverEmail 1 1 [(emailFieldSize, beUint64 7)] (ascii "x") 7 [],
    .deliverEmail 1 2 [(emailFieldSize, beUint64 8)] (ascii "y") 8 [],
    .deliverEmail 1 1 [(emailFieldSize, beUint64 9)] (ascii "z") 9 []]

theorem interleaved_by_spans :
    let raw := (({} : LogState).run interleaved).raw
    let env : Env := { Config.plain with parseDate := fun _ => none }
    Fielded raw ∧ mailboxEmailsBySpans env 1 1 raw = .ok (mailboxEmails env 1 1 raw) ∧
      (mailboxEmails env 1 1 raw).map (·.docID) = [1, 3] := by
  have h : Fielded (({} : LogState).run interleaved).raw :=
    fielded_run _ (by simp [interleaved, OnStoreKeys]) fielded_empty
  exact ⟨h, mailboxEmailsBySpans_eq _ h 1 1, by decide +kernel⟩

end Mailezine.Mailstore.Bytes
