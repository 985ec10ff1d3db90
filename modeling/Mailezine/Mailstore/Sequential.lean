import Mailezine.Mailstore.Discipline
import Mailezine.Schemes.Gather

/-! The readers of the mailstore when nothing runs in between.

    A listing in range scans is the listing by single lookups, a name resolves by its index row alone,
    and a reader leaves the key-value store as it is. -/

namespace Mailezine.Mailstore
open Gostd Schemes Store List

variable {α : Type}

@[simp] theorem exec_get (f : KV → α) (n : Node) : (get f).exec n = (n, .ok (f n.kv)) := rfl

@[simp] theorem exec_peek (f : Node → α) (n : Node) : (peek f).exec n = (n, .ok (f n)) := rfl

@[simp] theorem exec_getE (f : KV → Except Err α) (n : Node) : (getE f).exec n = (n, f n.kv) := rfl

@[simp] theorem exec_put (f : KV → KV) (n : Node) : (put f).exec n = (n.withKV (f n.kv), .ok ()) := rfl

@[simp] theorem exec_txn (T : Txn α) (n : Node) : (txn T).exec n = (n.withKV (T n.kv).1, (T n.kv).2) := rfl

/-- What a program leaves standing when it runs alone. -/
theorem evolves_of_safe {Γ : Scope} {g : Bumped} {p : Op α} {n : Node}
    {Q : Bumped → Except Err α → Node → Prop} (hn : n.Wf)
    (h : Prog.Safe Evolves (Step Γ) Q g p n) : Evolves n (p.exec n).1 := by
  obtain ⟨_, hev, -⟩ := h.exec (I := fun _ t => Evolves n t) (fun _ t ht => Evolves.refl ht.wf)
    (fun _ _ _ _ ht hstep => ht.trans (hstep.evolves ht.wf)) (Evolves.refl hn)
  exact hev

/-! ### Listing a mailbox -/

/-- The documents of a mailbox in index order. -/
def listing (x : Account) (mb : Nat) : List Email :=
  (x.emailIdx mb).toList.filterMap fun r =>
    ((x.emails[r.2]?).filter (·.sentinel)).map (emailFromFields r.2)

/-- Mailbox `mb` has the same rows and the same documents. -/
structure SameView (mb : Nat) (x y : Account) : Prop where
  rows : y.emailIdx mb = x.emailIdx mb
  docs : ∀ uid id : Nat, x.row mb uid = some id → y.emails[id]? = x.emails[id]?

theorem SameView.refl (mb : Nat) (x : Account) : SameView mb x x := ⟨rfl, fun _ _ _ => rfl⟩

theorem SameView.trans {mb : Nat} {x y z : Account} (h : SameView mb x y) (h' : SameView mb y z) :
    SameView mb x z := by
  refine ⟨h'.rows.trans h.rows, fun uid id hr => ?_⟩
  rw [h'.docs uid id (by unfold Account.row at hr ⊢; rw [h.rows]; exact hr), h.docs uid id hr]

theorem SameView.listing {mb : Nat} {x y : Account} (h : SameView mb x y) :
    Mailstore.listing y mb = Mailstore.listing x mb := by
  unfold Mailstore.listing
  rw [h.rows]
  refine filterMap_congr fun r hr => ?_
  rw [h.docs r.1 r.2 (mem_scan.mp hr)]

theorem flatten_spansFrom : ∀ (l run : List Nat) (first : Nat),
    (spansFrom first run l).flatten = run.reverse ++ l
  | [], run, first => by simp [spansFrom]
  | id :: l, run, first => by
    unfold spansFrom
    split_ifs
    · rw [flatten_spansFrom l (id :: run) first]; simp
    · rw [flatten_cons, flatten_spansFrom l [id] id]; simp

theorem flatten_spans (l : List Nat) : (spans l).flatten = l := by
  cases l with
  | nil => rfl
  | cons id l => simp [spans, flatten_spansFrom]

/-- Inserting rows of `t` over `m`. -/
theorem getElem?_insertAll {t : Rows EmailDoc} (id : Nat) : ∀ (l : List (Nat × EmailDoc))
    (m : Rows EmailDoc), (∀ r ∈ l, t[r.1]? = some r.2) →
    (l.foldl (fun m r => m.insert r.1 r.2) m)[id]? = if id ∈ l.map (·.1) then t[id]? else m[id]?
  | [], m, _ => by simp
  | r :: l, m, h => by
    rw [foldl_cons, getElem?_insertAll id l _ fun q hq => h q (by simp [hq]), getElem?_insert_row]
    by_cases hl : id ∈ l.map (·.1)
    · simp [hl]
    · by_cases hr : r.1 = id
      · subst hr; simp [hl, h r (by simp)]
      · have hne : ¬id = r.1 := fun e => hr e.symm
        simp [hl, hr, hne]

/-- A document of a run is in the run's range scan when it has its sentinel. -/
theorem mem_run_scan {kv : KV} {a : Nat} {run : List Nat}
    (hrun : ∀ id ∈ run, run.headD 0 ≤ id ∧ id ≤ run.getLastD 0) (id : Nat) :
    id ∈ ((scanDocumentRange kv a (run.headD 0) (run.getLastD 0)).filter fun r => run.contains r.1).map (·.1) ↔
      id ∈ run ∧ ((((kv.account a).emails[id]?).filter (·.sentinel)).isSome) := by
  simp only [List.mem_map, mem_filter, scanDocumentRange, mem_scan, Bool.and_eq_true,
    decide_eq_true_eq, contains_iff_mem]
  constructor
  · rintro ⟨r, ⟨⟨hr, -, hs⟩, hin⟩, rfl⟩
    exact ⟨hin, by simp [hr, hs]⟩
  · rintro ⟨hin, hs⟩
    obtain ⟨d, hd⟩ := Option.isSome_iff_exists.mp hs
    obtain ⟨hd, hs⟩ := Option.filter_eq_some_iff.mp hd
    exact ⟨(id, d), ⟨⟨hd, hrun id hin, hs⟩, hin⟩, rfl⟩

section listing
variable {γ : Type} {R : Node → Node → Prop} {G : γ → Node → Node → γ → Prop} {a mb : Nat}
  {x : Account} {g : γ} {n : Node}

theorem scan_getE {α : Type} {f : KV → Except Err α} (hG : ∀ t, R n t → G g t t g)
    {Q : γ → Except Err α → Node → Prop} (hQ : ∀ t, R n t → Q g (f t.kv) t) : Prog.Safe R G Q g (getE f) n :=
  fun t ht => ⟨g, hG t ht, hQ t ht⟩

theorem scan_get {α : Type} {f : KV → α} (hG : ∀ t, R n t → G g t t g)
    {Q : γ → Except Err α → Node → Prop} (hQ : ∀ t, R n t → Q g (.ok (f t.kv)) t) :
    Prog.Safe R G Q g (get f) n :=
  fun t ht => ⟨g, hG t ht, hQ t ht⟩

/-- What the range scans of all runs gather, looked up by ID. -/
def Gathers (x : Account) (runs : List (List Nat)) (byID byID' : Rows EmailDoc) : Prop :=
  ∀ id : Nat, byID'[id]? = if id ∈ runs.flatten ∧ ((x.emails[id]?).filter (·.sentinel)).isSome then
    x.emails[id]? else byID[id]?

theorem Gathers.cons {kv : KV} {run : List Nat} {runs : List (List Nat)} {byID byID' : Rows EmailDoc}
    (hrun : ∀ id ∈ run, run.headD 0 ≤ id ∧ id ≤ run.getLastD 0)
    (hsame : ∀ id ∈ run, (kv.account a).emails[id]? = x.emails[id]?)
    (h : Gathers x runs (((scanDocumentRange kv a (run.headD 0) (run.getLastD 0)).filter
      fun r => run.contains r.1).foldl (fun m r => m.insert r.1 r.2) byID) byID') :
    Gathers x (run :: runs) byID byID' := by
  intro id
  rw [h id, getElem?_insertAll (t := (kv.account a).emails) id]
  · simp only [mem_run_scan hrun, flatten_cons, mem_append]
    by_cases h₁ : id ∈ run
    · rw [hsame id h₁]
      by_cases hs : ((x.emails[id]?).filter (·.sentinel)).isSome = true <;>
        by_cases h₂ : id ∈ runs.flatten <;> simp [hs, h₁, h₂]
    · by_cases hs : ((x.emails[id]?).filter (·.sentinel)).isSome = true <;>
        by_cases h₂ : id ∈ runs.flatten <;> simp [hs, h₁, h₂]
  · intro r hr
    exact (mem_scanDocumentRange (mem_filter.mp hr).1).1

/-- While the mailbox does not change, the range scans find what single lookups find. `I` is what is
    known of the node meanwhile. -/
theorem scan_fetchSpans {I : Node → Prop} (hI : ∀ t, I t → SameView mb x (t.kv.account a))
    (hR : ∀ s t, I s → R s t → I t) (hG : ∀ s, I s → G g s s g)
    {Q : γ → Except Err (Rows EmailDoc) → Node → Prop} : ∀ (runs : List (List Nat))
    (byID : Rows EmailDoc) (n : Node), I n →
    (∀ run ∈ runs, ∀ id ∈ run, run.headD 0 ≤ id ∧ id ≤ run.getLastD 0) →
    (∀ id ∈ runs.flatten, ∃ uid, x.row mb uid = some id) →
    (∀ t byID', I t → Gathers x runs byID byID' → Q g (.ok byID') t) →
    Prog.Safe R G Q g (fetchSpans a runs byID) n
  | [], byID, n, hn, _, _, hQ => hQ n byID hn (fun id => by simp)
  | run :: runs, byID, n, hn, hruns, hrows, hQ => by
    refine Prog.Safe.bind (scan_get (fun t ht => hG t (hR n t hn ht)) fun t ht => ?_)
    have hIt := hR n t hn ht
    refine scan_fetchSpans hI hR hG runs _ t hIt (fun r hr => hruns r (by simp [hr]))
      (fun id hid => hrows id (by simp [hid])) fun u byID' hu hg => hQ u byID' hu ?_
    refine Gathers.cons (hruns run (by simp)) (fun id hid => ?_) hg
    obtain ⟨uid, hr⟩ := hrows id (by simp [hid])
    exact (hI t hIt).docs uid id hr

/-- While the mailbox does not change, the chunked listing is the listing by single lookups. -/
theorem scan_mailboxEmails {I : Node → Prop} (hI : ∀ t, I t → SameView mb x (t.kv.account a))
    (hR : ∀ s t, I s → R s t → I t) (hG : ∀ s, I s → G g s s g)
    {Q : γ → Except Err (List Email) → Node → Prop} (hn : I n)
    (hQ : ∀ t, I t → Q g (.ok (listing x mb)) t) : Prog.Safe R G Q g (mailboxEmails a mb) n := by
  refine Prog.Safe.bind (scan_get (fun t ht => hG t (hR n t hn ht)) fun t ht => ?_)
  have hIt := hR n t hn ht
  simp only
  rw [(hI t hIt).rows]
  let docIDs := (x.emailIdx mb).toList.map (·.2)
  have hbounds : ∀ run ∈ spans (docIDs.insertionSort (· ≤ ·)), ∀ id ∈ run,
      run.headD 0 ≤ id ∧ id ≤ run.getLastD 0 := by
    refine fun run hrun => chunk_bounds ?_ hrun
    rw [flatten_spans]
    exact pairwise_insertionSort (· ≤ ·) docIDs
  refine Prog.Safe.bind (scan_fetchSpans hI hR hG _ ∅ t hIt hbounds ?_ fun u byID hu hg => ?_)
  · intro id hid
    rw [flatten_spans, mem_insertionSort] at hid
    exact mem_docIDs hid
  · suffices hlist : docIDs.filterMap (fun id => (byID[id]?).map (emailFromFields id)) =
        listing x mb by
      have := hQ u hu
      rw [← hlist] at this
      exact this
    unfold listing
    rw [filterMap_map]
    refine filterMap_congr fun r hr => ?_
    have hr2 := hg r.2
    rw [flatten_spans] at hr2
    have hmem : r.2 ∈ docIDs.insertionSort (· ≤ ·) :=
      (mem_insertionSort _).mpr (List.mem_map.mpr ⟨r, hr, rfl⟩)
    simp only [docIDs] at hmem
    simp only [hmem, true_and] at hr2
    simp only [Function.comp]
    rw [hr2]
    cases hd : x.emails[r.2]? with
    | none => simp
    | some d => by_cases hs : d.sentinel = true <;> simp [hs]

end listing

theorem exec_mailboxEmails (a mb : Nat) (n : Node) :
    (mailboxEmails a mb).exec n = (n, .ok (listing (n.kv.account a) mb)) := by
  have hsafe : Prog.Safe (· = ·) (fun (_ : Unit) s t _ => s = t)
      (fun _ r _ => r = .ok (listing (n.kv.account a) mb)) () (mailboxEmails a mb) n :=
    scan_mailboxEmails (I := (· = n)) (R := (· = ·)) (fun t ht => ht ▸ SameView.refl mb _)
      (fun s t hs hst => hst ▸ hs) (fun _ _ => rfl) rfl fun _ _ => rfl
  have hkeep : ∀ (_ : Unit) (s t : Node) (_ : Unit), s = n → s = t → t = n :=
    fun _ _ _ _ hs hst => hst.symm.trans hs
  obtain ⟨_, hstate, hresult⟩ := hsafe.exec (fun _ _ _ => rfl) hkeep rfl
  exact Prod.ext hstate hresult

/-- A well-formed mailbox lists one message for each index row. -/
theorem mem_listing {x : Account} (h : x.Wf) {mb : Nat} {e : Email} : e ∈ listing x mb ↔
    ∃ (uid id : Nat) (d : EmailDoc), x.row mb uid = some id ∧ x.emails[id]? = some d ∧
      d.uid = some uid ∧ e = emailFromFields id d := by
  unfold listing
  simp only [mem_filterMap, mem_scan, Option.map_eq_some_iff, Option.filter_eq_some_iff]
  constructor
  · rintro ⟨⟨uid, id⟩, hr, d, ⟨hd, -⟩, rfl⟩
    obtain ⟨d', hd', -, hu, -, -⟩ := h.row_doc mb uid id hr
    obtain rfl := Option.mem_unique hd hd'
    exact ⟨uid, id, d, hr, hd, hu, rfl⟩
  · rintro ⟨uid, id, d, hr, hd, -, rfl⟩
    obtain ⟨d', hd', hs, -, -, -⟩ := h.row_doc mb uid id hr
    obtain rfl := Option.mem_unique hd hd'
    exact ⟨(uid, id), hr, d, ⟨hd, hs⟩, rfl⟩

theorem row_of_docID {x : Account} (hx : x.Wf) {mb : Nat} {e : Email} (he : e ∈ listing x mb) :
    ∃ uid, x.row mb uid = some e.docID ∧ e.uid = u32 uid := by
  obtain ⟨uid, id, d, hr, -, hu, rfl⟩ := (mem_listing hx).mp he
  exact ⟨uid, hr, by simp [emailFromFields, hu]⟩

/-! ### Resolving names -/

/-- What a lookup returns: the value, or not found. -/
def found {α : Type} : Option α → Except Err α
  | some v => .ok v
  | none => .error .notFound

theorem accountByEmail_eq (account : Str) (kv : KV) :
    accountByEmail account kv = found kv.registry[account]? := by
  unfold accountByEmail
  cases kv.registry[account]? <;> rfl

theorem exec_mailboxFields {a id : Nat} {d : MailboxDoc} {n : Node}
    (h : (n.kv.account a).mailboxes[id]? = some d) : (mailboxFields a id).exec n = (n, .ok d) := by
  unfold mailboxFields
  rw [Prog.exec_bind_ok (exec_get _ n), h]
  rfl

/-- The scan for a name that no document has finds nothing and writes nothing. -/
theorem exec_findMailbox_none {a : Nat} {name : Str} {n : Node} (h : n.Wf)
    (hidx : (n.kv.account a).nameIdx[name]? = none) : ∀ ids : List Nat,
    (∀ id ∈ ids, ((n.kv.account a).mailboxes[id]?).isSome) →
    (findMailbox a name ids).exec n = (n, .error .notFound)
  | [], _ => rfl
  | id :: ids, hids => by
    obtain ⟨d, hd⟩ := Option.isSome_iff_exists.mp (hids id (by simp))
    unfold findMailbox
    rw [Prog.exec_bind_ok (exec_mailboxFields hd), if_neg]
    · exact exec_findMailbox_none h hidx ids fun i hi => hids i (by simp [hi])
    · intro hname
      rw [(h.nameIdx_of_name hd hname).2] at hidx
      cases hidx

theorem exec_mailboxDocID {n : Node} (h : n.Wf) (a : Nat) (name : Str) :
    (mailboxDocID a name).exec n = (n, found (n.kv.account a).nameIdx[name]?) := by
  unfold mailboxDocID
  rw [Prog.exec_bind_ok (exec_get _ n)]
  cases hidx : (n.kv.account a).nameIdx[name]? with
  | some id =>
    obtain ⟨d, hd, hn⟩ := (h.account a).name_mailbox name id hidx
    simp only
    rw [Prog.exec_bind_ok (exec_get _ n), hd]
    simp only [hn, Option.getD_some, if_true]
    rfl
  | none =>
    simp only
    unfold listMailboxIDs
    rw [Prog.exec_bind_ok (exec_get _ n)]
    refine exec_findMailbox_none h hidx _ fun id hid => ?_
    obtain ⟨r, hr, rfl⟩ := List.mem_map.mp hid
    simp [mem_scan.mp hr]

theorem exec_resolve {n : Node} (h : n.Wf) (account mailbox : Str) :
    (resolve account mailbox).exec n = (n, found (located n account mailbox)) := by
  unfold resolve located
  cases ha : n.kv.registry[account]? with
  | none =>
    rw [Prog.exec_bind_error (t := n) (e := .notFound)]
    · rfl
    · rw [exec_getE, accountByEmail_eq, ha]; rfl
  | some a =>
    rw [Prog.exec_bind_ok (t := n) (a := a) (by rw [exec_getE, accountByEmail_eq, ha]; rfl)]
    cases hmb : (n.kv.account a).nameIdx[mailbox]? with
    | none =>
      rw [Prog.exec_bind_error (t := n) (e := .notFound) (by rw [exec_mailboxDocID h, hmb]; rfl)]
      simp [hmb, found]
    | some mb =>
      rw [Prog.exec_bind_ok (t := n) (a := mb) (by rw [exec_mailboxDocID h, hmb]; rfl)]
      simp [hmb, found]

theorem exec_resolve_bind {n : Node} {account mailbox : Str} {p : Nat × Nat} (h : n.Wf)
    (hl : located n account mailbox = some p) (f : Nat × Nat → Op α) :
    (resolve account mailbox >>= f).exec n = (f p).exec n :=
  Prog.exec_bind_ok (by rw [exec_resolve h, hl]; rfl)

theorem exec_resolve_bind_none {n : Node} {account mailbox : Str} (h : n.Wf)
    (hl : located n account mailbox = none) (f : Nat × Nat → Op α) :
    (resolve account mailbox >>= f).exec n = (n, .error .notFound) :=
  Prog.exec_bind_error (by rw [exec_resolve h, hl]; rfl)

/-! ### The readers -/

theorem exec_listMessages {n : Node} (h : n.Wf) (account mailbox : Str) :
    (listMessages account mailbox).exec n = (n, found ((located n account mailbox).map fun p =>
      (listing (n.kv.account p.1) p.2).map messageFromEmail)) := by
  unfold listMessages
  cases hl : located n account mailbox with
  | none =>
    rw [exec_resolve_bind_none h hl]
    rfl
  | some p =>
    rw [exec_resolve_bind h hl]
    obtain ⟨a, mb⟩ := p
    simp only
    rw [Prog.exec_bind_ok (exec_mailboxEmails a mb n)]
    rfl

theorem exec_expungedSince {n : Node} (h : n.Wf) (account mailbox : Str) (since : Nat) :
    (expungedSince account mailbox since).exec n = (n, .ok (((located n account mailbox).map
      fun p => (tombstonesSince (n.kv.account p.1) p.2 since).insertionSort (· ≤ ·)).getD [])) := by
  unfold expungedSince
  rw [Prog.exec_attempt, exec_resolve h]
  cases located n account mailbox with
  | none => rfl
  | some p => rfl

theorem exec_cachedAccountID {n : Node} (h : n.Wf) (account : Str) :
    ∃ n', (cachedAccountID account).exec n = (n', found n.kv.registry[account]?) ∧
      n'.store = n.store ∧ n'.Wf := by
  unfold cachedAccountID
  rw [Prog.exec_bind_ok (exec_peek _ n)]
  cases hf : fresh n.store.now (n.ids.account account) with
  | some a =>
    obtain ⟨e, he, rfl⟩ := fresh_eq_some hf
    rw [h.ids_account account e he]
    exact ⟨n, rfl, rfl, h⟩
  | none =>
    simp only
    cases ha : n.kv.registry[account]? with
    | none =>
      rw [Prog.exec_bind_error (t := n) (e := .notFound) (by rw [exec_getE, accountByEmail_eq, ha]; rfl)]
      exact ⟨n, rfl, rfl, h⟩
    | some a =>
      rw [Prog.exec_bind_ok (t := n) (a := a) (by rw [exec_getE, accountByEmail_eq, ha]; rfl)]
      exact ⟨n.cacheAccount account a, rfl, rfl, h.cacheAccount ha⟩

theorem exec_cachedMailboxDocID {n : Node} (h : n.Wf) (a : Nat) (name : Str) :
    ∃ n', (cachedMailboxDocID a name).exec n = (n', found (n.kv.account a).nameIdx[name]?) ∧
      n'.store = n.store ∧ n'.Wf := by
  unfold cachedMailboxDocID
  rw [Prog.exec_bind_ok (exec_peek _ n)]
  cases hf : fresh n.store.now (n.ids.mailbox a name) with
  | some id =>
    obtain ⟨e, he, rfl⟩ := fresh_eq_some hf
    rw [h.ids_mailbox a name e he]
    exact ⟨n, rfl, rfl, h⟩
  | none =>
    simp only
    cases hid : (n.kv.account a).nameIdx[name]? with
    | none =>
      rw [Prog.exec_bind_error (t := n) (e := .notFound) (by rw [exec_mailboxDocID h, hid]; rfl)]
      exact ⟨n, rfl, rfl, h⟩
    | some id =>
      rw [Prog.exec_bind_ok (t := n) (a := id) (by rw [exec_mailboxDocID h, hid]; rfl)]
      exact ⟨n.cacheMailbox a name id, rfl, rfl, h.cacheMailbox hid⟩

/-- Both IDs are looked up through the cache, which is all that changes before the rest. -/
theorem exec_cached_bind {n : Node} (h : n.Wf) (account mailbox : Str) (k : Nat → Nat → Op α) :
    ∃ n', n'.store = n.store ∧ n'.Wf ∧
      (located n account mailbox = none → (cachedAccountID account >>= fun a =>
        cachedMailboxDocID a mailbox >>= k a).exec n = (n', .error .notFound)) ∧
      ∀ a mb, located n account mailbox = some (a, mb) → (cachedAccountID account >>= fun a =>
        cachedMailboxDocID a mailbox >>= k a).exec n = (k a mb).exec n' := by
  obtain ⟨n₁, he₁, hs₁, hw₁⟩ := exec_cachedAccountID h account
  have hkv₁ : n₁.kv = n.kv := congrArg Facade.kv hs₁
  unfold located
  cases ha : n.kv.registry[account]? with
  | none =>
    rw [ha] at he₁
    exact ⟨n₁, hs₁, hw₁, fun _ => Prog.exec_bind_error he₁, by simp⟩
  | some a =>
    rw [ha] at he₁
    obtain ⟨n₂, he₂, hs₂, hw₂⟩ := exec_cachedMailboxDocID hw₁ a mailbox
    rw [hkv₁] at he₂
    refine ⟨n₂, hs₂.trans hs₁, hw₂, fun hnone => ?_, fun c mb hsome => ?_⟩
    · rw [Option.bind_some, Option.map_eq_none_iff] at hnone
      rw [hnone] at he₂
      rw [Prog.exec_bind_ok he₁, Prog.exec_bind_error he₂]
    · obtain ⟨_, hmb, hp⟩ := Option.map_eq_some_iff.mp hsome
      obtain ⟨rfl, rfl⟩ := Prod.mk.inj hp
      rw [hmb] at he₂
      rw [Prog.exec_bind_ok he₁, Prog.exec_bind_ok he₂]

/-- `MailboxModSeq` reads the mailbox's modseq; only the ID cache changes. -/
theorem exec_mailboxModSeq {n : Node} (h : n.Wf) (account mailbox : Str) :
    ∃ n', (mailboxModSeq account mailbox).exec n = (n', .ok ((located n account mailbox).map
      fun p => (n.kv.account p.1).modSeq p.2)) ∧ n'.store = n.store ∧ n'.Wf := by
  obtain ⟨n', hs, hw, hnone, hsome⟩ := exec_cached_bind h account mailbox fun a mb => do
    let fields ← mailboxFields a mb
    pure (fields.modSeq.getD 0)
  have hkv : n'.kv = n.kv := congrArg Facade.kv hs
  unfold mailboxModSeq
  rw [Prog.exec_attempt]
  cases hl : located n account mailbox with
  | none =>
    rw [hnone hl]
    exact ⟨n', rfl, hs, hw⟩
  | some p =>
    obtain ⟨a, mb⟩ := p
    obtain ⟨d, hd, -⟩ := (hw.account a).name_mailbox mailbox mb (by rw [hkv]; exact (located_eq_some.mp hl).2)
    rw [hsome a mb hl, Prog.exec_bind_ok (exec_mailboxFields hd)]
    rw [hkv] at hd
    exact ⟨n', by simp [Account.modSeq, hd], hs, hw⟩

end Mailezine.Mailstore
