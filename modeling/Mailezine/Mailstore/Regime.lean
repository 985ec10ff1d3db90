import Mailezine.Mailstore.Steps

/-! Reading the store while others write.

    A regime says what the steps of others may do (`R`), what is kept from one point of a program to
    any later one as long as the program itself only reads (`K`), and what the program's own steps
    must meet (`G`). The readers of the mailstore are shown once for every regime. Each rule has the
    postcondition of its program as a continuation: it is enough that whatever follows is safe from
    the states and results the program can end with. -/

namespace Mailezine.Mailstore
open Gostd Schemes Store List

/-- A regime: `K` composes and is kept by the steps of others and by quiet steps, which the guarantee
    allows. -/
structure Regime {γ : Type} (R K : Node → Node → Prop) (G : γ → Node → Node → γ → Prop) : Prop where
  trans : ∀ {n₁ n₂ n₃ : Node}, K n₁ n₂ → K n₂ n₃ → K n₁ n₃
  evolves : ∀ {n n' : Node}, K n n' → Evolves n n'
  rely : ∀ {n n' : Node}, R n n' → K n n'
  quiet : ∀ {n n' : Node}, n.Wf → Quiet n n' → K n n'
  guar : ∀ {n n' : Node} (g : γ), n.Wf → Quiet n n' → G g n n' g

section
variable {γ α : Type} {R K : Node → Node → Prop} {G : γ → Node → Node → γ → Prop} {g : γ} {n : Node}
  {a mb : Nat} {name account mailbox : Str}

section
variable (ρ : Regime R K G)
include ρ

/-! ### Single accesses -/

theorem Regime.refl (h : n.Wf) : K n n := ρ.quiet h (Quiet.refl n)

theorem Regime.act {f : Node → Node} {k : Node → Op α}
    {Q : γ → Except Err α → Node → Prop} (hq : ∀ t, K n t → Quiet t (f t))
    (hk : ∀ t, K n t → K n (f t) → Prog.Safe R G Q g (k t) (f t)) : Prog.Safe R G Q g (.act f k) n := by
  intro t ht
  have hnt := ρ.rely ht
  have hw := (ρ.evolves hnt).wf
  exact ⟨g, ρ.guar g hw (hq t hnt), hk t hnt (ρ.trans hnt (ρ.quiet hw (hq t hnt)))⟩

theorem Regime.read {f : Node → Except Err α} {Q : γ → Except Err α → Node → Prop}
    (hQ : ∀ t, K n t → Q g (f t) t) : Prog.Safe R G Q g (Prog.read f) n :=
  ρ.act (fun t _ => Quiet.refl t) fun t ht _ => hQ t ht

theorem Regime.get {f : KV → α} {Q : γ → Except Err α → Node → Prop}
    (hQ : ∀ t, K n t → Q g (.ok (f t.kv)) t) : Prog.Safe R G Q g (get f) n :=
  ρ.read hQ

theorem Regime.peek {f : Node → α} {Q : γ → Except Err α → Node → Prop}
    (hQ : ∀ t, K n t → Q g (.ok (f t)) t) : Prog.Safe R G Q g (peek f) n :=
  ρ.read hQ

end

theorem safe_orNotFound {o : Option α} {Q : γ → Except Err α → Node → Prop}
    (hok : ∀ v, o = some v → Q g (.ok v) n) (herr : o = none → Q g (.error .notFound) n) :
    Prog.Safe R G Q g (orNotFound o) n := by
  cases o with
  | none => exact herr rfl
  | some v => exact hok v rfl

/-! ### Quiet steps -/

variable {email : Str} {id : Nat} {Q : γ → Except Err Nat → Node → Prop}

theorem quiet_cacheAccount (hreg : n.kv.registry[email]? = some a) : Quiet n (n.cacheAccount email a) := by
  refine ⟨fun _ => rfl, fun _ _ h => h, fun _ _ h => h, fun email' e he => ?_, fun _ _ _ h => Or.inl h⟩
  simp only [Node.cacheAccount, Node.withIds_ids, Function.update_apply] at he
  split_ifs at he with heq
  · obtain rfl := Option.some.inj he
    rw [heq]; exact Or.inr hreg
  · exact Or.inl he

theorem quiet_cacheMailbox (hidx : (n.kv.account a).nameIdx[name]? = some id) :
    Quiet n (n.cacheMailbox a name id) := by
  refine ⟨fun _ => rfl, fun _ _ h => h, fun _ _ h => h, fun _ _ h => Or.inl h, fun a' name' e he => ?_⟩
  simp only [Node.cacheMailbox, Node.withIds_ids, Function.update_apply] at he
  split_ifs at he with ha
  · subst ha
    rw [Function.update_apply] at he
    split_ifs at he with hname
    · obtain rfl := Option.some.inj he
      rw [hname]; exact Or.inr hidx
    · exact Or.inl he
  · exact Or.inl he

/-- In a well-formed account the document's name decides the index row. -/
theorem Node.Wf.nameIdx_of_name (h : n.Wf) {d : MailboxDoc}
    (hd : (n.kv.account a).mailboxes[id]? = some d) (hn : d.name.getD [] = name) :
    d.name = some name ∧ (n.kv.account a).nameIdx[name]? = some id := by
  obtain ⟨-, nm, hnm, hidx⟩ := (h.account a).mailbox_name id d hd
  rw [hnm, Option.getD_some] at hn
  subst hn
  exact ⟨hnm, hidx⟩

/-- Repairing an index row writes what is there. -/
theorem quiet_putNameRow (h : n.Wf) {d : MailboxDoc}
    (hd : (n.kv.account a).mailboxes[id]? = some d) (hn : d.name = some name) :
    Quiet n (n.withKV (n.kv.modify a (·.putName name id))) := by
  refine ⟨fun c => ?_, fun _ _ h => h, fun _ _ h => h, fun _ _ h => Or.inl h, fun _ _ _ h => Or.inl h⟩
  rw [Node.kv_withKV, KV.account_modify]
  split_ifs with hc
  · subst hc; exact (h.account a).putName_eq hd hn
  · rfl

theorem blobs_putBlob (n : Node) (id data b v : Str) (h : n.store.blobs[b]? = some v) :
    (n.putBlob id data).store.blobs[b]? = some v := by
  rw [Node.putBlob_store, Facade.putBlob_blobs]
  split_ifs with hin
  · exact h
  · rw [getElem?_insert_row, if_neg]
    · exact h
    · rintro rfl
      exact hin (Std.ExtTreeMap.mem_iff_isSome_getElem?.mpr (by simp [h]))

theorem mem_putBlob (n : Node) (id data : Str) : id ∈ (n.putBlob id data).store.blobs := by
  rw [Node.putBlob_store, Facade.putBlob_blobs]
  split_ifs with hin
  · exact hin
  · simp

theorem quiet_putBlob (n : Node) (id data : Str) : Quiet n (n.putBlob id data) :=
  ⟨fun _ => rfl, fun _ _ h => h, blobs_putBlob n id data, fun _ _ h => Or.inl h, fun _ _ _ h => Or.inl h⟩

theorem quiet_register (hr : n.kv.registry[email]? = none) (id : Nat) :
    Quiet n (n.withKV (n.kv.register email id)) := by
  refine ⟨fun _ => rfl, fun email' a ha => ?_, fun _ _ h => h, fun _ _ h => Or.inl h,
    fun _ _ _ h => Or.inl h⟩
  rw [Node.kv_withKV, KV.register_registry, getElem?_insert_row, if_neg]
  · exact ha
  · rintro rfl
    rw [hr] at ha
    cases ha

theorem Node.Wf.cacheAccount (h : n.Wf) (hreg : n.kv.registry[email]? = some a) :
    (n.cacheAccount email a).Wf := ((quiet_cacheAccount hreg).evolves h).wf

theorem Node.Wf.cacheMailbox (h : n.Wf)
    (hidx : (n.kv.account a).nameIdx[name]? = some id) : (n.cacheMailbox a name id).Wf :=
  ((quiet_cacheMailbox hidx).evolves h).wf

/-! ### Resolving accounts and mailboxes -/

theorem fresh_eq_some {now : Nat} {entry : Option (Nat × Nat)}
    (h : fresh now entry = some id) : ∃ e, entry = some e ∧ e.1 = id := by
  unfold fresh at h
  obtain ⟨e, he, hid⟩ := Option.map_eq_some_iff.mp h
  exact ⟨e, (Option.filter_eq_some_iff.mp he).1, hid⟩

theorem Regime.accountByEmail (ρ : Regime R K G)
    (hok : ∀ t a, K n t → t.kv.registry[account]? = some a → Q g (.ok a) t)
    (herr : ∀ t, K n t → t.kv.registry[account]? = none → Q g (.error .notFound) t) :
    Prog.Safe R G Q g (getE (accountByEmail account)) n := by
  refine ρ.read fun t ht => ?_
  unfold Store.accountByEmail
  cases hr : t.kv.registry[account]? with
  | some a => exact hok t a ht hr
  | none => exact herr t ht hr

theorem Regime.cachedAccountID (ρ : Regime R K G)
    (hok : ∀ t a, K n t → t.kv.registry[account]? = some a → Q g (.ok a) t)
    (herr : ∀ t, K n t → t.kv.registry[account]? = none → Q g (.error .notFound) t) :
    Prog.Safe R G Q g (cachedAccountID account) n := by
  refine Prog.Safe.bind (ρ.peek fun t ht => ?_)
  cases hf : fresh t.store.now (t.ids.account account) with
  | some a =>
    obtain ⟨e, he, rfl⟩ := fresh_eq_some hf
    exact hok t e.1 ht ((ρ.evolves ht).wf.ids_account account e he)
  | none =>
    refine Prog.Safe.bind (ρ.accountByEmail (fun u a hu hreg => ?_) fun u hu => herr u (ρ.trans ht hu))
    have hreg' : ∀ v, K u v → v.kv.registry[account]? = some a := fun v hv =>
      (ρ.evolves hv).registry account a hreg
    exact Prog.Safe.bind (ρ.act (fun v hv => quiet_cacheAccount (hreg' v hv)) fun v hv hv' =>
      hok _ a (ρ.trans ht (ρ.trans hu hv')) (hreg' v hv))

theorem Regime.mailboxFields (ρ : Regime R K G) {Q : γ → Except Err MailboxDoc → Node → Prop}
    (hok : ∀ t d, K n t → (t.kv.account a).mailboxes[id]? = some d → Q g (.ok d) t)
    (herr : ∀ t, K n t → (t.kv.account a).mailboxes[id]? = none → Q g (.error .notFound) t) :
    Prog.Safe R G Q g (mailboxFields a id) n := by
  refine Prog.Safe.bind (ρ.get fun t ht => ?_)
  exact safe_orNotFound (fun d hd => hok t d ht hd) fun hd => herr t ht hd

theorem Regime.findMailbox (ρ : Regime R K G) : ∀ (ids : List Nat) (n : Node), n.Wf →
    (∀ t id, K n t → (t.kv.account a).nameIdx[name]? = some id → Q g (.ok id) t) →
    (∀ t, K n t → Q g (.error .notFound) t) → Prog.Safe R G Q g (findMailbox a name ids) n
  | [], n, hn, _, herr => herr n (ρ.refl hn)
  | id :: rest, n, _, hok, herr => by
    refine Prog.Safe.bind (ρ.mailboxFields (fun t d ht hd => ?_) fun t ht _ => herr t ht)
    have hw := (ρ.evolves ht).wf
    simp only
    split_ifs with hname
    · obtain ⟨hnm, -⟩ := hw.nameIdx_of_name hd hname
      have hdoc : ∀ u, K t u → ∃ d' : MailboxDoc, (u.kv.account a).mailboxes[id]? = some d' ∧
          d'.name = some name := by
        intro u hu
        obtain ⟨d', hd', hnm'⟩ := ((ρ.evolves hu).account a).mailbox id d hd
        exact ⟨d', hd', hnm'.trans hnm⟩
      refine Prog.Safe.bind (ρ.act (fun u hu => ?_) fun u hu hu' => hok _ id (ρ.trans ht hu') ?_)
      · obtain ⟨d', hd', hnm'⟩ := hdoc u hu
        exact quiet_putNameRow (ρ.evolves hu).wf hd' hnm'
      · obtain ⟨d', hd', hnm'⟩ := hdoc _ hu'
        exact ((ρ.evolves hu').wf.nameIdx_of_name hd' (by rw [hnm']; rfl)).2
    · exact Regime.findMailbox ρ rest t hw (fun u id hu => hok u id (ρ.trans ht hu))
        fun u hu => herr u (ρ.trans ht hu)

theorem Regime.mailboxDocID (ρ : Regime R K G)
    (hok : ∀ t id, K n t → (t.kv.account a).nameIdx[name]? = some id → Q g (.ok id) t)
    (herr : ∀ t, K n t → Q g (.error .notFound) t) : Prog.Safe R G Q g (mailboxDocID a name) n := by
  have hscan : ∀ t, K n t → Prog.Safe R G Q g
      (do Mailstore.findMailbox a name (← listMailboxIDs a)) t := by
    intro t ht
    refine Prog.Safe.bind (ρ.get fun u hu => ?_)
    have htu := ρ.trans ht hu
    exact ρ.findMailbox _ u (ρ.evolves hu).wf (fun v id hv => hok v id (ρ.trans htu hv))
      fun v hv => herr v (ρ.trans htu hv)
  refine Prog.Safe.bind (ρ.get fun t ht => ?_)
  cases (t.kv.account a).nameIdx[name]? with
  | none => exact hscan t ht
  | some id =>
    refine Prog.Safe.bind (ρ.get fun u hu => ?_)
    have htu := ρ.trans ht hu
    cases hd : (u.kv.account a).mailboxes[id]? with
    | none => exact hscan u htu
    | some d =>
      simp only
      split_ifs with hname
      · exact hok u id htu ((ρ.evolves hu).wf.nameIdx_of_name hd hname).2
      · exact hscan u htu

theorem Regime.cachedMailboxDocID (ρ : Regime R K G)
    (hok : ∀ t id, K n t → (t.kv.account a).nameIdx[name]? = some id → Q g (.ok id) t)
    (herr : ∀ t, K n t → Q g (.error .notFound) t) : Prog.Safe R G Q g (cachedMailboxDocID a name) n := by
  refine Prog.Safe.bind (ρ.peek fun t ht => ?_)
  cases hf : fresh t.store.now (t.ids.mailbox a name) with
  | some id =>
    obtain ⟨e, he, rfl⟩ := fresh_eq_some hf
    exact hok t e.1 ht ((ρ.evolves ht).wf.ids_mailbox a name e he)
  | none =>
    refine Prog.Safe.bind (ρ.mailboxDocID (fun u id hu hidx => ?_) fun u hu => herr u (ρ.trans ht hu))
    have hidx' : ∀ v, K u v → (v.kv.account a).nameIdx[name]? = some id := fun v hv =>
      ((ρ.evolves hv).account a).name name id hidx
    exact Prog.Safe.bind (ρ.act (fun v hv => quiet_cacheMailbox (hidx' v hv)) fun v hv hv' =>
      hok _ id (ρ.trans ht (ρ.trans hu hv')) (hidx' v hv))

/-- The node knows the account and its mailbox by these names. -/
structure Node.Resolves (n : Node) (account : Str) (a : Nat) (mailbox : Str) (mb : Nat) : Prop where
  reg : n.kv.registry[account]? = some a
  idx : (n.kv.account a).nameIdx[mailbox]? = some mb

theorem Node.Resolves.grows {t : Node} (h : n.Resolves account a mailbox mb) (hev : Evolves n t) :
    t.Resolves account a mailbox mb :=
  ⟨hev.registry account a h.reg, (hev.account a).name mailbox mb h.idx⟩

theorem Regime.resolve (ρ : Regime R K G) {Q : γ → Except Err (Nat × Nat) → Node → Prop}
    (hok : ∀ t a mb, K n t → t.Resolves account a mailbox mb → Q g (.ok (a, mb)) t)
    (herr : ∀ t, K n t → Q g (.error .notFound) t) : Prog.Safe R G Q g (resolve account mailbox) n := by
  refine Prog.Safe.bind (ρ.accountByEmail (fun t a ht hreg => ?_) fun t ht _ => herr t ht)
  refine Prog.Safe.bind (ρ.mailboxDocID (fun u mb hu hidx => ?_) fun u hu => herr u (ρ.trans ht hu))
  exact hok u a mb (ρ.trans ht hu) ⟨(ρ.evolves hu).registry account a hreg, hidx⟩

theorem Regime.createAccount (ρ : Regime R K G)
    (hok : ∀ t a, K n t → t.kv.registry[account]? = some a → Q g (.ok a) t)
    (herr : ∀ t, K n t → Q g (.error .exists) t) : Prog.Safe R G Q g (txn (createAccount account)) n := by
  intro t ht
  have hnt := ρ.rely ht
  have hw := (ρ.evolves hnt).wf
  simp only [Store.createAccount]
  cases hr : t.kv.registry[account]? with
  | some a => exact ⟨g, ρ.guar g hw (Quiet.refl t), herr t hnt⟩
  | none =>
    have hq := quiet_register hr (u32 (t.kv.lastAccount + 1))
    exact ⟨g, ρ.guar g hw hq, hok _ _ (ρ.trans hnt (ρ.quiet hw hq)) (by simp)⟩

theorem Regime.ensureAccount (ρ : Regime R K G)
    (hok : ∀ t a, K n t → t.kv.registry[account]? = some a → Q g (.ok a) t)
    (herr : ∀ t, K n t → Q g (.error .notFound) t) : Prog.Safe R G Q g (ensureAccount account) n := by
  refine Prog.Safe.attempt (ρ.cachedAccountID hok fun t ht _ => ?_)
  refine Prog.Safe.attempt (ρ.createAccount (fun u a hu => hok u a (ρ.trans ht hu)) fun u hu => ?_)
  have htu := ρ.trans ht hu
  exact ρ.cachedAccountID (fun v a hv => hok v a (ρ.trans htu hv)) fun v hv _ => herr v (ρ.trans htu hv)

/-! ### Names that are known -/

end

/-- The account and mailbox that a pair of names stands for. -/
def located (n : Node) (account mailbox : Str) : Option (Nat × Nat) :=
  (n.kv.registry[account]?).bind fun a => ((n.kv.account a).nameIdx[mailbox]?).map fun mb => (a, mb)

theorem located_eq_some {n : Node} {account mailbox : Str} {a mb : Nat} :
    located n account mailbox = some (a, mb) ↔
      n.kv.registry[account]? = some a ∧ (n.kv.account a).nameIdx[mailbox]? = some mb := by
  unfold located
  simp only [Option.bind_eq_some_iff, Option.map_eq_some_iff, Prod.mk.injEq]
  constructor
  · rintro ⟨a', ha, mb', hmb, rfl, rfl⟩
    exact ⟨ha, hmb⟩
  · rintro ⟨ha, hmb⟩
    exact ⟨a, ha, mb, hmb, rfl, rfl⟩

theorem Evolves.located {n t : Node} (h : Evolves n t) {account mailbox : Str} {p : Nat × Nat}
    (hp : located n account mailbox = some p) : located t account mailbox = some p := by
  obtain ⟨ha, hmb⟩ := located_eq_some.mp hp
  exact located_eq_some.mpr ⟨h.registry account p.1 ha, (h.account p.1).name mailbox p.2 hmb⟩

section
variable {γ α : Type} {R K : Node → Node → Prop} {G : γ → Node → Node → γ → Prop} {g : γ} {n : Node}
  {a mb : Nat} {name account mailbox : Str}

/-- A name with an index row resolves by it. -/
theorem Regime.mailboxDocID_known (ρ : Regime R K G) {Q : γ → Except Err Nat → Node → Prop}
    (hidx : (n.kv.account a).nameIdx[name]? = some mb) (hok : ∀ t, K n t → Q g (.ok mb) t) :
    Prog.Safe R G Q g (Mailstore.mailboxDocID a name) n := by
  refine Prog.Safe.bind (ρ.get fun t₁ h₁ => ?_)
  have hidx₁ := ((ρ.evolves h₁).account a).name name mb hidx
  simp only
  rw [hidx₁]
  refine Prog.Safe.bind (ρ.get fun t₂ h₂ => ?_)
  obtain ⟨d, hd, hn⟩ := ((ρ.evolves h₂).wf.account a).name_mailbox name mb
    (((ρ.evolves h₂).account a).name name mb hidx₁)
  simp only
  rw [hd]
  simp only [hn, Option.getD_some, if_true]
  exact hok t₂ (ρ.trans h₁ h₂)

/-- `MailboxModSeq` of a name that stands for a mailbox reads its modseq. -/
theorem Regime.mailboxModSeq (ρ : Regime R K G) {Q : γ → Except Err (Option Nat) → Node → Prop}
    (hQ : ∀ t r, K n t → (∀ m, r = some m → ∃ a mb, located t account mailbox = some (a, mb) ∧
      (t.kv.account a).modSeq mb = m) → Q g (.ok r) t) :
    Prog.Safe R G Q g (mailboxModSeq account mailbox) n := by
  have hnone : ∀ t, K n t → Q g (.ok none) t := fun t ht => hQ t none ht (by simp)
  refine Prog.Safe.attempt (Prog.Safe.bind
    (ρ.cachedAccountID (fun t₁ a h₁ hreg => ?_) fun t ht _ => hnone t ht))
  refine Prog.Safe.bind (ρ.cachedMailboxDocID (fun t₂ mb h₂ hidx => ?_)
    fun t ht => hnone t (ρ.trans h₁ ht))
  have h₁₂ := ρ.trans h₁ h₂
  refine Prog.Safe.bind (ρ.mailboxFields (fun t₃ d h₃ hd => ?_) fun t ht _ => hnone t (ρ.trans h₁₂ ht))
  refine hQ t₃ _ (ρ.trans h₁₂ h₃) fun m hm => ⟨a, mb, ?_, ?_⟩
  · exact located_eq_some.mpr ⟨(ρ.evolves (ρ.trans h₂ h₃)).registry account a hreg,
      ((ρ.evolves h₃).account a).name mailbox mb hidx⟩
  · rw [← Option.some.inj hm]
    simp [Account.modSeq, hd]

/-! ### Reading messages -/

/-- A listed message names the document that owns its UID. -/
def Listed (x : Account) (mb : Nat) (e : Email) : Prop :=
  ∃ uid, x.Owns mb uid e.docID ∧ e.uid = u32 uid

variable {x : Account}

theorem Listed.grows {y : Account} {e : Email} (h : Listed x mb e) (hg : x.Grows y) : Listed y mb e := by
  obtain ⟨uid, ho, hu⟩ := h
  exact ⟨uid, ho.grows hg, hu⟩

/-- The documents read so far are those of their IDs' owners. -/
def Gathered (x : Account) (mb : Nat) (byID : Rows EmailDoc) : Prop :=
  ∀ (id : Nat) (d : EmailDoc), byID[id]? = some d → ∃ uid, x.Owns mb uid id ∧ d.uid = some uid

theorem Gathered.grows {y : Account} {byID : Rows EmailDoc} (h : Gathered x mb byID)
    (hg : x.Grows y) : Gathered y mb byID := by
  intro id d hd
  obtain ⟨uid, ho, hu⟩ := h id d hd
  exact ⟨uid, ho.grows hg, hu⟩

theorem mem_scanDocumentRange {kv : KV} {first last : Nat} {r : Nat × EmailDoc}
    (h : r ∈ scanDocumentRange kv a first last) :
    (kv.account a).emails[r.1]? = some r.2 ∧ r.2.sentinel = true := by
  unfold scanDocumentRange at h
  obtain ⟨hm, hp⟩ := mem_filter.mp h
  simp only [Bool.and_eq_true] at hp
  exact ⟨mem_scan.mp hm, hp.2⟩

theorem Gathered.insertAll (hx : x.Wf) {run : List Nat}
    (hrun : ∀ id ∈ run, ∃ uid, x.Owns mb uid id) : ∀ (docs : List (Nat × EmailDoc))
    (byID : Rows EmailDoc), (∀ r ∈ docs, x.emails[r.1]? = some r.2 ∧ r.2.sentinel = true) →
    (∀ r ∈ docs, r.1 ∈ run) → Gathered x mb byID → Gathered x mb (docs.foldl (fun m r => m.insert r.1 r.2) byID)
  | [], byID, _, _, h => h
  | r :: docs, byID, hdocs, hin, h => by
    refine Gathered.insertAll hx hrun docs _ (fun q hq => hdocs q (by simp [hq]))
      (fun q hq => hin q (by simp [hq])) ?_
    intro id d hd
    rw [getElem?_insert_row] at hd
    split_ifs at hd with hid
    · obtain rfl := Option.some.inj hd
      subst hid
      obtain ⟨uid, ho⟩ := hrun r.1 (hin r (by simp))
      obtain ⟨hr, hs⟩ := hdocs r (by simp)
      obtain ⟨u, hu⟩ := Option.isSome_iff_exists.mp (hx.doc_uid r.1 r.2 hr hs)
      exact ⟨uid, ho, by rw [hu, ho.doc r.2 u hr hu]⟩
    · exact h id d hd

theorem Regime.fetchSpans (ρ : Regime R K G) (mb : Nat) {Q : γ → Except Err (Rows EmailDoc) → Node → Prop} :
    ∀ (runs : List (List Nat)) (byID : Rows EmailDoc) (n : Node), n.Wf →
    (∀ run ∈ runs, ∀ id ∈ run, ∃ uid, (n.kv.account a).Owns mb uid id) → Gathered (n.kv.account a) mb byID →
    (∀ t byID', K n t → Gathered (t.kv.account a) mb byID' → Q g (.ok byID') t) →
    Prog.Safe R G Q g (fetchSpans a runs byID) n
  | [], byID, n, hn, _, hg, hok => hok n byID (ρ.refl hn) hg
  | run :: runs, byID, n, hn, hruns, hg, hok => by
    refine Prog.Safe.bind (ρ.get fun t ht => ?_)
    have hev := ρ.evolves ht
    have hown : ∀ r ∈ run :: runs, ∀ id ∈ r, ∃ uid, (t.kv.account a).Owns mb uid id := by
      intro r hr id hid
      obtain ⟨uid, ho⟩ := hruns r hr id hid
      exact ⟨uid, ho.grows (hev.account a)⟩
    refine Regime.fetchSpans ρ mb runs _ t hev.wf (fun r hr => hown r (by simp [hr])) ?_
      fun u byID' hu => hok u byID' (ρ.trans ht hu)
    refine Gathered.insertAll (hev.wf.account a) (hown run (by simp)) _ _ ?_ ?_
      (hg.grows (hev.account a))
    · intro r hr
      exact mem_scanDocumentRange (mem_filter.mp hr).1
    · intro r hr
      exact contains_iff_mem.mp (mem_filter.mp hr).2

theorem mem_spansFrom : ∀ {l run : List Nat} {first : Nat} {s : List Nat},
    s ∈ spansFrom first run l → ∀ id ∈ s, id ∈ run ∨ id ∈ l
  | [], run, first, s, hs, id, hid => by
    simp only [spansFrom, mem_singleton] at hs
    subst hs
    exact Or.inl (mem_reverse.mp hid)
  | i :: l, run, first, s, hs, id, hid => by
    unfold spansFrom at hs
    split_ifs at hs
    · rcases mem_spansFrom hs id hid with h | h
      · rcases mem_cons.mp h with rfl | h
        · exact Or.inr (by simp)
        · exact Or.inl h
      · exact Or.inr (by simp [h])
    · rcases mem_cons.mp hs with rfl | hs
      · exact Or.inl (mem_reverse.mp hid)
      · rcases mem_spansFrom hs id hid with h | h
        · exact Or.inr (by simp [mem_singleton.mp h])
        · exact Or.inr (by simp [h])

theorem mem_spans {l s : List Nat} (hs : s ∈ spans l) {id : Nat} (hid : id ∈ s) : id ∈ l := by
  cases l with
  | nil => exact absurd hs (by simp [spans])
  | cons i l =>
    rcases mem_spansFrom hs id hid with h | h
    · simp [mem_singleton.mp h]
    · simp [h]

theorem mem_docIDs {id : Nat} (h : id ∈ (x.emailIdx mb).toList.map (·.2)) : ∃ uid, x.row mb uid = some id := by
  obtain ⟨⟨uid, id'⟩, hm, rfl⟩ := List.mem_map.mp h
  exact ⟨uid, mem_scan.mp hm⟩

section
variable (ρ : Regime R K G)
include ρ

theorem Regime.mailboxEmails {Q : γ → Except Err (List Email) → Node → Prop}
    (hok : ∀ t emails, K n t → (∀ e ∈ emails, Listed (t.kv.account a) mb e) → Q g (.ok emails) t) :
    Prog.Safe R G Q g (mailboxEmails a mb) n := by
  refine Prog.Safe.bind (ρ.get fun t ht => ?_)
  have hw := (ρ.evolves ht).wf
  have hown : ∀ id ∈ ((t.kv.account a).emailIdx mb).toList.map (·.2),
      ∃ uid, (t.kv.account a).Owns mb uid id := by
    intro id hid
    obtain ⟨uid, hr⟩ := mem_docIDs hid
    exact ⟨uid, (hw.account a).owns hr⟩
  refine Prog.Safe.bind (ρ.fetchSpans mb _ _ t hw ?_ ?_ fun u byID hu hgath => ?_)
  · intro run hrun id hid
    exact hown id ((mem_insertionSort _).mp (mem_spans hrun hid))
  · intro id d hd
    cases hd
  · refine hok u _ (ρ.trans ht hu) fun e he => ?_
    obtain ⟨id, -, hmap⟩ := mem_filterMap.mp he
    obtain ⟨d, hd, rfl⟩ := Option.map_eq_some_iff.mp hmap
    obtain ⟨uid, ho, huid⟩ := hgath id d hd
    exact ⟨uid, ho, by simp [emailFromFields, huid]⟩

theorem Regime.listMessages {Q : γ → Except Err (List Message) → Node → Prop}
    (hQ : ∀ t r, K n t → Q g r t) : Prog.Safe R G Q g (listMessages account mailbox) n := by
  refine Prog.Safe.bind (ρ.resolve (fun t a mb ht _ => ?_) fun t ht => hQ t _ ht)
  exact Prog.Safe.bind (ρ.mailboxEmails fun u emails hu _ => hQ u _ (ρ.trans ht hu))

/-- The document of a UID is the one its row names at the time the row is read. -/
theorem Regime.emailByIndexUID {uid : Nat} {Q : γ → Except Err Email → Node → Prop}
    (hok : ∀ t u e, K n t → K t u → (t.kv.account a).row mb uid = some e.docID → Q g (.ok e) u)
    (herr : ∀ t, K n t → Q g (.error .notFound) t) : Prog.Safe R G Q g (emailByIndexUID a mb uid) n := by
  refine Prog.Safe.bind (ρ.get fun t ht => ?_)
  refine Prog.Safe.bind (safe_orNotFound (fun id hid => ?_) fun _ => herr t ht)
  refine Prog.Safe.bind (ρ.get fun u hu => ?_)
  refine Prog.Safe.bind (safe_orNotFound (fun d _ => ?_) fun _ => herr u (ρ.trans ht hu))
  exact hok t u _ ht hu hid

theorem Regime.getBlob {id : Str} {Q : γ → Except Err Str → Node → Prop}
    (hok : ∀ t data, K n t → Q g (.ok data) t) (herr : ∀ t, K n t → Q g (.error .notFound) t) :
    Prog.Safe R G Q g (getBlob id) n := by
  refine Prog.Safe.bind (ρ.peek fun t ht => ?_)
  exact safe_orNotFound (fun data _ => hok t data ht) fun _ => herr t ht

theorem Regime.putBlob {id data : Str} {Q : γ → Except Err Unit → Node → Prop}
    (hok : ∀ t, K n t → id ∈ t.store.blobs → Q g (.ok ()) t) :
    Prog.Safe R G Q g (Prog.write fun n => n.putBlob id data) n :=
  ρ.act (fun t _ => quiet_putBlob t id data) fun t _ ht' => hok _ ht' (mem_putBlob t id data)

end

end

end Mailezine.Mailstore
