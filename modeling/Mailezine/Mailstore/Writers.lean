import Mailezine.Mailstore.Sequential

/-! The writers of the mailstore when nothing runs in between.

    `Within` is the frame of a writer: which messages may go, and what the documents of new ones look
    like; every other message stays with its document. Each writer is run to its end with its
    frame, and with what it is sure to do. -/

namespace Mailezine.Mailstore
open Gostd Schemes Store List

/-- Only messages of mailbox `mb` of account `a` with a UID in `gone` go, new messages have a document
    in `new`, and all others stay as they are. -/
structure Within (a mb : Nat) (gone : Nat → Prop) (new : EmailDoc → Prop) (n n' : Node) : Prop where
  kept : ∀ c mb' uid id : Nat, (n.kv.account c).row mb' uid = some id →
    (n'.kv.account c).row mb' uid = some id ∨ (c = a ∧ mb' = mb ∧ gone uid)
  docs : ∀ (c mb' uid id : Nat) (d : EmailDoc), (n'.kv.account c).row mb' uid = some id →
    (n'.kv.account c).emails[id]? = some d →
    ((n.kv.account c).row mb' uid = some id ∧ (n.kv.account c).emails[id]? = some d) ∨ new d

section
variable {a mb : Nat} {gone gone' : Nat → Prop} {new new' : EmailDoc → Prop}
  {n n' n'' : Node} {account mailbox : Str}

theorem Within.of_kv (h : n'.kv = n.kv) : Within a mb gone new n n' := by
  refine ⟨fun c mb' uid id hr => Or.inl ?_, fun c mb' uid id d hr hd => Or.inl ?_⟩
  · rw [h]; exact hr
  · rw [h] at hr hd; exact ⟨hr, hd⟩

theorem Within.trans (h : Within a mb gone new n n') (h' : Within a mb gone new n' n'') :
    Within a mb gone new n n'' := by
  refine ⟨fun c mb' uid id hr => ?_, fun c mb' uid id d hr hd => ?_⟩
  · rcases h.kept c mb' uid id hr with hr | hg
    · exact h'.kept c mb' uid id hr
    · exact Or.inr hg
  · rcases h'.docs c mb' uid id d hr hd with ⟨hr, hd⟩ | hn
    · exact h.docs c mb' uid id d hr hd
    · exact Or.inr hn

theorem Within.mono (h : Within a mb gone new n n') (hg : ∀ uid, gone uid → gone' uid)
    (hn : ∀ d, new d → new' d) : Within a mb gone' new' n n' := by
  refine ⟨fun c mb' uid id hr => ?_, fun c mb' uid id d hr hd => ?_⟩
  · exact (h.kept c mb' uid id hr).imp_right fun ⟨hc, hm, hu⟩ => ⟨hc, hm, hg uid hu⟩
  · exact (h.docs c mb' uid id d hr hd).imp_right (hn d)

/-- A change of account `a` alone has the frame of that account. -/
theorem Within.of_touches {y : Account} {kv' : KV} (ht : Touches a y n.kv kv')
    (hkept : ∀ mb' uid id : Nat, (n.kv.account a).row mb' uid = some id →
      y.row mb' uid = some id ∨ (mb' = mb ∧ gone uid))
    (hdocs : ∀ (mb' uid id : Nat) (d : EmailDoc), y.row mb' uid = some id → y.emails[id]? = some d →
      ((n.kv.account a).row mb' uid = some id ∧ (n.kv.account a).emails[id]? = some d) ∨ new d) :
    Within a mb gone new n (n.withKV kv') := by
  refine ⟨fun c mb' uid id hr => ?_, fun c mb' uid id d hr hd => ?_⟩
  · obtain ⟨l, hl⟩ := ht.account c
    rw [Node.kv_withKV, hl]
    change (if a = c then y else n.kv.account c).row mb' uid = some id ∨ _
    split_ifs with hc
    · subst hc
      exact (hkept mb' uid id hr).imp_right fun h => ⟨rfl, h⟩
    · exact Or.inl hr
  · obtain ⟨l, hl⟩ := ht.account c
    rw [Node.kv_withKV, hl] at hr hd
    change (if a = c then y else n.kv.account c).row mb' uid = some id at hr
    rw [Account.withLinks_emails] at hd
    split_ifs at hr hd with hc
    · subst hc
      exact hdocs mb' uid id d hr hd
    · exact Or.inl ⟨hr, hd⟩

/-! ### Delivering -/

theorem Evolves.of_store (hs : n'.store = n.store) (hw : n'.Wf) : Evolves n n' := by
  have hkv : n'.kv = n.kv := congrArg Facade.kv hs
  exact ⟨hw, fun c => by rw [hkv]; exact Account.Grows.refl _, fun _ _ h => by rwa [hkv],
    fun _ _ h => by rwa [hs]⟩

theorem exec_ensureAccount (h : n.Wf) (hreg : n.kv.registry[account]? = some a) :
    ∃ n', (ensureAccount account).exec n = (n', .ok a) ∧ n'.store = n.store ∧ n'.Wf := by
  obtain ⟨n', he, hs, hw⟩ := exec_cachedAccountID h account
  unfold ensureAccount
  rw [Prog.exec_attempt, he, hreg]
  exact ⟨n', rfl, hs, hw⟩

theorem exec_ensureAccount_any (h : n.Wf) (account : Str) : ∃ n' a, (ensureAccount account).exec n = (n', .ok a) ∧
    Evolves n n' ∧ n'.kv.registry[account]? = some a ∧ ∀ c, n'.kv.account c = n.kv.account c := by
  cases hreg : n.kv.registry[account]? with
  | some a =>
    obtain ⟨n', he, hs, hw⟩ := exec_ensureAccount h hreg
    have hkv : n'.kv = n.kv := congrArg Facade.kv hs
    exact ⟨n', a, he, .of_store hs hw, by rw [hkv]; exact hreg, fun _ => by rw [hkv]⟩
  | none =>
    obtain ⟨n₁, he, hs, hw⟩ := exec_cachedAccountID h account
    have hkv : n₁.kv = n.kv := congrArg Facade.kv hs
    have hreg₁ : n₁.kv.registry[account]? = none := by rw [hkv]; exact hreg
    have hq := quiet_register hreg₁ (u32 (n₁.kv.lastAccount + 1))
    refine ⟨_, u32 (n₁.kv.lastAccount + 1), ?_, (Evolves.of_store hs hw).trans (hq.evolves hw), by simp, fun c => ?_⟩
    · unfold ensureAccount
      rw [Prog.exec_attempt, he, hreg]
      change ((txn (createAccount account)).attempt _).exec n₁ = _
      rw [Prog.exec_attempt, exec_txn, createAccount, hreg₁]
      rfl
    · rw [hq.account, hkv]

/-- The mailbox is there, or it is added. -/
theorem exec_ensureMailbox (h : n.Wf) (a : Nat) (name : Str) : ∃ n' mb,
    (ensureMailbox a name).exec n = (n', .ok mb) ∧ Evolves n n' ∧ (n'.kv.account a).nameIdx[name]? = some mb ∧
      ((n.kv.account a).nameIdx[name]? ≠ none → n'.store = n.store) ∧
      ∀ c : Nat, n'.kv.account c = n.kv.account c ∨ a = c ∧ (n.kv.account a).nameIdx[name]? = none ∧
        n'.kv.account c = (n.kv.account c).addMailbox name := by
  obtain ⟨n₁, he, hs, hw⟩ := exec_cachedMailboxDocID h a name
  have hkv : n₁.kv = n.kv := congrArg Facade.kv hs
  unfold ensureMailbox
  rw [Prog.exec_attempt, he]
  cases hidx : (n.kv.account a).nameIdx[name]? with
  | some mb =>
    exact ⟨n₁, mb, rfl, .of_store hs hw, by rw [hkv]; exact hidx, fun _ => hs, fun _ => .inl (by rw [hkv])⟩
  | none =>
    have hidx₁ : (n₁.kv.account a).nameIdx[name]? = none := by rw [hkv]; exact hidx
    have hstep : Step {} (fun _ => none) n₁ (n₁.withKV (n₁.kv.modify a
        (·.addMailbox name))) (fun _ => none) :=
      .change a _ _ (touches_modify a (·.addMailbox name) n₁.kv) (Change.mailbox name hidx₁)
    refine ⟨n₁.withKV (n₁.kv.modify a (·.addMailbox name)), (n₁.kv.account a).lastMailbox + 1, ?_,
      (Evolves.of_store hs hw).trans (hstep.evolves hw), ?_, fun hne => absurd rfl hne, fun c => ?_⟩
    · change (txn (ensureMailboxDoc a name)).exec n₁ = _
      rw [exec_txn, ensureMailboxDoc, hidx₁]
      rfl
    · rw [Node.kv_withKV, KV.account_modify, if_pos rfl, nameIdx_addMailbox, if_pos rfl]
    · rw [Node.kv_withKV, KV.account_modify, ← hkv]
      split_ifs with hc
      · exact .inr ⟨hc, rfl, rfl⟩
      · exact .inl rfl

/-- A document that a delivery of this message writes. -/
def Delivery (cfg : Config) (mailbox : Str) (msg : Incoming) (d : EmailDoc) : Prop :=
  ∃ mb now ids, d = (deliverRequest cfg mb mailbox msg now).document ids

/-- Where a delivery put its message: a row that was free, and a document that was not there. All other
    rows and documents are as they were. -/
structure Adds (n n' : Node) (a mb uid id : Nat) (d : EmailDoc) : Prop where
  fresh : (n.kv.account a).lastUID mb < uid
  free : (n.kv.account a).row mb uid = none
  unused : (n.kv.account a).emails[id]? = none
  rows : ∀ c mb' uid' : Nat, (n'.kv.account c).row mb' uid' =
    if a = c ∧ mb = mb' ∧ uid = uid' then some id else (n.kv.account c).row mb' uid'
  docs : ∀ c id' : Nat, (n'.kv.account c).emails[id']? =
    if a = c ∧ id = id' then some d else (n.kv.account c).emails[id']?

variable {d : EmailDoc} {id uid : Nat} {e : Email}

section
variable (h : Adds n n' a mb uid id d)
include h

theorem Adds.row : (n'.kv.account a).row mb uid = some id := by
  rw [h.rows, if_pos ⟨rfl, rfl, rfl⟩]

theorem Adds.doc : (n'.kv.account a).emails[id]? = some d := by
  rw [h.docs, if_pos ⟨rfl, rfl⟩]

theorem Adds.row_kept {c mb' uid' id' : Nat}
    (hr : (n.kv.account c).row mb' uid' = some id') : (n'.kv.account c).row mb' uid' = some id' := by
  rw [h.rows, if_neg]
  · exact hr
  · rintro ⟨rfl, rfl, rfl⟩
    exact absurd hr (by rw [h.free]; simp)

theorem Adds.doc_kept {c id' : Nat} {d' : EmailDoc}
    (hd : (n.kv.account c).emails[id']? = some d') : (n'.kv.account c).emails[id']? = some d' := by
  rw [h.docs, if_neg]
  · exact hd
  · rintro ⟨rfl, rfl⟩
    exact absurd hd (by rw [h.unused]; simp)

end

/-- A delivery adds one message and touches no other. -/
theorem exec_deliver_adds (cfg : Config) (account mailbox : Str) (msg : Incoming) (h : n.Wf) :
    ∃ n' a mb uid id d, (deliver cfg account mailbox msg).exec n = (n', .ok (u32 uid)) ∧ Evolves n n' ∧
      n'.kv.registry[account]? = some a ∧ (n'.kv.account a).nameIdx[mailbox]? = some mb ∧
      Delivery cfg mailbox msg d ∧ Adds n n' a mb uid id d := by
  obtain ⟨n₁, a, he₁, hev₁, hreg, hacct⟩ := exec_ensureAccount_any h account
  obtain ⟨n₂, mb, he₂, hev₂, hidx, -, hbox⟩ := exec_ensureMailbox hev₁.wf a mailbox
  let n₃ := n₂.putBlob (blobIDOf cfg msg.data) msg.data
  let r := deliverRequest cfg mb mailbox msg n₃.store.now
  let n₄ := n₃.withKV (deliverOne a r n₃.kv).1
  have hblob : blobIDOf cfg msg.data ∈ n₃.store.blobs := mem_putBlob n₂ _ _
  have hstep₃ : Step {} (fun _ => none) n₂ n₃ (fun _ => none) := .quiet (quiet_putBlob n₂ _ _)
  have hev₃ := hstep₃.evolves hev₂.wf
  have hidx₃ := (hev₃.account a).name mailbox mb hidx
  have htouch := touches_deliverOne a r n₃.kv
  have hstep₄ : Step {} (fun _ => none) n₃ n₄ (fun _ => none) :=
    .change a _ _ htouch (.deliver r (blobIDOf cfg msg.data) (hev₃.wf.mailbox_isSome hidx₃) rfl hblob)
  have hev₄ := hstep₄.evolves hev₃.wf
  have hev := hev₂.trans (hev₃.trans hev₄)
  have hwf := hev₃.wf.account a
  have hsame : ∀ c, (∀ mb' uid, (n₂.kv.account c).row mb' uid = (n.kv.account c).row mb' uid) ∧
      (n₂.kv.account c).emails = (n.kv.account c).emails := by
    intro c
    rw [← hacct]
    rcases hbox c with hc | ⟨-, -, hc⟩ <;> rw [hc] <;> exact ⟨fun _ _ => rfl, rfl⟩
  have hrows₃ : ∀ c mb' uid, (n₃.kv.account c).row mb' uid = (n.kv.account c).row mb' uid := fun c => (hsame c).1
  have hdocs₃ : ∀ c, (n₃.kv.account c).emails = (n.kv.account c).emails := fun c => (hsame c).2
  refine ⟨n₄, a, mb, (n₃.kv.account a).lastUID mb + 1, (n₃.kv.account a).lastEmail + 1,
    r.document ((n₃.kv.account a).nextIDs mb), ?_, hev₁.trans hev, hev.registry account a hreg,
    (hev₄.account a).name mailbox mb hidx₃, ⟨mb, _, _, rfl⟩, ⟨?_, ?_, ?_, fun c mb' uid' => ?_, fun c id' => ?_⟩⟩
  · unfold deliver
    rw [Prog.exec_bind_ok he₁, Prog.exec_bind_ok he₂, Prog.exec_bind_ok (Prog.exec_write _ n₂),
      Prog.exec_bind_ok (exec_peek _ n₃), Prog.exec_bind_ok (t := n₄) rfl,
      Prog.exec_bind_ok (exec_peek _ n₄)]
    have hpresent : decide (blobIDOf cfg msg.data ∈ n₄.store.blobs) = true := decide_eq_true hblob
    rw [hpresent]
    rfl
  · exact Nat.lt_succ_of_le (((hev₁.trans (hev₂.trans hev₃)).account a).lastUID mb)
  · rw [← hrows₃]
    by_contra hne
    obtain ⟨id, hid⟩ := Option.ne_none_iff_exists'.mp hne
    have := hwf.row_uid _ _ _ hid
    omega
  · rw [← hdocs₃]
    exact hwf.no_next_email
  · obtain ⟨l, hl⟩ := htouch.account c
    rw [Node.kv_withKV, hl, ← hrows₃]
    change (if a = c then (n₃.kv.account a).delivered r else n₃.kv.account c).row mb' uid' = _
    by_cases hc : a = c
    · subst hc
      rw [if_pos rfl, row_delivered]
      simp only [true_and]
      rfl
    · rw [if_neg hc, if_neg fun h => hc h.1]
  · obtain ⟨l, hl⟩ := htouch.account c
    rw [Node.kv_withKV, hl, ← hdocs₃, Account.withLinks_emails]
    by_cases hc : a = c
    · subst hc
      rw [if_pos rfl, hwf.emails_delivered]
      simp only [true_and]
      rfl
    · rw [if_neg hc, if_neg fun h => hc h.1]

/-- The frame of a delivery. -/
theorem Adds.within {mb' : Nat} (h : n.Wf) (hadd : Adds n n' a mb uid id d) (hd : new d) :
    Within a mb' gone new n n' := by
  refine ⟨fun c mb₁ uid₁ id₁ hr => .inl (hadd.row_kept hr), fun c mb₁ uid₁ id₁ d₁ hr hd₁ => ?_⟩
  rw [hadd.rows] at hr
  rw [hadd.docs] at hd₁
  split_ifs at hr hd₁ with hnew hid hid
  · obtain rfl := Option.some.inj hd₁
    exact .inr hd
  · exact absurd ⟨hnew.1, Option.some.inj hr⟩ hid
  · obtain ⟨rfl, rfl⟩ := hid
    obtain ⟨d', hd', -⟩ := (h.account a).row_doc mb₁ uid₁ id hr
    exact absurd hd' (by rw [hadd.unused]; simp)
  · exact .inl ⟨hr, hd₁⟩

/-! ### Copying -/

/-- A document that a copy of one of these messages writes, with the bytes that are stored for it. -/
def CopyIn (cfg : Config) (dst : Str) (sources : List Email) (n : Node) (d : EmailDoc) : Prop :=
  ∃ e ∈ sources, ∃ data, n.store.blobs[e.blobID]? = some data ∧ Delivery cfg dst (copyOf e data) d

theorem exec_getBlob {id data : Str} (h : n.store.blobs[id]? = some data) :
    (getBlob id).exec n = (n, .ok data) := by
  unfold getBlob
  rw [Prog.exec_bind_ok (exec_peek _ n), h]
  rfl

/-- The bytes of a listed message are stored. -/
theorem Node.Wf.blob_of_listing (h : n.Wf) (he : e ∈ listing (n.kv.account a) mb) :
    ∃ data, n.store.blobs[e.blobID]? = some data := by
  obtain ⟨uid, id, d, hr, hd, -, rfl⟩ := (mem_listing (h.account a)).mp he
  obtain ⟨d', hd', -, -, hb, -⟩ := (h.account a).row_doc mb uid id hr
  obtain rfl := Option.mem_unique hd hd'
  obtain ⟨b, hb⟩ := Option.isSome_iff_exists.mp hb
  have hmem := h.blob a id d b hd hb
  have hid : (emailFromFields id d).blobID = b := by simp [emailFromFields, hb]
  rw [hid]
  exact Option.isSome_iff_exists.mp (Std.ExtTreeMap.mem_iff_isSome_getElem?.mp hmem)

/-- The copy of a message that a run from `n` to `n'` made and reported. -/
def CopyMade (cfg : Config) (dst : Str) (a : Nat) (n n' : Node) (mapping : List (Nat × Nat)) (e : Email) : Prop :=
  ∃ (mb uid id : Nat) (d : EmailDoc) (data : Str), (e.uid, u32 uid) ∈ mapping ∧
    (n.kv.account a).lastUID mb < uid ∧ (n'.kv.account a).nameIdx[dst]? = some mb ∧
    (n'.kv.account a).row mb uid = some id ∧ (n'.kv.account a).emails[id]? = some d ∧
    Delivery cfg dst (copyOf e data) d

/-- Messages whose document is not among `ids` keep their row and their document. -/
def KeepsBut (ids : List Nat) (a : Nat) (n n' : Node) : Prop :=
  ∀ (mb uid id : Nat) (d : EmailDoc), id ∉ ids → (n.kv.account a).row mb uid = some id →
    (n.kv.account a).emails[id]? = some d →
    (n'.kv.account a).row mb uid = some id ∧ (n'.kv.account a).emails[id]? = some d

theorem KeepsBut.row (hk : KeepsBut [id] a n n') (h : n.Wf) (uid id' : Nat) (hne : id' ≠ id)
    (hr : (n.kv.account a).row mb uid = some id') : (n'.kv.account a).row mb uid = some id' := by
  obtain ⟨d, hd, -⟩ := (h.account a).row_doc mb uid id' hr
  exact (hk mb uid id' d (by simpa using hne) hr hd).1

theorem CopyMade.earlier {n₀ : Node} {dst : Str} {mapping mapping' : List (Nat × Nat)}
    (hev : Evolves n₀ n) (hsub : mapping ⊆ mapping') (h : CopyMade cfg dst a n n' mapping e) :
    CopyMade cfg dst a n₀ n' mapping' e := by
  obtain ⟨mb, uid, id, d, data, hmem, hlt, hrest⟩ := h
  exact ⟨mb, uid, id, d, data, hsub hmem, Nat.lt_of_le_of_lt ((hev.account a).lastUID mb) hlt, hrest⟩

/-- The copy that a delivery made is still there at the end. -/
theorem Adds.copyMade {dst : Str} {mapping : List (Nat × Nat)} {data : Str} {n₁ : Node} {ids : List Nat}
    (hadd : Adds n n₁ a mb uid id d) (hcopy : Delivery cfg dst (copyOf e data) d) (hid : id ∉ ids)
    (hidx : (n'.kv.account a).nameIdx[dst]? = some mb) (hsp : KeepsBut ids a n₁ n') :
    CopyMade cfg dst a n n' ((e.uid, u32 uid) :: mapping) e := by
  obtain ⟨hr, hd⟩ := hsp mb uid id d hid hadd.row hadd.doc
  exact ⟨mb, uid, id, d, data, by simp, hadd.fresh, hidx, hr, hd, hcopy⟩

/-- The loop of `Copy` adds a copy of every target and touches no other message; `n₀` is where the
    targets were listed. -/
theorem exec_copyEach (cfg : Config) (dst : Str) (all : List Email) (n₀ : Node) :
    ∀ (targets : List Email) (n : Node), Evolves n₀ n → n.kv.registry[account]? = some a →
    (∀ e ∈ targets, e ∈ all ∧ ∃ data, n₀.store.blobs[e.blobID]? = some data) →
    ∃ n' mapping, (copyEach cfg account dst targets).exec n = (n', .ok mapping) ∧ Evolves n n' ∧
      (∀ mb gone, Within a mb gone (CopyIn cfg dst all n₀) n n') ∧ KeepsBut [] a n n' ∧
      ∀ e ∈ targets, CopyMade cfg dst a n n' mapping e
  | [], n, h₀, _, _ => ⟨n, [], rfl, Evolves.refl h₀.wf, fun _ _ => .of_kv rfl, fun _ _ _ _ _ hr hd => ⟨hr, hd⟩,
      by simp⟩
  | e :: rest, n, h₀, hreg, hall => by
    obtain ⟨hmem, data, hdata⟩ := hall e (by simp)
    obtain ⟨n₁, a', mb, uid, id, d, he₁, hev₁, hreg₁, hidx, hcopy, hadd⟩ :=
      exec_deliver_adds cfg account dst (copyOf e data) h₀.wf
    obtain rfl : a = a' := Option.some.inj ((hev₁.registry account a hreg).symm.trans hreg₁)
    obtain ⟨n₂, mapping, he₂, hev₂, hw₂, hsp, hmade⟩ := exec_copyEach cfg dst all n₀ rest n₁ (h₀.trans hev₁) hreg₁
      fun f hf => hall f (by simp [hf])
    refine ⟨n₂, (e.uid, u32 uid) :: mapping, ?_, hev₁.trans hev₂, fun mb gone => ?_, ?_, fun f hf => ?_⟩
    · unfold copyEach
      rw [Prog.exec_bind_ok (exec_getBlob (h₀.blob _ _ hdata)), Prog.exec_bind_ok he₁, Prog.exec_bind_ok he₂]
      rfl
    · exact (hadd.within h₀.wf ⟨e, hmem, data, hdata, hcopy⟩).trans (hw₂ mb gone)
    · exact fun mb' uid' id' d' hid hr hd => hsp mb' uid' id' d' hid (hadd.row_kept hr) (hadd.doc_kept hd)
    · rcases mem_cons.mp hf with rfl | hf
      · exact hadd.copyMade hcopy not_mem_nil ((hev₂.account a).name dst mb hidx) hsp
      · exact (hmade f hf).earlier hev₁ (subset_cons_self _ _)

/-! ### Deleting -/

theorem exec_deleteEmail_eq (a id mb m : Nat) (requireDeleted : Bool) (n : Node) :
    (deleteEmail a id mb m requireDeleted).exec n =
      (n.withKV (deleteEmailAtomically a id (if requireDeleted = true then some flagDeleted else none)
        (deletionRows mb m (n.kv.account a).emails[id]?) n.store.now n.kv).1,
       (deleteEmailAtomically a id (if requireDeleted = true then some flagDeleted else none)
        (deletionRows mb m (n.kv.account a).emails[id]?) n.store.now n.kv).2) := rfl

/-- Deleting a document touches only the message it is the document of. -/
theorem exec_deleteEmail (m : Nat) (requireDeleted : Bool) (h : n.Wf)
    (ho : (n.kv.account a).Owns mb uid id) (hname : ∃ name : Str, (n.kv.account a).nameIdx[name]? = some mb) :
    Evolves n ((deleteEmail a id mb m requireDeleted).exec n).1 ∧
      Within a mb (· = uid) (fun _ => False) n ((deleteEmail a id mb m requireDeleted).exec n).1 := by
  rw [exec_deleteEmail_eq]
  have hrows := deletionRows_cases ho m
  generalize deletionRows mb m (n.kv.account a).emails[id]? = extra at hrows ⊢
  rcases deleteEmailAtomically_touches a id _ extra n.store.now n.kv with ⟨he, -⟩ | ⟨d, hd, -, htouch⟩
  · rw [he]; exact ⟨Evolves.refl h, .of_kv rfl⟩
  rcases hrows with rfl | ⟨rfl, hp⟩
  · constructor
    · obtain ⟨name, hname⟩ := hname
      obtain ⟨md, hmd, hnm⟩ := (h.account a).name_mailbox name mb hname
      have hc : Change {} (· ∈ n.store.blobs) a (fun _ => if m ≠ 0 then some m else none)
          (n.kv.account a) _ (fun _ => if m ≠ 0 then some m else none) :=
        .remove mb uid id d _ ho hd (fun _ hm => hm) fun _ => ⟨md, name, hmd, hnm, not_false⟩
      exact (Step.change a _ _ htouch hc).evolves h
    · refine .of_touches htouch (fun mb' uid' id' hr => ?_) fun mb' uid' id' d' hr hd' => Or.inl ?_
      · rw [row_delete]
        split_ifs with hc
        · exact Or.inr ⟨hc.1.symm, hc.2.symm⟩
        · exact Or.inl hr
      · rw [row_delete] at hr
        rw [emails_delete] at hd'
        split_ifs at hr hd'
        exact ⟨hr, hd'⟩
  · constructor
    · have hc : Change {} (· ∈ n.store.blobs) a (fun _ => none) (n.kv.account a) _ (fun _ => none) :=
        .phantom id d hp hd
      exact (Step.change a _ _ htouch hc).evolves h
    · refine .of_touches htouch (fun mb' uid' id' hr => Or.inl hr) fun mb' uid' id' d' hr hd' => Or.inl ?_
      have hem : ((n.kv.account a).delete id d []).emails = (n.kv.account a).emails.erase id := rfl
      rw [hem, getElem?_erase_row] at hd'
      split_ifs at hd'
      exact ⟨hr, hd'⟩

/-- A message whose row is there is deleted, unless it has to be marked and is not. -/
theorem deleteEmail_removes {m : Nat} {requireDeleted : Bool} (h : n.Wf)
    (hr : (n.kv.account a).row mb uid = some id) (hd : (n.kv.account a).emails[id]? = some d)
    (hmark : requireDeleted = true → hasListToken (d.flags.getD []) flagDeleted = true) :
    ((deleteEmail a id mb m requireDeleted).exec n).2 = .ok () ∧
      (((deleteEmail a id mb m requireDeleted).exec n).1.kv.account a).row mb uid = none := by
  obtain ⟨d', hd', -, huid, -, -⟩ := (h.account a).row_doc mb uid id hr
  obtain rfl := Option.mem_unique hd hd'
  have hrows : deletionRows mb m (n.kv.account a).emails[id]? =
      removal mb uid (if m ≠ 0 then some m else none) := by
    refine (deletionRows_cases ((h.account a).owns hr) m).resolve_right fun hp => ?_
    rw [hp.2.2 d hd] at huid
    cases huid
  rw [exec_deleteEmail_eq, hrows]
  rcases deleteEmailAtomically_touches a id (if requireDeleted = true then some flagDeleted else none)
    (removal mb uid _) n.store.now n.kv with ⟨-, ⟨hnone, -⟩ | hmk⟩ | ⟨d', hd', hok, htouch⟩
  · rw [hd] at hnone
    cases hnone
  · exfalso
    unfold deleteEmailAtomically at hmk
    rw [hd] at hmk
    cases hreq : requireDeleted with
    | false => simp [hreq] at hmk
    | true => simp [hreq, hmark hreq] at hmk
  · refine ⟨hok, ?_⟩
    obtain ⟨l, hl⟩ := htouch.account a
    rw [Node.kv_withKV, hl, if_pos rfl]
    change ((n.kv.account a).delete id d' (removal mb uid _)).row mb uid = none
    rw [row_delete, if_pos ⟨rfl, rfl⟩]

/-- A row that is gone does not come back. -/
theorem Evolves.row_none (h : Evolves n n') (hr : (n.kv.account a).row mb uid = none)
    (hle : uid ≤ (n.kv.account a).lastUID mb) : (n'.kv.account a).row mb uid = none := by
  by_contra hne
  obtain ⟨id, hid⟩ := Option.ne_none_iff_exists'.mp hne
  rcases (h.account a).row mb uid id hid with hx | ⟨hlt, -⟩
  · rw [hr] at hx
    cases hx
  · omega

/-- The messages that a loop over `all` may take away. -/
def TakenIn (all : List Email) (uid : Nat) : Prop := ∃ e ∈ all, e.uid = u32 uid

/-- A message that is there is deleted, and the others are spared. -/
theorem exec_deleteEmail_there {m : Nat} (h : n.Wf) (hidx : (n.kv.account a).nameIdx[mailbox]? = some mb)
    (hr : (n.kv.account a).row mb uid = some id) :
    ∃ n', (deleteEmail a id mb m false).exec n = (n', .ok ()) ∧ Evolves n n' ∧
      Within a mb (· = uid) (fun _ => False) n n' ∧ KeepsBut [id] a n n' ∧
      (n'.kv.account a).row mb uid = none ∧ uid ≤ (n'.kv.account a).lastUID mb := by
  obtain ⟨d, hd, -⟩ := (h.account a).row_doc mb uid id hr
  obtain ⟨hok, hnone⟩ := deleteEmail_removes (m := m) h hr hd fun hf : false = true => by cases hf
  obtain ⟨hev, hwithin⟩ := exec_deleteEmail m false h ((h.account a).owns hr) ⟨mailbox, hidx⟩
  refine ⟨_, Prod.ext rfl hok, hev, hwithin, fun mb' uid' id' d' hid hr' hd' => ?_, hnone, ?_⟩
  · have hkept := (hwithin.kept a mb' uid' id' hr').resolve_right ?_
    · obtain ⟨d₁, hd₁, -⟩ := (hev.wf.account a).row_doc mb' uid' id' hkept
      obtain ⟨-, hsame⟩ := (hwithin.docs a mb' uid' id' d₁ hkept hd₁).resolve_right not_false
      obtain rfl := Option.mem_unique hsame hd'
      exact ⟨hkept, hd₁⟩
    · rintro ⟨-, rfl, rfl⟩
      exact hid (by simpa using Option.mem_unique hr' hr)
  · exact ((h.account a).row_uid mb uid _ hr).trans ((hev.account a).lastUID mb)

/-- The first of the messages goes if it is marked. -/
def FirstGone (a mb : Nat) (emails : List Email) (marked : EmailDoc → Prop) (n n' : Node) : Prop :=
  ∀ e ∈ emails.head?, ∀ (uid : Nat) (d : EmailDoc), (n.kv.account a).row mb uid = some e.docID →
    (n.kv.account a).emails[e.docID]? = some d → marked d → (n'.kv.account a).row mb uid = none

/-- Rows and documents are the same. -/
structure SameMail (n n' : Node) : Prop where
  row : ∀ c mb uid : Nat, (n'.kv.account c).row mb uid = (n.kv.account c).row mb uid
  doc : ∀ c : Nat, (n'.kv.account c).emails = (n.kv.account c).emails

theorem SameMail.firstGone {emails : List Email} {marked : EmailDoc → Prop} (hs : SameMail n n')
    (h : FirstGone a mb emails marked n' n'') : FirstGone a mb emails marked n n'' :=
  fun e he uid d hr hd => h e he uid d (by rw [hs.row]; exact hr) (by rw [hs.doc]; exact hd)

/-- Each of the messages is there, once. -/
structure AllThere (x : Account) (mb : Nat) (emails : List Email) : Prop where
  nodup : (emails.map (·.docID)).Nodup
  row : ∀ e ∈ emails, ∃ uid, x.row mb uid = some e.docID

theorem AllThere.tail {x y : Account} {rest : List Email} (h : AllThere x mb (e :: rest))
    (hkeep : ∀ (uid id : Nat), id ≠ e.docID → x.row mb uid = some id → y.row mb uid = some id) :
    AllThere y mb rest := by
  obtain ⟨hnot, hnodup⟩ := nodup_cons.mp h.nodup
  refine ⟨hnodup, fun f hf => ?_⟩
  obtain ⟨uid, hr⟩ := h.row f (by simp [hf])
  exact ⟨uid, hkeep uid _ (fun he => hnot (List.mem_map.mpr ⟨f, hf, he⟩)) hr⟩

theorem allThere_listing (h : n.Wf) (a mb : Nat) :
    AllThere (n.kv.account a) mb (listing (n.kv.account a) mb) := by
  refine ⟨?_, fun e he => ?_⟩
  · refine pairwise_map.mpr (pairwise_filterMap.mpr ?_)
    refine ((nodup_scan_keys ((n.kv.account a).emailIdx mb)).of_map _).pairwise_of_forall_ne ?_
    intro r hr r' hr' hne e he e' he'
    obtain ⟨d, -, rfl⟩ := Option.map_eq_some_iff.mp he
    obtain ⟨d', -, rfl⟩ := Option.map_eq_some_iff.mp he'
    intro heq
    have heq : r.2 = r'.2 := heq
    refine hne (Prod.ext ?_ heq)
    exact ((h.account a).row_inj mb r.1 mb r'.1 r.2 (mem_scan.mp hr) (by rw [heq]; exact mem_scan.mp hr')).2
  · obtain ⟨uid, hr, -⟩ := row_of_docID (h.account a) he
    exact ⟨uid, hr⟩

/-- The loop of `Move` takes away targets only and adds copies of them only, every target is copied, and
    the first does go. -/
theorem exec_moveEach (cfg : Config) (dst : Str) (m : Nat) (all : List Email) (n₀ : Node) :
    ∀ (targets : List Email) (n : Node), Evolves n₀ n → n.kv.registry[account]? = some a →
    (n.kv.account a).nameIdx[mailbox]? = some mb → AllThere (n.kv.account a) mb targets →
    (∀ e ∈ targets, e ∈ all ∧ Listed (n.kv.account a) mb e ∧ ∃ data, n₀.store.blobs[e.blobID]? = some data) →
    ∃ n' mapping, (moveEach cfg account dst a mb m targets).exec n = (n', .ok mapping) ∧ Evolves n n' ∧
      Within a mb (TakenIn all) (CopyIn cfg dst all n₀) n n' ∧ KeepsBut (targets.map (·.docID)) a n n' ∧
      (∀ e ∈ targets, CopyMade cfg dst a n n' mapping e) ∧ FirstGone a mb targets (fun _ => True) n n'
  | [], n, h₀, _, _, _, _ => ⟨n, [], rfl, Evolves.refl h₀.wf, .of_kv rfl, fun _ _ _ _ _ hr hd => ⟨hr, hd⟩,
      fun e he => by simp at he, fun e he => by simp at he⟩
  | e :: rest, n, h₀, hreg, hidx, hthere, hall => by
    obtain ⟨hmem, ⟨src, ho, hsrc⟩, data, hdata⟩ := hall e (by simp)
    obtain ⟨n₁, a', mb', uid, id, d, he₁, hev₁, hreg₁, hidx₁, hcopy, hadd⟩ :=
      exec_deliver_adds cfg account dst (copyOf e data) h₀.wf
    obtain rfl : a = a' := Option.some.inj ((hev₁.registry account a hreg).symm.trans hreg₁)
    obtain ⟨uid', hr⟩ := hthere.row e (by simp)
    obtain ⟨-, rfl⟩ := ho.only mb uid' hr
    obtain ⟨n₂, he₂, hev₂, hw₂, hsp₂, hnone, hle⟩ := exec_deleteEmail_there (m := m) hev₁.wf
      ((hev₁.account a).name mailbox mb hidx) (hadd.row_kept hr)
    have hev := hev₁.trans hev₂
    obtain ⟨n₃, mapping, he₃, hev₃, hw₃, hsp₃, hmade, -⟩ := exec_moveEach cfg dst m all n₀ rest n₂ (h₀.trans hev)
      (hev.registry account a hreg) ((hev.account a).name mailbox mb hidx)
      (hthere.tail fun uid id hne hr => hsp₂.row hev₁.wf uid id hne (hadd.row_kept hr)) fun f hf => by
        obtain ⟨hm, hl, hb⟩ := hall f (by simp [hf])
        exact ⟨hm, hl.grows (hev.account a), hb⟩
    have hkeep : KeepsBut ((e :: rest).map (·.docID)) a n₁ n₃ := by
      intro mb₁ uid₁ id₁ d₁ hid hr hd
      rw [map_cons, mem_cons, not_or] at hid
      obtain ⟨hr₂, hd₂⟩ := hsp₂ mb₁ uid₁ id₁ d₁ (by simpa using hid.1) hr hd
      exact hsp₃ mb₁ uid₁ id₁ d₁ hid.2 hr₂ hd₂
    have hframe : Within a mb (TakenIn all) (CopyIn cfg dst all n₀) n n₂ := by
      refine (hadd.within h₀.wf ⟨e, hmem, data, hdata, hcopy⟩).trans (hw₂.mono ?_ fun _ h => h.elim)
      rintro _ rfl
      exact ⟨e, hmem, hsrc⟩
    refine ⟨n₃, (e.uid, u32 uid) :: mapping, ?_, hev.trans hev₃, hframe.trans hw₃, ?_, fun f hf => ?_,
      fun f hf uid₁ d₁ hr₁ _ _ => ?_⟩
    · unfold moveEach
      rw [Prog.exec_bind_ok (exec_getBlob (h₀.blob _ _ hdata)), Prog.exec_bind_ok he₁, Prog.exec_bind_ok he₂,
        Prog.exec_bind_ok he₃]
      rfl
    · exact fun mb₁ uid₁ id₁ d₁ hid hr hd => hkeep mb₁ uid₁ id₁ d₁ hid (hadd.row_kept hr) (hadd.doc_kept hd)
    · rcases mem_cons.mp hf with rfl | hf
      · refine hadd.copyMade hcopy (fun hin => ?_) (((hev₂.trans hev₃).account a).name dst mb' hidx₁) hkeep
        -- the copy has a new document, and those of the targets were there before
        obtain ⟨g, hg, hgid⟩ := List.mem_map.mp hin
        obtain ⟨uid', hr⟩ := hthere.row g hg
        obtain ⟨d', hd', -⟩ := (h₀.wf.account a).row_doc mb uid' g.docID hr
        rw [hgid, hadd.unused] at hd'
        cases hd'
      · exact (hmade f hf).earlier hev (subset_cons_self _ _)
    · obtain rfl : e = f := by simpa using hf
      obtain ⟨-, rfl⟩ := ho.only mb uid₁ hr₁
      exact hev₃.row_none hnone hle

/-- A message of the loop of `expungeUIDs` is deleted or is not to be, and the loop goes on. -/
theorem exec_expungeEach_cons {m : Nat} {requireDeleted : Bool} {rest : List Email} {uids : List Nat}
    (h : (expungeEach a mb m requireDeleted rest).exec ((deleteEmail a e.docID mb m requireDeleted).exec n).1 =
      (n', .ok uids)) : ∃ uids', (expungeEach a mb m requireDeleted (e :: rest)).exec n = (n', .ok uids') := by
  unfold expungeEach
  rw [exec_deleteEmail_eq] at h
  rw [Prog.exec_attempt, exec_deleteEmail_eq]
  rcases deleteEmailAtomically_touches a e.docID _ (deletionRows mb m (n.kv.account a).emails[e.docID]?) n.store.now
    n.kv with ⟨-, ⟨-, hr⟩ | hr⟩ | ⟨-, -, hr, -⟩
  · rw [hr]; exact ⟨e.uid :: uids, Prog.exec_bind_ok h⟩
  · rw [hr]; exact ⟨uids, h⟩
  · rw [hr]; exact ⟨e.uid :: uids, Prog.exec_bind_ok h⟩

/-- The loop of `expungeUIDs` takes away targets only; the first goes if it is marked. -/
theorem exec_expungeEach (m : Nat) (requireDeleted : Bool) (all : List Email) :
    ∀ (targets : List Email) (n : Node), n.Wf → (n.kv.account a).nameIdx[mailbox]? = some mb →
    (∀ e ∈ targets, e ∈ all ∧ Listed (n.kv.account a) mb e) →
    ∃ n' uids, (expungeEach a mb m requireDeleted targets).exec n = (n', .ok uids) ∧ Evolves n n' ∧
      Within a mb (TakenIn all) (fun _ => False) n n' ∧
      FirstGone a mb targets (fun d => hasListToken (d.flags.getD []) flagDeleted = true) n n'
  | [], n, h, _, _ => ⟨n, [], rfl, Evolves.refl h, .of_kv rfl, fun e he => by simp at he⟩
  | e :: rest, n, h, hidx, hall => by
    obtain ⟨hmem, uid, ho, huid⟩ := hall e (by simp)
    obtain ⟨hev, hw⟩ := exec_deleteEmail m requireDeleted h ho ⟨mailbox, hidx⟩
    obtain ⟨n', uids, he, hev₂, hw₂, -⟩ := exec_expungeEach m requireDeleted all rest _ hev.wf
      ((hev.account a).name mailbox mb hidx) fun f hf => by
        obtain ⟨hm, hl⟩ := hall f (by simp [hf])
        exact ⟨hm, hl.grows (hev.account a)⟩
    have hframe : Within a mb (TakenIn all) (fun _ => False) n _ :=
      hw.mono (fun _ hu => ⟨e, hmem, by rw [hu]; exact huid⟩) fun _ h => h
    obtain ⟨uids', he'⟩ := exec_expungeEach_cons he
    refine ⟨n', uids', he', hev.trans hev₂, hframe.trans hw₂, fun f hf uid d hr hd hmark => ?_⟩
    obtain rfl : e = f := by simpa using hf
    refine hev₂.row_none (deleteEmail_removes h hr hd fun _ => hmark).2 ?_
    exact ((h.account a).row_uid mb uid _ hr).trans ((hev.account a).lastUID mb)

/-! ### The operations -/

theorem exec_bump (h : n.Wf) (hidx : (n.kv.account a).nameIdx[mailbox]? = some mb) :
    ∃ n' m, (txn (bumpMailboxModSeq a mb)).exec n = (n', .ok m) ∧ Evolves n n' ∧ SameMail n n' := by
  have hc : Change {} (· ∈ n.store.blobs) a (fun _ => none) (n.kv.account a) _ _ :=
    .bump mb (h.mailbox_isSome hidx)
  have hrow : ∀ c, (n.kv.modify a (·.putMailbox mb { modSeq := some ((n.kv.account a).modSeq mb + 1) })).account c =
      if a = c then (n.kv.account c).putMailbox mb { modSeq := some ((n.kv.account a).modSeq mb + 1) }
      else n.kv.account c := fun c => KV.account_modify _ _ _ _
  refine ⟨_, (n.kv.account a).modSeq mb + 1, rfl,
    (Step.change a _ _ (touches_modify a (·.bump mb ((n.kv.account a).modSeq mb + 1)) n.kv) hc).evolves h,
    ⟨fun c mb' uid => ?_, fun c => ?_⟩⟩
  · change ((n.kv.modify a _).account c).row mb' uid = _
    rw [hrow]
    split_ifs <;> rfl
  · change ((n.kv.modify a _).account c).emails = _
    rw [hrow]
    split_ifs <;> rfl

/-- A frame that starts where rows and documents are still the old ones. -/
theorem Within.after (h : Within a mb gone new n' n'') (hs : SameMail n n') : Within a mb gone new n n'' := by
  refine ⟨fun c mb' uid id hr => h.kept c mb' uid id (by rw [hs.row]; exact hr), ?_⟩
  intro c mb' uid id d hr hd
  refine (h.docs c mb' uid id d hr hd).imp_left fun ⟨hr, hd⟩ => ?_
  rw [hs.row] at hr
  rw [hs.doc] at hd
  exact ⟨hr, hd⟩

theorem listed_of_listing (h : n.Wf) (he : e ∈ listing (n.kv.account a) mb) : Listed (n.kv.account a) mb e := by
  obtain ⟨uid, hr, hu⟩ := row_of_docID (h.account a) he
  exact ⟨uid, (h.account a).owns hr, hu⟩

/-- `expungeUIDs` takes away its targets only, and nothing at all without targets. -/
theorem exec_expungeUIDs (h : n.Wf) (hl : located n account mailbox = some (a, mb)) (uids : List Nat)
    (requireDeleted : Bool) :
    let targets := expungeTargets uids requireDeleted (listing (n.kv.account a) mb)
    ∃ n' deleted, (expungeUIDs account mailbox uids requireDeleted).exec n = (n', .ok deleted) ∧
      (targets = [] → n' = n) ∧ Within a mb (TakenIn targets) (fun _ => False) n n' ∧
      FirstGone a mb targets (fun d => hasListToken (d.flags.getD []) flagDeleted = true) n n' := by
  intro targets
  obtain ⟨hreg, hidx⟩ := located_eq_some.mp hl
  unfold expungeUIDs
  rw [exec_resolve_bind h hl]
  simp only [Prog.exec_bind_ok (exec_mailboxEmails a mb n)]
  by_cases hnil : targets = []
  · rw [if_pos hnil, hnil]
    exact ⟨n, [], rfl, fun _ => rfl, .of_kv rfl, fun e he => by simp at he⟩
  · obtain ⟨n₁, m, he₁, hev₁, hsame⟩ := exec_bump h hidx
    rw [if_neg hnil]
    simp only [Prog.exec_bind_ok he₁]
    obtain ⟨n', deleted, he, -, hw₂, hgo⟩ := exec_expungeEach m requireDeleted targets targets n₁ hev₁.wf
      ((hev₁.account a).name mailbox mb hidx) fun e he =>
        ⟨he, (listed_of_listing h (mem_of_mem_filter he)).grows (hev₁.account a)⟩
    exact ⟨n', deleted, he, fun hn => absurd hn hnil, hw₂.after hsame, hsame.firstGone hgo⟩

/-- `Copy` adds copies of its targets only, and nothing at all without targets. -/
theorem exec_copy (cfg : Config) (h : n.Wf) (hl : located n account mailbox = some (a, mb)) (dst : Str)
    (uids : List Nat) :
    let targets := selectUIDs uids (listing (n.kv.account a) mb)
    ∃ n' mapping, (copy cfg account mailbox dst uids).exec n = (n', .ok mapping) ∧ Evolves n n' ∧
      (∀ e ∈ targets, CopyMade cfg dst a n n' mapping e) ∧ (targets = [] → n' = n) ∧
      Within a mb (fun _ => False) (CopyIn cfg dst targets n) n n' := by
  intro targets
  unfold copy
  rw [exec_resolve_bind h hl]
  simp only [Prog.exec_bind_ok (exec_mailboxEmails a mb n)]
  obtain ⟨n', mapping, he, hev, hw, -, hmade⟩ := exec_copyEach cfg dst targets n targets n
    (Evolves.refl h) (located_eq_some.mp hl).1 fun e he =>
      ⟨he, h.blob_of_listing (mem_of_mem_filter he)⟩
  refine ⟨n', mapping, he, hev, hmade, fun hnil => ?_, hw mb _⟩
  rw [hnil] at he
  exact (Prod.mk.inj he).1.symm

/-- The loop of `Move` on targets that were listed before, when rows and documents are still as they were. -/
theorem exec_moveEach_listed (cfg : Config) (m : Nat) (dst : Str) (uids : List Nat) (h : n.Wf)
    (hl : located n account mailbox = some (a, mb)) (hev₁ : Evolves n n') (hsame : SameMail n n') :
    let targets := selectUIDs uids (listing (n.kv.account a) mb)
    ∃ n'' mapping, (moveEach cfg account dst a mb m targets).exec n' = (n'', .ok mapping) ∧ Evolves n n'' ∧
      (∀ e ∈ targets, CopyMade cfg dst a n n'' mapping e) ∧
      Within a mb (TakenIn targets) (CopyIn cfg dst targets n) n n'' ∧
      FirstGone a mb targets (fun _ => True) n n'' := by
  intro targets
  obtain ⟨hreg, hidx⟩ := located_eq_some.mp hl
  have hall := allThere_listing h a mb
  have hthere : AllThere (n'.kv.account a) mb targets := by
    refine ⟨hall.nodup.sublist (filter_sublist.map _), fun e hmem => ?_⟩
    obtain ⟨uid, hr⟩ := hall.row e (mem_of_mem_filter hmem)
    exact ⟨uid, by rw [hsame.row]; exact hr⟩
  obtain ⟨n'', mapping, he, hev, hw, -, hmade, hgo⟩ := exec_moveEach cfg dst m targets n targets n' hev₁
    (hev₁.registry account a hreg) ((hev₁.account a).name mailbox mb hidx) hthere fun e hmem => by
      have hlisted := mem_of_mem_filter hmem
      exact ⟨hmem, (listed_of_listing h hlisted).grows (hev₁.account a), h.blob_of_listing hlisted⟩
  exact ⟨n'', mapping, he, hev₁.trans hev, fun e hmem => (hmade e hmem).earlier hev₁ (Subset.refl _),
    hw.after hsame, hsame.firstGone hgo⟩

/-- `Move` takes away its targets only and adds copies of them only, and does nothing at all to an
    empty mailbox. -/
theorem exec_move (cfg : Config) (h : n.Wf) (hl : located n account mailbox = some (a, mb)) (dst : Str)
    (uids : List Nat) :
    let targets := selectUIDs uids (listing (n.kv.account a) mb)
    ∃ n' mapping, (move cfg account mailbox dst uids).exec n = (n', .ok mapping) ∧ Evolves n n' ∧
      (∀ e ∈ targets, CopyMade cfg dst a n n' mapping e) ∧ (uids = [] → targets = [] → n' = n) ∧
      Within a mb (TakenIn targets) (CopyIn cfg dst targets n) n n' ∧
      FirstGone a mb targets (fun _ => True) n n' := by
  intro targets
  unfold move
  rw [exec_resolve_bind h hl]
  simp only [Prog.exec_bind_ok (exec_mailboxEmails a mb n)]
  by_cases hnil : uids = []
  · obtain ⟨n', mapping, he, hev, hmade, hrest⟩ := exec_moveEach_listed cfg 0 dst uids h hl (.refl h)
      ⟨fun _ _ _ => rfl, fun _ => rfl⟩
    have hsel : listing (n.kv.account a) mb = targets := by simp [targets, hnil, selectUIDs]
    rw [if_pos hnil, hsel]
    refine ⟨n', mapping, he, hev, hmade, fun _ hempty => ?_, hrest⟩
    change (moveEach cfg account dst a mb 0 targets).exec n = _ at he
    rw [hempty] at he
    exact (Prod.mk.inj he).1.symm
  · obtain ⟨n₁, m, he₁, hev₁, hsame⟩ := exec_bump h (located_eq_some.mp hl).2
    obtain ⟨n', mapping, he, hev, hmade, hrest⟩ := exec_moveEach_listed cfg m dst uids h hl hev₁ hsame
    rw [if_neg hnil, Prog.exec_bind_ok he₁]
    exact ⟨n', mapping, he, hev, hmade, fun hn => absurd hn hnil, hrest⟩

end

end Mailezine.Mailstore
