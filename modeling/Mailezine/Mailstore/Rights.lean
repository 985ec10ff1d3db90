import Mailezine.Mailstore.Regime

/-! The mailbox operations, whatever is required of their steps.

    `Write` refines `Change`: it also says by which names an operation came to the mailbox it writes and
    what a delivery delivers. `Rights` are the writes that an operation may make. A writer is a regime
    whose guarantee allows the writes within some rights; every mailbox operation is shown once to be
    safe for every writer whose rights cover it. -/

namespace Mailezine.Mailstore
open Gostd Schemes Store List

/-! ### What an operation may write -/

/-- What may be done to a mailbox of an address: deliver into it (creating it if need be), write the
    flags of a UID, take messages out of it, take them out without a tombstone. -/
structure Rights where
  into : Str → Str → Prop := fun _ _ => True
  flag : Str → Str → Nat → Prop := fun _ _ _ => True
  take : Str → Str → Prop := fun _ _ => True
  hush : Str → Str → Prop := fun _ _ => True

/-- The modseq of a mailbox is raised before flags are written or messages are taken out. -/
def Rights.raise (Ω : Rights) (account name : Str) : Prop :=
  (∃ uid, Ω.flag account name uid) ∨ Ω.take account name

/-- A write to account `a`, which `account` stands for: what the account becomes. `held` says which
    document an operation takes for that of a UID. -/
inductive Write (cfg : Config) (Ω : Rights) (held : Nat → Nat → Nat → Prop) (account : Str) (a : Nat)
    (n : Node) : Bumped → Account → Bumped → Prop where
  | create {g} (name : Str) (hin : Ω.into account name)
      (hnew : (n.kv.account a).nameIdx[name]? = none) :
      Write cfg Ω held account a n g ((n.kv.account a).addMailbox name) g
  | bump {g} (name : Str) (mb : Nat) (hmay : Ω.raise account name)
      (hidx : (n.kv.account a).nameIdx[name]? = some mb) :
      Write cfg Ω held account a n g ((n.kv.account a).bump mb ((n.kv.account a).modSeq mb + 1))
        (Function.update g (a, mb) (some ((n.kv.account a).modSeq mb + 1)))
  | deliver {g} (name : Str) (mb : Nat) (msg : Incoming) (now : Nat) (hin : Ω.into account name)
      (hidx : (n.kv.account a).nameIdx[name]? = some mb)
      (hblob : blobIDOf cfg msg.data ∈ n.store.blobs) :
      Write cfg Ω held account a n g ((n.kv.account a).delivered (deliverRequest cfg mb name msg now)) g
  | flags {g} (name : Str) (mb m : Nat) (docs : List (Nat × EmailDoc))
      (hidx : (n.kv.account a).nameIdx[name]? = some mb) (hg : g (a, mb) = some m)
      (hm : m ≤ (n.kv.account a).modSeq mb)
      (hdocs : ∀ u ∈ docs, (∃ uid, held mb uid u.1 ∧ Ω.flag account name uid) ∧ u.2.FlagsOnly m) :
      Write cfg Ω held account a n g (docs.foldl Account.updateEmail (n.kv.account a)) g
  | remove {g} (name : Str) (mb uid id : Nat) (d : EmailDoc) (tomb : Option Nat)
      (htake : Ω.take account name) (hidx : (n.kv.account a).nameIdx[name]? = some mb)
      (ho : (n.kv.account a).Owns mb uid id) (hd : (n.kv.account a).emails[id]? = some d)
      (hg : ∀ m, tomb = some m → g (a, mb) = some m) (hq : tomb = none → Ω.hush account name) :
      Write cfg Ω held account a n g ((n.kv.account a).delete id d (removal mb uid tomb)) g
  | phantom {g} (id : Nat) (d : EmailDoc) (hp : (n.kv.account a).Phantom id)
      (hd : (n.kv.account a).emails[id]? = some d) :
      Write cfg Ω held account a n g ((n.kv.account a).delete id d []) g

/-- The mailbox of an index row exists. -/
theorem Node.Wf.mailbox_isSome {n : Node} {a mb : Nat} {name : Str} (h : n.Wf)
    (hidx : (n.kv.account a).nameIdx[name]? = some mb) : ((n.kv.account a).mailboxes[mb]?).isSome := by
  obtain ⟨d, hd, -⟩ := (h.account a).name_mailbox name mb hidx
  simp [hd]

section Write
variable {cfg : Config} {Ω : Rights} {held : Nat → Nat → Nat → Prop} {account : Str} {a : Nat}
  {n : Node} {g g' : Bumped} {y : Account} {kv' : KV}

theorem Write.change {Γ : Scope} (h : Write cfg Ω held account a n g y g') (hn : n.Wf)
    (ho : ∀ mb uid id, held mb uid id → (n.kv.account a).Owns mb uid id)
    (hflag : ∀ name uid, Ω.flag account name uid → Γ.writes name uid)
    (hhush : ∀ name, Ω.hush account name → ¬Γ.loud name) :
    Change Γ (· ∈ n.store.blobs) a g (n.kv.account a) y g' := by
  cases h with
  | create name _ hnew => exact .mailbox name hnew
  | bump name mb _ hidx => exact .bump mb (hn.mailbox_isSome hidx)
  | deliver name mb msg now _ hidx hblob =>
    exact .deliver _ (blobIDOf cfg msg.data) (hn.mailbox_isSome hidx) rfl hblob
  | flags name mb m docs hidx hg hm hdocs =>
    refine .flags mb m docs hg hm fun u hu => ?_
    obtain ⟨⟨uid, hh, hf⟩, hfo⟩ := hdocs u hu
    exact ⟨⟨uid, ho mb uid u.1 hh, name, hidx, hflag name uid hf⟩, hfo⟩
  | remove name mb uid id d tomb _ hidx ho' hd hg hq =>
    refine .remove mb uid id d tomb ho' hd hg fun hnone => ?_
    obtain ⟨md, hmd, hname⟩ := (hn.account a).name_mailbox name mb hidx
    exact ⟨md, name, hmd, hname, hhush name (hq hnone)⟩
  | phantom id d hp hd => exact .phantom id d hp hd

theorem Write.evolves (h : Write cfg Ω held account a n g y g') (hn : n.Wf)
    (ho : ∀ mb uid id, held mb uid id → (n.kv.account a).Owns mb uid id)
    (ht : Touches a y n.kv kv') : Evolves n (n.withKV kv') := by
  have hc : Change {} (· ∈ n.store.blobs) a g (n.kv.account a) y g' :=
    h.change hn ho (fun _ _ _ => trivial) fun _ _ => not_false
  exact (Step.change a y kv' ht hc).evolves hn

end Write

/-! ### Writers -/

/-- A writer: a regime whose guarantee allows every write within the rights. `H` is what is known of the
    document that was read for a UID, and stays known up to the write. -/
structure Writer (cfg : Config) (Ω : Rights) (H : Node → Nat → Nat → Nat → Nat → Prop)
    (R K : Node → Node → Prop) (G : Bumped → Node → Node → Bumped → Prop) : Prop
    extends Regime R K G where
  held_row : ∀ {n : Node} {account name : Str} {a mb uid id : Nat}, n.Wf →
    (n.kv.account a).nameIdx[name]? = some mb → Ω.flag account name uid →
    (n.kv.account a).row mb uid = some id → H n a mb uid id
  held_owns : ∀ {n : Node} {a mb uid id : Nat}, n.Wf → H n a mb uid id →
    (n.kv.account a).Owns mb uid id
  held_keep : ∀ {n n' : Node} {a mb uid id : Nat}, K n n' → H n a mb uid id → H n' a mb uid id
  held_bump : ∀ {n : Node} {a mb uid id : Nat}, n.Wf →
    Evolves n (n.withKV (bumpMailboxModSeq a mb n.kv).1) → H n a mb uid id →
    H (n.withKV (bumpMailboxModSeq a mb n.kv).1) a mb uid id
  write : ∀ {g g' : Bumped} {n : Node} {account : Str} {a : Nat} {y : Account} {kv' : KV}, n.Wf →
    n.kv.registry[account]? = some a → Write cfg Ω (H n a) account a n g y g' →
    Touches a y n.kv kv' → G g n (n.withKV kv') g'

section
variable {cfg : Config} {Ω : Rights} {H : Node → Nat → Nat → Nat → Nat → Prop}
  {R K : Node → Node → Prop} {G : Bumped → Node → Node → Bumped → Prop} {g : Bumped} {n : Node}
  {a mb : Nat} {name account mailbox : Str}

/-- A mailbox is created where there is none of its name. -/
theorem Regime.ensureMailbox {γ : Type} {G : γ → Node → Node → γ → Prop} {g : γ} (ρ : Regime R K G)
    (hcreate : ∀ t, Evolves n t → (t.kv.account a).nameIdx[name]? = none →
      G g t (t.withKV (t.kv.modify a (·.addMailbox name))) g) {Q : γ → Except Err Nat → Node → Prop}
    (hok : ∀ t id, Evolves n t → (t.kv.account a).nameIdx[name]? = some id → Q g (.ok id) t) :
    Prog.Safe R G Q g (ensureMailbox a name) n := by
  refine Prog.Safe.attempt (ρ.cachedMailboxDocID (fun t id ht => hok t id (ρ.evolves ht)) fun t ht => ?_)
  intro u hu
  have hev := (ρ.evolves ht).trans (ρ.evolves (ρ.rely hu))
  simp only [ensureMailboxDoc]
  cases hidx : (u.kv.account a).nameIdx[name]? with
  | some id => exact ⟨g, ρ.guar g hev.wf (Quiet.refl u), hok u id hev hidx⟩
  | none =>
    have htouch := touches_modify a (·.addMailbox name) u.kv
    have hev' := htouch.evolves hev.wf ((hev.wf.account a).addMailbox hidx)
      ((hev.wf.account a).grows_addMailbox hidx) (hev.wf.blob a)
    refine ⟨g, hcreate u hev hidx, hok _ _ (hev.trans hev') ?_⟩
    rw [Node.kv_withKV, KV.account_modify, if_pos rfl]
    exact (nameIdx_addMailbox (u.kv.account a) name name).trans (if_pos rfl)

theorem Evolves.mem_blobs {n t : Node} (h : Evolves n t) {b : Str} (hb : b ∈ n.store.blobs) :
    b ∈ t.store.blobs := by
  obtain ⟨data, hd⟩ := Option.isSome_iff_exists.mp (Std.ExtTreeMap.mem_iff_isSome_getElem?.mp hb)
  exact Std.ExtTreeMap.mem_iff_isSome_getElem?.mpr (by simp [h.blob b data hd])

theorem flagFields_flagsOnly (flags : List Str) (m : Nat) : (flagFields flags m).FlagsOnly m :=
  ⟨rfl, rfl⟩

/-- The index rows are chosen by what the document was when it was read. -/
theorem deletionRows_cases {x : Account} {uid id : Nat} (ho : x.Owns mb uid id) (m : Nat) :
    deletionRows mb m x.emails[id]? = removal mb uid (if m ≠ 0 then some m else none) ∨
    (deletionRows mb m x.emails[id]? = [] ∧ x.Phantom id) := by
  unfold deletionRows
  cases hd : (x.emails[id]?).bind (·.uid) with
  | none =>
    refine Or.inr ⟨rfl, ho.id_le, fun d hd' => ?_⟩
    rw [hd', Option.bind_some] at hd
    exact hd
  | some v =>
    obtain ⟨d, hd', hv⟩ := Option.bind_eq_some_iff.mp hd
    obtain rfl := ho.doc d v hd' hv
    left
    simp only [removal]
    split_ifs <;> rfl

/-- From whatever `n` may have become the program goes on with the modseq that was taken out. -/
abbrev Writes {α : Type} (R : Node → Node → Prop) (G : Bumped → Node → Node → Bumped → Prop) (g : Bumped)
    (n : Node) (p : Op α) : Prop :=
  Prog.Upholds R G (fun g' t => g' = g ∧ Evolves n t) p

theorem Writes.of_safe {α : Type} {p : Op α}
    (h : ∀ t, Evolves n t → Prog.Safe R G (fun g' _ u => g' = g ∧ Evolves t u) g p t) : Writes R G g n p := by
  rintro _ t ⟨rfl, ht⟩
  exact (h t ht).mono fun _ _ _ hu => ⟨hu.1, ht.trans hu.2⟩

theorem Writes.safe {α : Type} {p : Op α} {Q : Bumped → Except Err α → Node → Prop} (h : Writes R G g n p)
    (hn : n.Wf) (hQ : ∀ t g' r, Evolves n t → Q g' r t) : Prog.Safe R G Q g p n :=
  (h g n ⟨rfl, Evolves.refl hn⟩).mono fun g' r t ht => hQ t g' r ht.2

theorem Listed.owned {x : Account} {e : Email} (h : Listed x mb e) : ∃ uid, x.Owns mb uid e.docID := by
  obtain ⟨uid, ho, -⟩ := h
  exact ⟨uid, ho⟩

variable (ω : Writer cfg Ω H R K G)
include ω

theorem Writer.step {g' : Bumped} {y : Account} {kv' : KV} (hn : n.Wf)
    (hreg : n.kv.registry[account]? = some a) (hw : Write cfg Ω (H n a) account a n g y g')
    (ht : Touches a y n.kv kv') : G g n (n.withKV kv') g' ∧ Evolves n (n.withKV kv') :=
  ⟨ω.write hn hreg hw ht, hw.evolves hn (fun _ _ _ => ω.held_owns hn) ht⟩

theorem Writer.stay (g : Bumped) (hn : n.Wf) : G g n n g :=
  ω.guar g hn (Quiet.refl n)

/-! ### Mailboxes and messages -/

theorem Writer.ensureMailbox (hreg : n.kv.registry[account]? = some a)
    (hin : Ω.into account name) {Q : Bumped → Except Err Nat → Node → Prop}
    (hok : ∀ t id, Evolves n t → (t.kv.account a).nameIdx[name]? = some id → Q g (.ok id) t) :
    Prog.Safe R G Q g (ensureMailbox a name) n :=
  ω.toRegime.ensureMailbox (fun t ht hidx => ω.write ht.wf (ht.registry account a hreg) (.create name hin hidx)
    (touches_modify a (·.addMailbox name) t.kv)) hok

theorem Writer.deliver {msg : Incoming} (hin : Ω.into account mailbox)
    {Q : Bumped → Except Err Nat → Node → Prop} (hok : ∀ t uid, Evolves n t → Q g (.ok uid) t)
    (herr : ∀ t, Evolves n t → Q g (.error .notFound) t) :
    Prog.Safe R G Q g (deliver cfg account mailbox msg) n := by
  refine Prog.Safe.bind (ω.ensureAccount (fun t₁ a h₁ hreg => ?_) fun t ht => herr t (ω.evolves ht))
  refine Prog.Safe.bind (ω.ensureMailbox hreg hin fun t₂ mb h₂ hidx => ?_)
  refine Prog.Safe.bind (ω.putBlob fun t₃ h₃ hblob => ?_)
  refine Prog.Safe.bind (ω.peek fun t₄ h₄ => Prog.Safe.bind ?_)
  intro t₅ h₅
  have h₃₅ := (ω.evolves h₄).trans (ω.evolves (ω.rely h₅))
  have h₂₅ := (ω.evolves h₃).trans h₃₅
  obtain ⟨hG, hev⟩ := ω.step (g := g) h₂₅.wf ((h₂.trans h₂₅).registry account a hreg)
    (.deliver mailbox mb msg t₄.store.now hin ((h₂₅.account a).name mailbox mb hidx)
      (h₃₅.mem_blobs hblob)) (touches_deliverOne a _ t₅.kv)
  refine ⟨g, hG, Prog.Safe.bind (ω.peek fun t₆ h₆ => ?_)⟩
  have h₁₆ := (ω.evolves h₁).trans (h₂.trans (h₂₅.trans (hev.trans (ω.evolves h₆))))
  simp only
  split_ifs
  · exact hok t₆ _ h₁₆
  · exact Prog.Safe.bind (ω.putBlob fun t₇ h₇ _ => hok t₇ _ (h₁₆.trans (ω.evolves h₇)))

theorem Writer.bump (hres : n.Resolves account a name mb)
    (hmay : Ω.raise account name) {Q : Bumped → Except Err Nat → Node → Prop}
    (hok : ∀ t m, Evolves n t → (∀ uid id, H n a mb uid id → H t a mb uid id) → m ≠ 0 →
      m ≤ (t.kv.account a).modSeq mb → Q (Function.update g (a, mb) (some m)) (.ok m) t) :
    Prog.Safe R G Q g (txn (bumpMailboxModSeq a mb)) n := by
  intro t ht
  have hK := ω.rely ht
  have hev := ω.evolves hK
  have hres' := hres.grows hev
  have htouch : Touches a _ t.kv (bumpMailboxModSeq a mb t.kv).1 :=
    touches_modify a (·.bump mb ((t.kv.account a).modSeq mb + 1)) t.kv
  obtain ⟨hG, hev'⟩ := ω.step (g := g) hev.wf hres'.reg (.bump name mb hmay hres'.idx) htouch
  refine ⟨_, hG, hok _ _ (hev.trans hev') (fun uid id hh => ?_) (Nat.succ_ne_zero _) ?_⟩
  · exact ω.held_bump hev.wf hev' (ω.held_keep hK hh)
  · rw [Node.kv_withKV, bumpMailboxModSeq, KV.account_modify, if_pos rfl]
    exact le_of_eq (by simp)

variable {Q : Bumped → Except Err Unit → Node → Prop} {m : Nat} {requireDeleted : Bool} {uids : List Nat}
  {dst : Str}

theorem Writer.updateEmails {docs : List (Nat × EmailDoc)}
    (hres : n.Resolves account a name mb) (hg : g (a, mb) = some m) (hm : m ≤ (n.kv.account a).modSeq mb)
    (hdocs : ∀ u ∈ docs, (∃ uid, H n a mb uid u.1 ∧ Ω.flag account name uid) ∧ u.2.FlagsOnly m)
    (hok : ∀ t, Evolves n t → Q g (.ok ()) t) : Prog.Safe R G Q g (put (updateEmailsAtomically a docs)) n := by
  intro t ht
  have hK := ω.rely ht
  have hev := ω.evolves hK
  simp only [updateEmailsAtomically]
  split_ifs
  · exact ⟨g, ω.stay g hev.wf, hok t hev⟩
  · obtain ⟨hG, hev'⟩ := ω.step (g := g) hev.wf (hres.grows hev).reg
      (.flags name mb m docs (hres.grows hev).idx hg (hm.trans ((hev.account a).modSeq mb))
        fun u hu => (hdocs u hu).imp_left fun ⟨uid, hh, hf⟩ => ⟨uid, ω.held_keep hK hh, hf⟩)
      (touches_modify a (docs.foldl Account.updateEmail) t.kv)
    exact ⟨g, hG, hok _ (hev.trans hev')⟩

/-- What `copyEach` and `moveEach` do first. -/
theorem Writer.getBlob_bind {α : Type} {b : Str} {k : Str → Op α}
    (hk : ∀ data, Writes R G g n (k data)) : Writes R G g n (getBlob b >>= k) :=
  .bind (Writes.of_safe fun _ _ => ω.getBlob (fun _ _ hu => ⟨rfl, ω.evolves hu⟩) fun _ hu => ⟨rfl, ω.evolves hu⟩) hk

theorem Writer.deliver_bind {α : Type} {msg : Incoming} (hin : Ω.into account dst)
    {k : Nat → Op α} (hk : ∀ uid, Writes R G g n (k uid)) :
    Writes R G g n (Mailstore.deliver cfg account dst msg >>= k) :=
  .bind (Writes.of_safe fun _ _ => ω.deliver hin (fun _ _ hu => ⟨rfl, hu⟩) fun _ hu => ⟨rfl, hu⟩) hk

/-- A message is deleted under the modseq the operation took out, or silently where that is
    allowed. -/
theorem Writer.deleteEmail {id : Nat} (hres : n.Resolves account a name mb)
    (htake : Ω.take account name) (ho : ∃ uid, (n.kv.account a).Owns mb uid id)
    (hm : m ≠ 0 → g (a, mb) = some m) (hq : m = 0 → Ω.hush account name) :
    Writes R G g n (deleteEmail a id mb m requireDeleted) := by
  obtain ⟨uid, ho⟩ := ho
  refine Writes.of_safe fun s hs => Prog.Safe.bind (ω.get fun t ht => ?_)
  have htev := hs.trans (ω.evolves ht)
  have hrows := deletionRows_cases (ho.grows (htev.account a)) m
  simp only
  generalize deletionRows mb m (t.kv.account a).emails[id]? = extra at hrows ⊢
  generalize (if requireDeleted = true then some flagDeleted else none) = require
  intro u hu
  have huev := ω.evolves (ω.rely hu)
  have hev := htev.trans huev
  have hres' := hres.grows hev
  suffices hstep : G g u (u.withKV (deleteEmailAtomically a id require extra u.store.now u.kv).1) g ∧
      Evolves u (u.withKV (deleteEmailAtomically a id require extra u.store.now u.kv).1) from
    ⟨g, hstep.1, rfl, (ω.evolves ht).trans (huev.trans hstep.2)⟩
  rcases deleteEmailAtomically_touches a id require extra u.store.now u.kv with ⟨he, -⟩ | ⟨d, hd, -, htouch⟩
  · rw [he]; exact ⟨ω.stay g huev.wf, Evolves.refl huev.wf⟩
  · rcases hrows with rfl | ⟨rfl, hp⟩
    · refine ω.step huev.wf hres'.reg (.remove name mb uid id d _ htake hres'.idx
        (ho.grows (hev.account a)) hd ?_ ?_) htouch
      · intro m' hm'
        split_ifs at hm' with h0
        obtain rfl := Option.some.inj hm'
        exact hm h0
      · intro hnone
        split_ifs at hnone with h0
        exact hq (not_not.mp h0)
    · exact ω.step huev.wf hres'.reg (.phantom id d (hp.grows (huev.account a)) hd) htouch

/-! ### The operations -/

theorem Writer.setFlags {uid : Nat} {flags : List Str}
    (hf : Ω.flag account mailbox uid) (hQ : ∀ t g' r, Evolves n t → Q g' r t) :
    Prog.Safe R G Q g (setFlags account mailbox uid flags) n := by
  refine Prog.Safe.bind (ω.resolve (fun t₁ a mb h₁ hres => ?_) fun t ht => hQ t _ _ (ω.evolves ht))
  have hev₁ := ω.evolves h₁
  refine Prog.Safe.bind (ω.emailByIndexUID (fun t₂ t₃ e h₂ h₃ hr => ?_)
    fun t ht => hQ t _ _ (hev₁.trans (ω.evolves ht)))
  have hev₂ := ω.evolves h₂
  have hev₃ := hev₂.trans (ω.evolves h₃)
  have hheld := ω.held_keep h₃ (ω.held_row hev₂.wf (hres.grows hev₂).idx hf hr)
  refine Prog.Safe.bind (ω.bump (hres.grows hev₃) (.inl ⟨uid, hf⟩) fun t₄ m hev₄ hbump _ hm => ?_)
  have hev₃₄ := hev₃.trans hev₄
  refine ω.updateEmails (hres.grows hev₃₄) (by simp) hm (fun u hu => ?_)
    fun t ht => hQ t _ _ (hev₁.trans (hev₃₄.trans ht))
  obtain rfl := mem_singleton.mp hu
  exact ⟨⟨uid, hbump uid _ hheld, hf⟩, flagFields_flagsOnly flags m⟩

theorem Writer.setFlagsBatch {updates : List FlagUpdate} (hn : n.Wf)
    (hf : ∀ u ∈ updates, Ω.flag account mailbox u.uid) (hQ : ∀ t g' r, Evolves n t → Q g' r t) :
    Prog.Safe R G Q g (setFlagsBatch account mailbox updates) n := by
  unfold Mailstore.setFlagsBatch
  split_ifs with hnil
  · exact hQ n _ _ (Evolves.refl hn)
  obtain ⟨u₀, hu₀⟩ := exists_mem_of_ne_nil updates hnil
  refine Prog.Safe.bind (ω.resolve (fun t₁ a mb h₁ hres => ?_) fun t ht => hQ t _ _ (ω.evolves ht))
  have hev₁ := ω.evolves h₁
  refine Prog.Safe.bind (ω.get fun t₂ h₂ => ?_)
  have hev₂ := ω.evolves h₂
  have hres₂ := hres.grows hev₂
  refine Prog.Safe.bind (ω.bump hres₂ (.inl ⟨u₀.uid, hf u₀ hu₀⟩) fun t₃ m hev₃ hbump _ hm => ?_)
  have hev₂₃ := hev₂.trans hev₃
  refine ω.updateEmails (hres.grows hev₂₃) (by simp) hm (fun u hu => ?_)
    fun t ht => hQ t _ _ (hev₁.trans (hev₂₃.trans ht))
  obtain ⟨v, hmem, hv⟩ := mem_filterMap.mp hu
  obtain ⟨id, hid, rfl⟩ := Option.map_eq_some_iff.mp hv
  have hheld := ω.held_row hev₂.wf hres₂.idx (hf v hmem) hid
  exact ⟨⟨v.uid, hbump v.uid id hheld, hf v hmem⟩, flagFields_flagsOnly v.flags m⟩

theorem Writer.expungeEach (hres : n.Resolves account a name mb)
    (htake : Ω.take account name) (hm : m ≠ 0)
    (hg : g (a, mb) = some m) : ∀ targets : List Email, (∀ e ∈ targets, Listed (n.kv.account a) mb e) →
    Writes R G g n (expungeEach a mb m requireDeleted targets)
  | [], _ => .done _
  | e :: rest, hl => by
    have hrest := Writer.expungeEach hres htake hm hg rest fun f hf => hl f (by simp [hf])
    have hcounted := hrest.bind fun deleted => .done (.ok (e.uid :: deleted))
    refine (ω.deleteEmail hres htake (hl e (by simp)).owned (fun _ => hg) fun h => absurd h hm).attempt ?_
    rintro ((_ | _ | _) | ⟨⟩)
    · exact hcounted
    · exact .done _
    · exact hrest
    · exact hcounted

/-- The loop of `DeleteMailbox`. -/
theorem Writer.deleteEach (hres : n.Resolves account a name mb)
    (htake : Ω.take account name) (hq : Ω.hush account name)
    {emails : List Email} (hl : ∀ e ∈ emails, Listed (n.kv.account a) mb e) :
    Writes R G g n (Prog.forEach (fun e : Email => Mailstore.deleteEmail a e.docID mb 0 false) emails) :=
  .forEach fun e he => ω.deleteEmail hres htake (hl e he).owned (fun h => absurd rfl h) fun _ => hq

theorem Writer.expungeUIDs
    (htake : Ω.take account mailbox) {Q : Bumped → Except Err (List Nat) → Node → Prop}
    (hQ : ∀ t g' r, Evolves n t → Q g' r t) :
    Prog.Safe R G Q g (expungeUIDs account mailbox uids requireDeleted) n := by
  refine Prog.Safe.bind (ω.resolve (fun t₁ a mb h₁ hres => ?_) fun t ht => hQ t _ _ (ω.evolves ht))
  have hev₁ := ω.evolves h₁
  refine Prog.Safe.bind (ω.mailboxEmails fun t₂ emails h₂ hl => ?_)
  have hev₂ := ω.evolves h₂
  simp only
  split_ifs
  · exact hQ t₂ _ _ (hev₁.trans hev₂)
  refine Prog.Safe.bind (ω.bump (hres.grows hev₂) (.inr htake) fun t₃ m hev₃ _ h0 _ => ?_)
  have hev₂₃ := hev₂.trans hev₃
  refine (ω.expungeEach (hres.grows hev₂₃) htake h0 (by simp) _ fun e he => ?_).safe hev₃.wf
    fun t g' r ht => hQ t g' r (hev₁.trans (hev₂₃.trans ht))
  exact (hl e (mem_of_mem_filter he)).grows (hev₃.account a)

theorem Writer.copyEach (hin : Ω.into account dst) : ∀ targets : List Email,
    Writes R G g n (copyEach cfg account dst targets)
  | [] => .done _
  | _ :: rest => ω.getBlob_bind fun _ => ω.deliver_bind hin fun _ =>
    (Writer.copyEach hin rest).bind fun _ => .done _

theorem Writer.copy (hin : Ω.into account dst)
    {Q : Bumped → Except Err (List (Nat × Nat)) → Node → Prop} (hQ : ∀ t g' r, Evolves n t → Q g' r t) :
    Prog.Safe R G Q g (copy cfg account mailbox dst uids) n := by
  refine Prog.Safe.bind (ω.resolve (fun t₁ a mb h₁ _ => ?_) fun t ht => hQ t _ _ (ω.evolves ht))
  refine Prog.Safe.bind (ω.mailboxEmails fun t₂ emails h₂ _ => ?_)
  have hev := (ω.evolves h₁).trans (ω.evolves h₂)
  exact (ω.copyEach hin _).safe hev.wf fun t g' r ht => hQ t g' r (hev.trans ht)

theorem Writer.moveEach (hres : n.Resolves account a name mb)
    (hin : Ω.into account dst) (htake : Ω.take account name)
    (hg : m ≠ 0 → g (a, mb) = some m) (hq : m = 0 → Ω.hush account name) : ∀ targets : List Email,
    (∀ e ∈ targets, Listed (n.kv.account a) mb e) → Writes R G g n (moveEach cfg account dst a mb m targets)
  | [], _ => .done _
  | e :: rest, hl => ω.getBlob_bind fun _ => ω.deliver_bind hin fun _ =>
    (ω.deleteEmail hres htake (hl e (by simp)).owned hg hq).bind fun _ =>
      (Writer.moveEach hres hin htake hg hq rest fun f hf => hl f (by simp [hf])).bind fun _ => .done _

theorem Writer.move (hin : Ω.into account dst)
    (htake : Ω.take account mailbox) (hq : uids = [] → Ω.hush account mailbox)
    {Q : Bumped → Except Err (List (Nat × Nat)) → Node → Prop} (hQ : ∀ t g' r, Evolves n t → Q g' r t) :
    Prog.Safe R G Q g (move cfg account mailbox dst uids) n := by
  refine Prog.Safe.bind (ω.resolve (fun t₁ a mb h₁ hres => ?_) fun t ht => hQ t _ _ (ω.evolves ht))
  refine Prog.Safe.bind (ω.mailboxEmails fun t₂ emails h₂ hl => ?_)
  have hev₂ := ω.evolves h₂
  have hev₁₂ := (ω.evolves h₁).trans hev₂
  have hres₂ := hres.grows hev₂
  simp only
  split_ifs with hnil
  · exact (ω.moveEach hres₂ hin htake (fun h => absurd rfl h) (fun _ => hq hnil) emails hl).safe hev₂.wf
      fun t g' r ht => hQ t g' r (hev₁₂.trans ht)
  refine Prog.Safe.bind (ω.bump hres₂ (.inr htake) fun t₃ m hev₃ _ h0 _ => ?_)
  refine (ω.moveEach (hres₂.grows hev₃) hin htake (fun _ => by simp) (fun h => absurd h h0) _ fun e he => ?_).safe
    hev₃.wf fun t g' r ht => hQ t g' r (hev₁₂.trans (hev₃.trans ht))
  exact (hl e (mem_of_mem_filter he)).grows (hev₃.account a)

end

/-- A mailbox operation with its arguments. -/
inductive MailOp where
  | deliver (account mailbox : Str) (msg : Incoming)
  | setFlags (account mailbox : Str) (uid : Nat) (flags : List Str)
  | setFlagsBatch (account mailbox : Str) (updates : List FlagUpdate)
  | expunge (account mailbox : Str) (uids : List Nat)
  | deleteUIDs (account mailbox : Str) (uids : List Nat)
  | copy (account src dst : Str) (uids : List Nat)
  | move (account src dst : Str) (uids : List Nat)

/-- Run an operation for its effect. -/
def effect {α : Type} (p : Op α) : Op Unit := p.attempt fun r => .done (r.map fun _ => ())

/-- The program of an operation. -/
def MailOp.prog (cfg : Config) : MailOp → Op Unit
  | .deliver account mailbox msg => effect (Mailstore.deliver cfg account mailbox msg)
  | .setFlags account mailbox uid flags => Mailstore.setFlags account mailbox uid flags
  | .setFlagsBatch account mailbox updates => Mailstore.setFlagsBatch account mailbox updates
  | .expunge account mailbox uids => effect (Mailstore.expunge account mailbox uids)
  | .deleteUIDs account mailbox uids => effect (Mailstore.deleteUIDs account mailbox uids)
  | .copy account src dst uids => effect (Mailstore.copy cfg account src dst uids)
  | .move account src dst uids => effect (Mailstore.move cfg account src dst uids)

/-- The rights cover what the operation may do; only a `Move` with an empty UID list takes messages
    out without a tombstone. -/
def MailOp.Within (Ω : Rights) : MailOp → Prop
  | .deliver account mailbox _ => Ω.into account mailbox
  | .setFlags account mailbox uid _ => Ω.flag account mailbox uid
  | .setFlagsBatch account mailbox updates => ∀ u ∈ updates, Ω.flag account mailbox u.uid
  | .expunge account mailbox _ => Ω.take account mailbox
  | .deleteUIDs account mailbox _ => Ω.take account mailbox
  | .copy account _ dst _ => Ω.into account dst
  | .move account src dst uids =>
    Ω.into account dst ∧ Ω.take account src ∧ (uids = [] → Ω.hush account src)

/-- Every operation is safe for a writer whose rights cover it, from every well-formed node. -/
theorem Writer.mailOp {cfg : Config} {Ω : Rights} {H : Node → Nat → Nat → Nat → Nat → Prop}
    {R K : Node → Node → Prop} {G : Bumped → Node → Node → Bumped → Prop} (ω : Writer cfg Ω H R K G)
    {op : MailOp} (hop : op.Within Ω) (g : Bumped) {n : Node} (hn : n.Wf) :
    Prog.Safe R G (fun _ _ _ => True) g (op.prog cfg) n := by
  cases op with
  | deliver account mailbox msg =>
    exact Prog.Safe.attempt (ω.deliver hop (fun _ _ _ => trivial) fun _ _ => trivial)
  | setFlags account mailbox uid flags => exact ω.setFlags hop fun _ _ _ _ => trivial
  | setFlagsBatch account mailbox updates => exact ω.setFlagsBatch hn hop fun _ _ _ _ => trivial
  | expunge account mailbox uids => exact Prog.Safe.attempt (ω.expungeUIDs hop fun _ _ _ _ => trivial)
  | deleteUIDs account mailbox uids => exact Prog.Safe.attempt (ω.expungeUIDs hop fun _ _ _ _ => trivial)
  | copy account src dst uids => exact Prog.Safe.attempt (ω.copy hop fun _ _ _ _ => trivial)
  | move account src dst uids =>
    obtain ⟨hin, htake, hq⟩ := hop
    exact Prog.Safe.attempt (ω.move hin htake hq fun _ _ _ _ => trivial)

end Mailezine.Mailstore
