import Mailezine.Mailstore.KVMailbox
import Mailezine.Store.Wellformed

/-! What a step of a mailbox operation can do.

    `Change` lists the changes that the transactions of `Deliver`, `SetFlags`, `SetFlagsBatch`,
    `Expunge`, `DeleteUIDs`, `Copy` and `Move` make to an account, with the facts that the operation
    has established by then; `Step` lifts it to the node. The ghost value records which modseq the
    operation itself has taken out for a mailbox: flags and tombstones are only ever written under
    it. Whatever is to be shown of these operations, one by one or interleaved, is shown once for each
    case of `Change`. `Evolves` is what any number of steps of any operations leaves standing. -/

namespace Mailezine.Mailstore
open Gostd Schemes Store

/-! ### Changes of one account -/

/-- The modseq an operation took out for each account and mailbox. -/
abbrev Bumped := Nat × Nat → Option Nat

/-- What an operation may do to messages: `loud` are the names of the mailboxes whose messages never go
    without a tombstone, `writes` says which UIDs of a mailbox may get new flags. -/
structure Scope where
  loud : Str → Prop := fun _ => False
  writes : Str → Nat → Prop := fun _ _ => True

/-- A change of account `a`; `present` are the blobs that are stored. -/
inductive Change (Γ : Scope) (present : Str → Prop) (a : Nat) :
    Bumped → Account → Account → Bumped → Prop where
  | mailbox {g x} (name : Str) (hnew : x.nameIdx[name]? = none) :
      Change Γ present a g x (x.addMailbox name) g
  | bump {g x} (mb : Nat) (hex : (x.mailboxes[mb]?).isSome) :
      Change Γ present a g x (x.bump mb (x.modSeq mb + 1))
        (Function.update g (a, mb) (some (x.modSeq mb + 1)))
  | deliver {g x} (r : DeliverRequest) (b : Str) (hex : (x.mailboxes[r.mailboxID]?).isSome)
      (hb : r.fields.blob = some b) (hp : present b) : Change Γ present a g x (x.delivered r) g
  | flags {g x} (mb m : Nat) (docs : List (Nat × EmailDoc)) (hg : g (a, mb) = some m)
      (hm : m ≤ x.modSeq mb)
      (hdocs : ∀ u ∈ docs, (∃ uid, x.Owns mb uid u.1 ∧ ∃ name : Str, x.nameIdx[name]? = some mb ∧
        Γ.writes name uid) ∧ u.2.FlagsOnly m) :
      Change Γ present a g x (docs.foldl Account.updateEmail x) g
  | remove {g x} (mb uid id : Nat) (d : EmailDoc) (tomb : Option Nat) (ho : x.Owns mb uid id)
      (hd : x.emails[id]? = some d) (hg : ∀ m, tomb = some m → g (a, mb) = some m)
      (hq : tomb = none → ∃ (md : MailboxDoc) (name : Str),
        x.mailboxes[mb]? = some md ∧ md.name = some name ∧ ¬Γ.loud name) :
      Change Γ present a g x (x.delete id d (removal mb uid tomb)) g
  | phantom {g x} (id : Nat) (d : EmailDoc) (hp : x.Phantom id) (hd : x.emails[id]? = some d) :
      Change Γ present a g x (x.delete id d []) g

section Change
variable {Γ : Scope} {present : Str → Prop} {a : Nat} {g g' : Bumped} {x y : Account}

theorem Change.wf (h : Change Γ present a g x y g') (hx : x.Wf) : y.Wf ∧ x.Grows y := by
  cases h with
  | mailbox name hnew => exact ⟨hx.addMailbox hnew, hx.grows_addMailbox hnew⟩
  | bump mb hex =>
    exact ⟨hx.bump (Nat.le_succ _) hex, Account.grows_bump (Nat.le_succ _) hex⟩
  | deliver r b hex hb _ => exact ⟨hx.delivered hex (by simp [hb]), hx.grows_delivered hex⟩
  | flags mb m docs _ hm hdocs =>
    exact hx.updateEmails hm fun u hu => (hdocs u hu).imp_left fun ⟨uid, ho, _⟩ => ⟨uid, ho⟩
  | remove mb uid id d tomb ho _ _ _ => exact ⟨hx.delete ho d tomb, hx.grows_delete mb uid id d tomb⟩
  | phantom id d hp _ => exact hx.deletePhantom hp d

/-- A document after a batch of flag updates: not in the batch and as before, or updated. -/
theorem emails_updateEmails {m : Nat} : ∀ (docs : List (Nat × EmailDoc)) (x : Account),
    (∀ u ∈ docs, u.2.FlagsOnly m) → ∀ (id : Nat) (d : EmailDoc),
    (docs.foldl Account.updateEmail x).emails[id]? = some d → (id ∉ docs.map (·.1) ∧ x.emails[id]? = some d) ∨
    (id ∈ docs.map (·.1) ∧ d.modSeq = some m ∧ d.uid = (x.emails[id]?).bind (·.uid) ∧
      d.blob = (x.emails[id]?).bind (·.blob))
  | [], x, _, id, d, hd => Or.inl ⟨by simp, hd⟩
  | u :: docs, x, hf, id, d, hd => by
    have hu := hf u (by simp)
    have hput : ∀ e : Option EmailDoc, ((e.getD {}).put u.2).uid = e.bind (·.uid) ∧
        ((e.getD {}).put u.2).blob = e.bind (·.blob) := by
      intro e
      rw [hu.put.2.1, hu.put.2.2.1]
      cases e <;> exact ⟨rfl, rfl⟩
    have ih := emails_updateEmails docs (x.updateEmail u) (fun v hv => hf v (by simp [hv])) id d hd
    rw [emails_updateEmail] at ih
    by_cases hid : u.1 = id
    · rw [if_pos hid] at ih
      right
      refine ⟨by simp [hid], ?_⟩
      rcases ih with ⟨-, he⟩ | ⟨-, hm, huid, hblob⟩
      · obtain rfl := Option.some.inj he
        exact ⟨hu.put.2.2.2, hput _⟩
      · rw [Option.bind_some, (hput _).1] at huid
        rw [Option.bind_some, (hput _).2] at hblob
        exact ⟨hm, huid, hblob⟩
    · rw [if_neg hid] at ih
      have hne : ¬id = u.1 := fun e => hid e.symm
      simpa [hne] using ih

theorem emails_updateEmails_other : ∀ (docs : List (Nat × EmailDoc)) (x : Account) (id : Nat),
    id ∉ docs.map (·.1) → (docs.foldl Account.updateEmail x).emails[id]? = x.emails[id]?
  | [], _, _, _ => rfl
  | u :: docs, x, id, h => by
    rw [List.map_cons, List.mem_cons, not_or] at h
    rw [List.foldl_cons, emails_updateEmails_other docs _ id h.2, emails_updateEmail,
      if_neg fun e => h.1 e.symm]

theorem emailIdx_updateEmails : ∀ (docs : List (Nat × EmailDoc)) (x : Account),
    (docs.foldl Account.updateEmail x).emailIdx = x.emailIdx
  | [], _ => rfl
  | u :: docs, x => emailIdx_updateEmails docs (x.updateEmail u)

/-- The blobs that documents name stay within those that are stored. -/
theorem Change.blob (h : Change Γ present a g x y g') (hx : x.Wf)
    (hp : ∀ (id : Nat) (d : EmailDoc) (b : Str), x.emails[id]? = some d → d.blob = some b → present b)
    (id : Nat) (d : EmailDoc) (b : Str) (hd : y.emails[id]? = some d) (hb : d.blob = some b) : present b := by
  cases h with
  | mailbox name hnew => exact hp id d b hd hb
  | bump mb hex => exact hp id d b hd hb
  | deliver r b' hex hb' hpr =>
    rw [hx.emails_delivered] at hd
    split_ifs at hd with hid
    · obtain rfl := Option.some.inj hd
      have : b' = b := Option.mem_unique hb' hb
      exact this ▸ hpr
    · exact hp id d b hd hb
  | flags mb m docs _ _ hdocs =>
    rcases emails_updateEmails docs x (fun u hu => (hdocs u hu).2) id d hd with
      ⟨-, hd'⟩ | ⟨-, -, -, hb'⟩
    · exact hp id d b hd' hb
    · rw [hb] at hb'
      obtain ⟨d', hd', hdb⟩ := Option.bind_eq_some_iff.mp hb'.symm
      exact hp id d' b hd' hdb
  | remove mb uid id' d' tomb _ _ _ _ =>
    rw [emails_delete] at hd
    split_ifs at hd
    exact hp id d b hd hb
  | phantom id' d' _ _ =>
    have hem : (x.delete id' d' []).emails = x.emails.erase id' := rfl
    rw [hem, getElem?_erase_row] at hd
    split_ifs at hd
    exact hp id d b hd hb

end Change

/-! ### Steps of a node -/

/-- Only account `a` changed, to `y`, but for blob links and GC claims. -/
structure Touches (a : Nat) (y : Account) (kv kv' : KV) : Prop where
  registry : kv'.registry = kv.registry
  account : ∀ c, ∃ links, kv'.account c = (if a = c then y else kv.account c).withLinks links

theorem touches_modify (a : Nat) (f : Account → Account) (kv : KV) :
    Touches a (f (kv.account a)) kv (kv.modify a f) := by
  refine ⟨rfl, fun c => ?_⟩
  rw [KV.account_modify]
  split_ifs with h
  · subst h; exact ⟨_, rfl⟩
  · exact ⟨_, rfl⟩

theorem Touches.links {a : Nat} {y : Account} {kv kv' kv'' : KV} (h : Touches a y kv kv')
    (hr : kv''.registry = kv'.registry)
    (hl : ∀ c, ∃ links, kv''.account c = (kv'.account c).withLinks links) : Touches a y kv kv'' := by
  refine ⟨hr.trans h.registry, fun c => ?_⟩
  obtain ⟨l, hl⟩ := hl c
  obtain ⟨l', hl'⟩ := h.account c
  exact ⟨l, by rw [hl, hl']; rfl⟩

theorem withLinks_stageBlobLink (a : Nat) (blob : Str) (kv : KV) (c : Nat) :
    ∃ links, (stageBlobLink a blob kv).account c = (kv.account c).withLinks links := by
  rw [account_stageBlobLink]
  split_ifs
  · exact ⟨_, rfl⟩
  · exact ⟨_, rfl⟩

theorem withLinks_unlinkBlob (a : Nat) (blob : Str) (now : Nat) (kv : KV) (c : Nat) :
    ∃ links, (unlinkBlob a blob now kv).account c = (kv.account c).withLinks links := by
  rw [account_unlinkBlob]
  split_ifs
  · exact Account.unlink_eq _ blob
  · exact ⟨_, rfl⟩

theorem touches_deliverOne (a : Nat) (r : DeliverRequest) (kv : KV) :
    Touches a ((kv.account a).delivered r) kv (deliverOne a r kv).1 :=
  (touches_modify a (·.deliver r ((kv.account a).nextIDs r.mailboxID)) kv).links
    (registry_stageBlobLink a r.blobID _) (withLinks_stageBlobLink a r.blobID _)

/-- A delete does nothing and says why, or deletes the document with its index rows. -/
theorem deleteEmailAtomically_touches (a docID : Nat) (require : Option Str)
    (extra : List IndexOp) (now : Nat) (kv : KV) :
    ((deleteEmailAtomically a docID require extra now kv).1 = kv ∧ ((kv.account a).emails[docID]? = none ∧
        (deleteEmailAtomically a docID require extra now kv).2 = .error .notFound ∨
       (deleteEmailAtomically a docID require extra now kv).2 = .error .notMarkedDeleted)) ∨
    ∃ d : EmailDoc, (kv.account a).emails[docID]? = some d ∧
      (deleteEmailAtomically a docID require extra now kv).2 = .ok () ∧
      Touches a ((kv.account a).delete docID d extra) kv
        (deleteEmailAtomically a docID require extra now kv).1 := by
  unfold deleteEmailAtomically
  cases hd : (kv.account a).emails[docID]? with
  | none => exact Or.inl ⟨rfl, Or.inl ⟨rfl, rfl⟩⟩
  | some d =>
    simp only
    split_ifs with hreq hblob
    · exact Or.inl ⟨rfl, Or.inr rfl⟩
    · exact Or.inr ⟨d, rfl, rfl, touches_modify a (·.delete docID d extra) kv⟩
    · exact Or.inr ⟨d, rfl, rfl, (touches_modify a (·.delete docID d extra) kv).links
        (registry_unlinkBlob a _ now _) (withLinks_unlinkBlob a _ now _)⟩

/-- The invariant of a node: every account is well-formed, the blobs of its documents are stored, and
    the ID cache says what the registry and the name index say. -/
structure Node.Wf (n : Node) : Prop where
  account : ∀ a, (n.kv.account a).Wf
  blob : ∀ (a id : Nat) (d : EmailDoc) (b : Str), (n.kv.account a).emails[id]? = some d →
    d.blob = some b → b ∈ n.store.blobs
  ids_account : ∀ (email : Str) (e : Nat × Nat), n.ids.account email = some e →
    n.kv.registry[email]? = some e.1
  ids_mailbox : ∀ (a : Nat) (name : Str) (e : Nat × Nat), n.ids.mailbox a name = some e →
    (n.kv.account a).nameIdx[name]? = some e.1

/-- What any number of steps leaves standing. -/
structure Evolves (n n' : Node) : Prop where
  wf : n'.Wf
  account : ∀ a, (n.kv.account a).Grows (n'.kv.account a)
  registry : ∀ (email : Str) (a : Nat), n.kv.registry[email]? = some a →
    n'.kv.registry[email]? = some a
  blob : ∀ b data : Str, n.store.blobs[b]? = some data → n'.store.blobs[b]? = some data

theorem Evolves.refl {n : Node} (h : n.Wf) : Evolves n n :=
  ⟨h, fun _ => Account.Grows.refl _, fun _ _ h => h, fun _ _ h => h⟩

theorem Evolves.trans {n₁ n₂ n₃ : Node} (h : Evolves n₁ n₂) (h' : Evolves n₂ n₃) : Evolves n₁ n₃ :=
  ⟨h'.wf, fun a => (h.account a).trans (h'.account a),
    fun email a ha => h'.registry email a (h.registry email a ha),
    fun b data hb => h'.blob b data (h.blob b data hb)⟩

theorem Node.Wf.setClock {n : Node} (h : n.Wf) (now : Nat) : (n.setClock now).Wf :=
  ⟨h.account, h.blob, h.ids_account, h.ids_mailbox⟩

theorem Evolves.setClock {n : Node} (h : n.Wf) (now : Nat) : Evolves n (n.setClock now) :=
  ⟨h.setClock now, (Evolves.refl h).account, (Evolves.refl h).registry, (Evolves.refl h).blob⟩

theorem wf_empty : ({} : Node).Wf := by
  have hacct : ∀ a, ({} : Node).kv.account a = {} := fun a => by simp [KV.account]
  have hempty : ({} : Account).Wf := by
    constructor <;> simp [Account.row, Account.tomb]
  constructor
  · intro a
    rw [hacct]; exact hempty
  · intro a id d b hd
    rw [hacct] at hd
    cases hd
  · intro email e he
    cases he
  · intro a name e he
    cases he

/-- A step that no account shows: caches and blobs, a new registry row, an index row that is written
    as it was. -/
structure Quiet (n n' : Node) : Prop where
  account : ∀ c, n'.kv.account c = n.kv.account c
  registry : ∀ (email : Str) (a : Nat), n.kv.registry[email]? = some a →
    n'.kv.registry[email]? = some a
  blob : ∀ b data : Str, n.store.blobs[b]? = some data → n'.store.blobs[b]? = some data
  ids_account : ∀ (email : Str) (e : Nat × Nat), n'.ids.account email = some e →
    n.ids.account email = some e ∨ n'.kv.registry[email]? = some e.1
  ids_mailbox : ∀ (a : Nat) (name : Str) (e : Nat × Nat), n'.ids.mailbox a name = some e →
    n.ids.mailbox a name = some e ∨ (n'.kv.account a).nameIdx[name]? = some e.1

theorem Quiet.refl (n : Node) : Quiet n n :=
  ⟨fun _ => rfl, fun _ _ h => h, fun _ _ h => h, fun _ _ h => Or.inl h, fun _ _ _ h => Or.inl h⟩

theorem Quiet.evolves {n n' : Node} (h : Quiet n n') (hn : n.Wf) : Evolves n n' := by
  refine ⟨⟨fun a => ?_, fun a id d b hd hb => ?_, fun email e he => ?_, fun a name e he => ?_⟩,
    fun a => ?_, h.registry, h.blob⟩
  · rw [h.account]; exact hn.account a
  · rw [h.account] at hd
    obtain ⟨v, hv⟩ := Option.isSome_iff_exists.mp
      (Std.ExtTreeMap.mem_iff_isSome_getElem?.mp (hn.blob a id d b hd hb))
    exact Std.ExtTreeMap.mem_iff_isSome_getElem?.mpr (by rw [h.blob b v hv]; rfl)
  · rcases h.ids_account email e he with he | he
    · exact h.registry email e.1 (hn.ids_account email e he)
    · exact he
  · rcases h.ids_mailbox a name e he with he | he
    · rw [h.account]; exact hn.ids_mailbox a name e he
    · exact he
  · rw [h.account]; exact Account.Grows.refl _

/-- A change of one account that keeps what an account keeps. -/
theorem Touches.evolves {n : Node} {a : Nat} {y : Account} {kv' : KV} (ht : Touches a y n.kv kv')
    (hn : n.Wf) (hy : y.Wf) (hg : (n.kv.account a).Grows y)
    (hb : ∀ (id : Nat) (d : EmailDoc) (b : Str), y.emails[id]? = some d → d.blob = some b →
      b ∈ n.store.blobs) : Evolves n (n.withKV kv') := by
  have hgrow : ∀ c, (n.kv.account c).Grows (kv'.account c) := by
    intro c
    obtain ⟨l, hl⟩ := ht.account c
    rw [hl]
    split_ifs with hc'
    · subst hc'; exact hg.trans (Account.grows_withLinks y l)
    · exact Account.grows_withLinks _ l
  refine ⟨⟨?_, ?_, ?_, ?_⟩, hgrow, ?_, fun _ _ h => h⟩
  · intro c
    obtain ⟨l, hl⟩ := ht.account c
    change (kv'.account c).Wf
    rw [hl]
    split_ifs
    · exact hy.withLinks l
    · exact (hn.account c).withLinks l
  · intro c id d b hd hdb
    obtain ⟨l, hl⟩ := ht.account c
    change (kv'.account c).emails[id]? = some d at hd
    rw [hl, Account.withLinks_emails] at hd
    split_ifs at hd
    · exact hb id d b hd hdb
    · exact hn.blob c id d b hd hdb
  · intro email e he
    change kv'.registry[email]? = some e.1
    rw [ht.registry]; exact hn.ids_account email e he
  · intro c name e he
    exact (hgrow c).name name e.1 (hn.ids_mailbox c name e he)
  · intro email c hc'
    change kv'.registry[email]? = some c
    rw [ht.registry]; exact hc'

/-- One step of a mailbox operation: quiet, or a change of one account. -/
inductive Step (Γ : Scope) : Bumped → Node → Node → Bumped → Prop where
  | quiet {g : Bumped} {n n' : Node} (h : Quiet n n') : Step Γ g n n' g
  | change {g g' : Bumped} {n : Node} (a : Nat) (y : Account) (kv' : KV)
      (ht : Touches a y n.kv kv')
      (hc : Change Γ (· ∈ n.store.blobs) a g (n.kv.account a) y g') :
      Step Γ g n (n.withKV kv') g'

theorem Step.evolves {Γ : Scope} {g g' : Bumped} {n n' : Node} (h : Step Γ g n n' g')
    (hn : n.Wf) : Evolves n n' := by
  cases h with
  | quiet h => exact h.evolves hn
  | change a y kv' ht hc =>
    obtain ⟨hy, hg⟩ := hc.wf (hn.account a)
    exact ht.evolves hn hy hg (hc.blob (hn.account a) (hn.blob a))

end Mailezine.Mailstore
