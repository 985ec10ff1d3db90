import Mailezine.Mailstore.Sequential
import Mailezine.Store.Tidy

/-! The mailbox operations keep accounts tidy.

    The operations on messages do so with every step, as long as no one takes messages out of a mailbox
    while their flags are being written. Creating, deleting and renaming a mailbox pass through states
    that are not even well-formed; they are shown to end in a tidy node when nothing but the clock
    moves in between. -/

namespace Mailezine.Mailstore
open Gostd Schemes Store

/-- Every account of the node is tidy. -/
structure Node.Tidy (n : Node) : Prop extends Node.Wf n where
  tidy : ∀ a, (n.kv.account a).Tidy

/-- The store evolves, and the messages of the mailboxes with these names stay. -/
structure Spares (S : Str → Prop) (n n' : Node) : Prop where
  evolves : Evolves n n'
  row : ∀ (a mb uid id : Nat) (name : Str), S name → (n.kv.account a).nameIdx[name]? = some mb →
    (n.kv.account a).row mb uid = some id → (n'.kv.account a).row mb uid = some id

/-- A step that spares the mailboxes with these names and keeps accounts tidy. -/
structure Upkeep (S : Str → Prop) (n n' : Node) : Prop extends Spares S n n' where
  tidy : n.Tidy → n'.Tidy

section
variable {S F T : Str → Prop} {n n' n'' : Node} {a : Nat} {y : Account} {kv' : KV}

theorem Spares.trans (h : Spares S n n') (h' : Spares S n' n'') : Spares S n n'' := by
  refine ⟨h.evolves.trans h'.evolves, fun a mb uid id name hs hidx hr => ?_⟩
  exact h'.row a mb uid id name hs ((h.evolves.account a).name name mb hidx)
    (h.row a mb uid id name hs hidx hr)

theorem Spares.mono (h : Spares S n n') (hsub : ∀ name, T name → S name) : Spares T n n' :=
  ⟨h.evolves, fun a mb uid id name ht => h.row a mb uid id name (hsub name ht)⟩

theorem Spares.of_accounts (hev : Evolves n n') (h : ∀ c, n'.kv.account c = n.kv.account c) : Spares S n n' :=
  ⟨hev, fun a mb uid id name _ _ hr => by rw [h]; exact hr⟩

theorem Spares.refl (h : n.Wf) : Spares S n n := .of_accounts (Evolves.refl h) fun _ => rfl

theorem Node.Tidy.of_accounts (h : n.Tidy) (hev : Evolves n n')
    (heq : ∀ c, n'.kv.account c = n.kv.account c) : n'.Tidy :=
  ⟨hev.wf, fun c => by rw [heq]; exact h.tidy c⟩

theorem tidy_node_empty : ({} : Node).Tidy := by
  refine ⟨wf_empty, fun a => ?_⟩
  have hacct : ({} : Node).kv.account a = {} := by simp [KV.account]
  rw [hacct]; exact tidy_empty

theorem Quiet.upkeep (h : Quiet n n') (hn : n.Wf) : Upkeep S n n' where
  toSpares := .of_accounts (h.evolves hn) h.account
  tidy ht := ht.of_accounts (h.evolves hn) h.account

/-- A change of account `a` alone. -/
theorem Upkeep.of_touches (ht : Touches a y n.kv kv') (hev : Evolves n (n.withKV kv'))
    (hrow : ∀ (mb uid id : Nat) (name : Str), S name → (n.kv.account a).nameIdx[name]? = some mb →
      (n.kv.account a).row mb uid = some id → y.row mb uid = some id)
    (hy : (n.kv.account a).Tidy → y.Tidy) : Upkeep S n (n.withKV kv') := by
  refine ⟨⟨hev, fun c mb uid id name hs hidx hr => ?_⟩, fun htidy => ⟨hev.wf, fun c => ?_⟩⟩
  · obtain ⟨l, hl⟩ := ht.account c
    rw [Node.kv_withKV, hl]
    change (if a = c then y else n.kv.account c).row mb uid = some id
    split_ifs with hc
    · subst hc
      exact hrow mb uid id name hs hidx hr
    · exact hr
  · obtain ⟨l, hl⟩ := ht.account c
    rw [Node.kv_withKV, hl]
    split_ifs
    · exact (hy (htidy.tidy a)).withLinks l
    · exact (htidy.tidy c).withLinks l

/-! ### Operations on messages -/

/-- What an operation may do that writes flags in the mailboxes `F` and takes messages out of `T`. -/
def rightsOn (F T : Str → Prop) : Rights where
  flag _ name _ := F name
  take _ name := T name

/-- The document of a UID, in a mailbox whose messages stay. -/
def StillThere (F : Str → Prop) (n : Node) (a mb uid id : Nat) : Prop :=
  (n.kv.account a).row mb uid = some id ∧ ∃ name, F name ∧ (n.kv.account a).nameIdx[name]? = some mb

theorem Write.upkeep {cfg : Config} {account : Str} {g g' : Bumped} (hn : n.Wf)
    (h : Write cfg (rightsOn F T) (StillThere F n a) account a n g y g') (ht : Touches a y n.kv kv') :
    Upkeep (fun name => ¬T name) n (n.withKV kv') := by
  have hev := h.evolves hn (fun _ _ _ hs => (hn.account a).owns hs.1) ht
  cases h with
  | create name _ hnew =>
    exact .of_touches ht hev (fun _ _ _ _ _ _ hr => hr) fun hx => hx.addMailbox hnew
  | bump name mb _ hidx =>
    exact .of_touches ht hev (fun _ _ _ _ _ _ hr => hr) fun hx =>
      hx.bump (Nat.le_succ _) (hn.mailbox_isSome hidx)
  | deliver name mb msg now _ hidx _ =>
    obtain ⟨md, hmd, hname⟩ := (hn.account a).name_mailbox name mb hidx
    refine .of_touches ht hev (fun mb' uid id _ _ _ hr => ?_) fun hx => hx.delivered hmd rfl hname.symm
    rw [row_delivered, if_neg]
    · exact hr
    · rintro ⟨rfl, rfl⟩
      have := (hn.account a).row_uid _ _ _ hr
      omega
  | flags name mb m docs hidx _ hm hdocs =>
    refine .of_touches ht hev (fun mb' uid id _ _ _ hr => ?_) fun hx => hx.updateEmails docs hm fun u hu => ?_
    · unfold Account.row
      rw [emailIdx_updateEmails]; exact hr
    · obtain ⟨⟨uid, hs, -⟩, hf⟩ := hdocs u hu
      exact ⟨⟨uid, hs.1⟩, hf⟩
  | remove name mb uid id d tomb htake hidx ho hd _ _ =>
    refine .of_touches ht hev (fun mb' uid' id' name' hs hidx' hr => ?_) fun hx => hx.delete ho hd tomb
    rw [row_delete, if_neg]
    · exact hr
    · rintro ⟨rfl, -⟩
      obtain ⟨md, hmd, hname⟩ := (hn.account a).name_mailbox name mb hidx
      obtain ⟨md', hmd', hname'⟩ := (hn.account a).name_mailbox name' mb hidx'
      obtain rfl := Option.mem_unique hmd hmd'
      obtain rfl := Option.mem_unique hname hname'
      exact hs htake
  | phantom id d hp hd =>
    exact .of_touches ht hev (fun _ _ _ _ _ _ hr => hr) fun hx => absurd hp (hx.no_phantom hd)

/-- The regime of an operation that relies on the messages whose flags it writes. -/
theorem upkeeper (cfg : Config) (F T : Str → Prop) : Writer cfg (rightsOn F T) (StillThere F)
    (Spares F) (Spares F) fun _ n n' _ => Upkeep (fun name => ¬T name) n n' where
  trans := Spares.trans
  evolves h := h.evolves
  rely := id
  quiet hn hq := .of_accounts (hq.evolves hn) hq.account
  guar _ hn hq := hq.upkeep hn
  held_row {_ _ name _ _ _ _} _ hidx hf hr := ⟨hr, name, hf, hidx⟩
  held_owns hn hs := (hn.account _).owns hs.1
  held_keep {_ _ a mb uid id} h hs := by
    obtain ⟨hr, name, hf, hidx⟩ := hs
    exact ⟨h.row a mb uid id name hf hidx hr, name, hf, (h.evolves.account a).name name mb hidx⟩
  held_bump {n a mb uid id} _ hev hs := by
    obtain ⟨hr, name, hf, hidx⟩ := hs
    refine ⟨?_, name, hf, (hev.account a).name name mb hidx⟩
    rw [Node.kv_withKV, bumpMailboxModSeq, KV.account_modify, if_pos rfl]
    exact hr
  write hn _ hw ht := hw.upkeep hn ht

/-- The mailbox in which an operation writes flags. -/
def MailOp.flagged : MailOp → Option Str
  | .setFlags _ mailbox _ _ => some mailbox
  | .setFlagsBatch _ mailbox _ => some mailbox
  | _ => none

/-- The mailbox that an operation takes messages out of. -/
def MailOp.drained : MailOp → Option Str
  | .expunge _ mailbox _ => some mailbox
  | .deleteUIDs _ mailbox _ => some mailbox
  | .move _ src _ _ => some src
  | _ => none

theorem MailOp.within_rightsOn (op : MailOp) :
    op.Within (rightsOn (op.flagged = some ·) (op.drained = some ·)) := by
  cases op with
  | deliver | copy => trivial
  | setFlags | expunge | deleteUIDs => exact rfl
  | setFlagsBatch account mailbox updates => exact fun _ _ => rfl
  | move account src dst uids => exact ⟨trivial, rfl, fun _ => trivial⟩

/-- Every operation on messages keeps accounts tidy, while others spare what it writes flags to. -/
theorem upkeep_mailOp (cfg : Config) (op : MailOp) (g : Bumped) (hn : n.Wf) :
    Prog.Safe (Spares (op.flagged = some ·)) (fun _ n n' _ => Upkeep (fun name => ¬op.drained = some name) n n')
      (fun _ _ _ => True) g (op.prog cfg) n :=
  (upkeeper cfg _ _).mailOp op.within_rightsOn g hn

/-! ### Listing mailboxes -/

section provision
variable {cfg : Config} {g : Bumped} {mb : Nat} {name account : Str}

theorem Touches.upkeep_putMailbox {f : MailboxDoc} (hn : n.Wf)
    (hidx : (n.kv.account a).nameIdx[name]? = some mb) (hname : f.name = none) (hseq : f.modSeq = none)
    (ht : Touches a ((n.kv.account a).putMailbox mb f) n.kv kv') : Upkeep S n (n.withKV kv') := by
  obtain ⟨md, hmd, -⟩ := (hn.account a).name_mailbox name mb hidx
  have hm : ∀ m, f.modSeq = some m → (n.kv.account a).modSeq mb ≤ m := fun m h => by simp [hseq] at h
  have hev : Evolves n (n.withKV kv') := ht.evolves hn ((hn.account a).putMailbox hmd hname hm)
    (Account.grows_putMailbox hmd hname hm) (hn.blob a)
  exact .of_touches ht hev (fun _ _ _ _ _ _ hr => hr) fun hx => hx.putMailbox hmd hname hm

/-- The two writes of `EnsureDefaultMailboxes` meet the guarantee: a mailbox is created where there is none
    of its name, and subscribed after it was read unsubscribed. -/
structure Founds {γ : Type} (R : Node → Node → Prop) (G : γ → Node → Node → γ → Prop) (g : γ) (account : Str)
    (names : List Str) : Prop where
  create : ∀ {t : Node} {a : Nat} {name : Str}, t.Wf → t.kv.registry[account]? = some a → name ∈ names →
    (t.kv.account a).nameIdx[name]? = none → G g t (t.withKV (t.kv.modify a (·.addMailbox name))) g
  subscribe : ∀ {t u : Node} {a mb : Nat} {name : Str} {md : MailboxDoc}, t.Wf →
    t.kv.registry[account]? = some a → name ∈ names → (t.kv.account a).nameIdx[name]? = some mb →
    (t.kv.account a).mailboxes[mb]? = some md → md.subscribed.getD false = false → R t u →
    G g u (u.withKV (putMailboxFields a mb { subscribed := some true } u.kv)) g

section
variable {γ : Type} {R K : Node → Node → Prop} {G : γ → Node → Node → γ → Prop} {g : γ}

theorem evolves_subscribe (hn : n.Wf) (hidx : (n.kv.account a).nameIdx[name]? = some mb) (b : Bool) :
    Evolves n (n.withKV (putMailboxFields a mb { subscribed := some b } n.kv)) :=
  ((touches_modify a (·.putMailbox mb { subscribed := some b }) n.kv).upkeep_putMailbox (S := fun _ => False)
    hn hidx rfl rfl).evolves

theorem Regime.ensureDefaults (ρ : Regime R K G) : ∀ (names : List Str) (n : Node)
    {Q : γ → Except Err Unit → Node → Prop}, n.Wf → n.kv.registry[account]? = some a →
    Founds R G g account names → (∀ t r, Evolves n t → Q g r t) → Prog.Safe R G Q g (ensureDefaults a names) n
  | [], n, _, hn, _, _, hQ => hQ n _ (Evolves.refl hn)
  | name :: rest, n, Q, _, hreg, hfound, hQ => by
    refine Prog.Safe.bind (ρ.ensureMailbox (fun t ht => hfound.create ht.wf (ht.registry account a hreg)
      (by simp)) fun t₁ _ h₁ hidx => ?_)
    refine Prog.Safe.bind (ρ.mailboxDocID (fun t₂ mb h₂ hidx₂ => ?_)
      fun t ht => hQ t _ (h₁.trans (ρ.evolves ht)))
    have h₁₂ := h₁.trans (ρ.evolves h₂)
    refine Prog.Safe.bind (ρ.mailboxFields (fun t₃ md h₃ hmd => ?_)
      fun t ht _ => hQ t _ (h₁₂.trans (ρ.evolves ht)))
    have h₁₃ := h₁₂.trans (ρ.evolves h₃)
    have hreg₃ := h₁₃.registry account a hreg
    have hidx₃ := ((ρ.evolves h₃).account a).name name mb hidx₂
    have hfound' : Founds R G g account rest :=
      ⟨fun ht hr hmem => hfound.create ht hr (by simp [hmem]),
        fun ht hr hmem => hfound.subscribe ht hr (by simp [hmem])⟩
    have hrest : ∀ u, Evolves t₃ u → Prog.Safe R G Q g (Mailstore.ensureDefaults a rest) u := fun u hu =>
      Regime.ensureDefaults ρ rest u hu.wf (hu.registry account a hreg₃) hfound'
        fun v r hv => hQ v r (h₁₃.trans (hu.trans hv))
    simp only
    split_ifs with hsub
    · exact hrest t₃ (Evolves.refl h₁₃.wf)
    · refine Prog.Safe.bind fun t₄ h₄ => ?_
      have h₃₄ := ρ.evolves (ρ.rely h₄)
      have hev := evolves_subscribe h₃₄.wf ((h₃₄.account a).name name mb hidx₃) true
      exact ⟨g, hfound.subscribe h₁₃.wf hreg₃ (by simp) hidx₃ hmd (Bool.eq_false_iff.mpr hsub) h₄,
        hrest _ (h₃₄.trans hev)⟩

theorem Regime.readEntries (ρ : Regime R K G) : ∀ (ids : List Nat) (n : Node)
    {Q : γ → Except Err (List MailboxEntry) → Node → Prop}, n.Wf → (∀ t r, K n t → Q g r t) →
    Prog.Safe R G Q g (readEntries a ids) n
  | [], n, _, hn, hQ => hQ n _ (ρ.refl hn)
  | id :: ids, n, Q, hn, hQ => by
    refine Prog.Safe.bind (ρ.mailboxFields (fun t₁ md h₁ _ => ?_) fun t ht _ => hQ t _ ht)
    refine Prog.Safe.bind (ρ.get fun t₂ h₂ => ?_)
    have h₁₂ := ρ.trans h₁ h₂
    refine Prog.Safe.bind (Regime.readEntries ρ ids t₂ (ρ.evolves h₂).wf fun t r ht => ?_)
    cases r <;> exact hQ t _ (ρ.trans h₁₂ ht)

theorem Regime.ensureDefaultMailboxes (ρ : Regime R K G) (cfg : Config)
    (hfound : Founds R G g account cfg.defaultMailboxes) {Q : γ → Except Err Unit → Node → Prop}
    (hQ : ∀ t r, Evolves n t → Q g r t) : Prog.Safe R G Q g (ensureDefaultMailboxes cfg account) n := by
  refine Prog.Safe.bind (ρ.ensureAccount (fun t a ht hreg => ?_) fun t ht => hQ t _ (ρ.evolves ht))
  have hev := ρ.evolves ht
  exact ρ.ensureDefaults _ t hev.wf hreg hfound fun u r hu => hQ u r (hev.trans hu)

/-- Listing the mailboxes of an address founds INBOX and the default mailboxes. -/
theorem Regime.listMailboxes (ρ : Regime R K G) (cfg : Config)
    (hinbox : ∀ {t : Node} {a : Nat}, t.Wf → t.kv.registry[account]? = some a →
      (t.kv.account a).nameIdx[inbox]? = none → G g t (t.withKV (t.kv.modify a (·.addMailbox inbox))) g)
    (hfound : Founds R G g account cfg.defaultMailboxes) :
    Prog.Safe R G (fun _ _ _ => True) g (listMailboxes cfg account) n := by
  refine Prog.Safe.bind (ρ.ensureAccount (fun t₁ a h₁ hreg => ?_) fun _ _ => trivial)
  refine Prog.Safe.bind (ρ.ensureMailbox (fun t ht => hinbox ht.wf (ht.registry account a hreg))
    fun t₂ _ h₂ _ => ?_)
  refine Prog.Safe.bind (ρ.ensureDefaultMailboxes cfg hfound fun t₄ r h₄ => ?_)
  cases r with
  | error e => trivial
  | ok =>
    refine Prog.Safe.bind (ρ.get fun t₅ h₅ => ?_)
    refine Prog.Safe.bind (ρ.readEntries _ t₅ (ρ.evolves h₅).wf fun t₆ r h₆ => ?_)
    cases r with
    | error e => trivial
    | ok => exact Prog.Safe.bind (ρ.get fun _ _ => trivial)

end

theorem upkeep_addMailbox (hn : n.Wf) (hidx : (n.kv.account a).nameIdx[name]? = none) :
    Upkeep S n (n.withKV (n.kv.modify a (·.addMailbox name))) := by
  have htouch := touches_modify a (·.addMailbox name) n.kv
  have hev := htouch.evolves hn ((hn.account a).addMailbox hidx) ((hn.account a).grows_addMailbox hidx) (hn.blob a)
  exact .of_touches htouch hev (fun _ _ _ _ _ _ hr => hr) fun hx => hx.addMailbox hidx

/-- Founding mailboxes keeps accounts tidy. -/
theorem upkeep_founds (account : Str) (names : List Str) :
    Founds (Spares F) (fun (_ : Bumped) n n' _ => Upkeep S n n') g account names where
  create ht _ _ hidx := upkeep_addMailbox ht hidx
  subscribe {_ u a mb name _} _ _ _ hidx _ _ hu :=
    (touches_modify a (·.putMailbox mb { subscribed := some true }) u.kv).upkeep_putMailbox hu.evolves.wf
      ((hu.evolves.account a).name name mb hidx) rfl rfl

/-- Listing the mailboxes of an address keeps accounts tidy. -/
theorem upkeep_listMailboxes (cfg : Config) (account : Str) :
    Prog.Safe (Spares F) (fun _ n n' _ => Upkeep (fun name => ¬T name) n n') (fun _ _ _ => True) g
      (listMailboxes cfg account) n :=
  (upkeeper Config.plain F T).toRegime.listMailboxes cfg (fun ht _ => upkeep_addMailbox ht) (upkeep_founds account _)

end provision

end

/-! ### Running while only the clock moves -/

/-- A row that is new has a UID that the mailbox's counter passed over. -/
structure Issues (n n' : Node) : Prop where
  lastUID : ∀ a mb, (n.kv.account a).lastUID mb ≤ (n'.kv.account a).lastUID mb
  row : ∀ a mb uid id : Nat, (n'.kv.account a).row mb uid = some id →
    (n.kv.account a).row mb uid = none →
    (n.kv.account a).lastUID mb < uid ∧ uid ≤ (n'.kv.account a).lastUID mb

theorem Evolves.issues {n n' : Node} (h : Evolves n n') : Issues n n' := by
  refine ⟨fun a => (h.account a).lastUID, fun a mb uid id hr hnone => ⟨?_, (h.wf.account a).row_uid mb uid id hr⟩⟩
  rcases (h.account a).row mb uid id hr with hx | ⟨hlt, -⟩
  · rw [hnone] at hx
    cases hx
  · exact hlt

/-- A write that leaves counters and rows alone. -/
theorem Issues.of_modify {n : Node} {a : Nat} {f : Account → Account}
    (hU : (f (n.kv.account a)).lastUID = (n.kv.account a).lastUID)
    (hR : (f (n.kv.account a)).emailIdx = (n.kv.account a).emailIdx) :
    Issues n (n.withKV (n.kv.modify a f)) := by
  have hacct : ∀ c, ((n.withKV (n.kv.modify a f)).kv.account c).lastUID = (n.kv.account c).lastUID ∧
      ∀ mb uid, ((n.withKV (n.kv.modify a f)).kv.account c).row mb uid = (n.kv.account c).row mb uid := by
    intro c
    rw [Node.kv_withKV, KV.account_modify]
    split_ifs with hc
    · subst hc
      refine ⟨hU, fun mb uid => ?_⟩
      unfold Account.row
      rw [hR]
    · exact ⟨rfl, fun _ _ => rfl⟩
  refine ⟨fun c mb => le_of_eq (congrFun (hacct c).1.symm mb), fun c mb uid id hr hnone => ?_⟩
  rw [(hacct c).2, hnone] at hr
  cases hr

theorem Issues.of_kv {n n' : Node} (h : n'.kv = n.kv) : Issues n n' := by
  refine ⟨fun a mb => by rw [h], fun a mb uid id hr hnone => ?_⟩
  rw [h, hnone] at hr
  cases hr

/-- Nothing but the clock moved. -/
def Idle (n t : Node) : Prop := ∃ now, t = n.setClock now

/-- Every account is as it was. -/
structure Unmoved (n t : Node) : Prop where
  evolves : Evolves n t
  account : ∀ c, t.kv.account c = n.kv.account c

section idle
variable {α γ : Type} {g : γ} {n n' n'' : Node} {a mb : Nat} {name account mailbox : Str} {y z : Account}

theorem Idle.refl (n : Node) : Idle n n := ⟨n.store.now, rfl⟩

theorem Idle.trans (h : Idle n n') (h' : Idle n' n'') : Idle n n'' := by
  obtain ⟨_, rfl⟩ := h
  obtain ⟨now, rfl⟩ := h'
  exact ⟨now, rfl⟩

theorem alone : Regime (fun n t => n.Wf ∧ Idle n t) Unmoved fun (_ : γ) n t _ => Evolves n t where
  trans h h' := ⟨h.evolves.trans h'.evolves, fun c => (h'.account c).trans (h.account c)⟩
  evolves h := h.evolves
  rely := by
    rintro n _ ⟨hn, now, rfl⟩
    exact ⟨Evolves.setClock hn now, fun _ => rfl⟩
  quiet hn hq := ⟨hq.evolves hn, hq.account⟩
  guar _ hn hq := hq.evolves hn

/-- A reader that runs alone. -/
theorem idle_of_alone {Q : γ → Except Err α → Node → Prop} {p : Op α} (hn : n.Wf)
    (h : Prog.Safe (fun n t => n.Wf ∧ Idle n t) (fun _ n t _ => Evolves n t) Q g p n) :
    Prog.Safe Idle (fun _ n t _ => Issues n t) Q g p n :=
  (Prog.Safe.assuming (P := Node.Wf) (fun _ _ _ _ ht => ht.wf) hn h).weaken (fun _ _ h => h)
    fun _ _ _ _ ht => ht.issues

theorem Node.Tidy.unmoved (h : n.Tidy) (hu : Unmoved n n') : n'.Tidy :=
  h.of_accounts hu.evolves hu.account

/-- Account `a` became `y`, and nothing else changed but the clock. -/
structure Became (a : Nat) (y : Account) (n n' : Node) : Prop where
  registry : n'.kv.registry = n.kv.registry
  account : ∀ c, n'.kv.account c = if a = c then y else n.kv.account c
  blobs : n'.store.blobs = n.store.blobs
  ids : n'.ids = n.ids

theorem Became.self (h : Became a y n n') : n'.kv.account a = y := by rw [h.account, if_pos rfl]

theorem Became.refl (a : Nat) (n : Node) : Became a (n.kv.account a) n n := by
  refine ⟨rfl, fun c => ?_, rfl, rfl⟩
  split_ifs with hc
  · rw [hc]
  · rfl

/-- The next write to the account, after the clock moved. -/
theorem Became.modify (h : Became a y n n') (f : Account → Account) (now : Nat) :
    Became a (f y) n ((n'.setClock now).withKV ((n'.setClock now).kv.modify a f)) := by
  refine ⟨h.registry, fun c => ?_, h.blobs, h.ids⟩
  have hkv : (n'.setClock now).kv = n'.kv := rfl
  rw [Node.kv_withKV, KV.account_modify, hkv, h.account]
  split_ifs with hc
  · rfl
  · rfl

theorem Became.clock (h : Became a y n n') (now : Nat) : Became a y n (n'.setClock now) :=
  ⟨h.registry, h.account, h.blobs, h.ids⟩

/-- A node whose account became a tidy one, with the cache entries that still hold. -/
theorem Became.tidy (h : Became a y n n') (hn : n.Tidy) (hy : y.Tidy)
    (hb : ∀ (id : Nat) (d : EmailDoc) (b : Str), y.emails[id]? = some d → d.blob = some b →
      b ∈ n.store.blobs) {ids : IdCache} (hacct : ids.account = n.ids.account)
    (hids : ∀ (c : Nat) (name : Str) (e : Nat × Nat), ids.mailbox c name = some e →
      n.ids.mailbox c name = some e ∧ (a = c → y.nameIdx[name]? = some e.1)) : (n'.withIds ids).Tidy := by
  have haccount : ∀ c, (n'.withIds ids).kv.account c = if a = c then y else n.kv.account c := h.account
  have htidy : ∀ c, ((n'.withIds ids).kv.account c).Tidy := by
    intro c
    rw [haccount]
    split_ifs
    · exact hy
    · exact hn.tidy c
  refine ⟨⟨fun c => (htidy c).toWf, fun c id d b hd hdb => ?_, fun email e he => ?_,
    fun c name e he => ?_⟩, htidy⟩
  · change b ∈ n'.store.blobs
    rw [h.blobs]
    rw [haccount] at hd
    split_ifs at hd
    · exact hb id d b hd hdb
    · exact hn.blob c id d b hd hdb
  · change n'.kv.registry[email]? = some e.1
    rw [h.registry]
    exact hn.ids_account email e (by rw [← hacct]; exact he)
  · obtain ⟨hold, hidx⟩ := hids c name e he
    rw [haccount]
    split_ifs with hc
    · exact hidx hc
    · exact hn.ids_mailbox c name e hold

/-! ### Creating a mailbox -/

/-- A name is looked up: it is there, or nothing has happened. -/
theorem idle_mailboxDocID (hn : n.Tidy) {Q : γ → Except Err Nat → Node → Prop}
    (hfound : ∀ t mb, t.Tidy → Q g (.ok mb) t)
    (hnone : ∀ t, t.Tidy → Unmoved n t → (t.kv.account a).nameIdx[name]? = none → Q g (.error .notFound) t) :
    Prog.Safe Idle (fun _ n t _ => Issues n t) Q g (mailboxDocID a name) n := by
  refine idle_of_alone hn.toWf ?_
  cases hidx : (n.kv.account a).nameIdx[name]? with
  | some mb => exact alone.mailboxDocID_known hidx fun t ht => hfound t mb (hn.unmoved ht)
  | none =>
    refine alone.mailboxDocID (fun t mb ht hmb => ?_) fun t ht => ?_
    · rw [ht.account, hidx] at hmb
      cases hmb
    · exact hnone t (hn.unmoved ht) ht (by rw [ht.account]; exact hidx)

/-- A mailbox is created as a whole, or it is there already. -/
theorem idle_createMailbox (hn : n.Tidy) (account mailbox : Str) :
    Prog.Safe Idle (fun _ n t _ => Issues n t) (fun _ _ t => t.Tidy) g (createMailbox account mailbox) n := by
  refine Prog.Safe.bind (idle_of_alone hn.toWf (alone.ensureAccount (fun t a ht _ => ?_)
    fun t ht => hn.unmoved ht))
  refine Prog.Safe.attempt (idle_mailboxDocID (hn.unmoved ht) (fun _ _ hu => hu) fun u hu _ hnew => ?_)
  let id := (u.kv.account a).lastMailbox + 1
  refine Prog.Safe.bind ?_
  rintro _ ⟨now₁, rfl⟩
  refine ⟨g, Issues.of_modify (a := a) (f := fun x => (x.takeMailboxID id).putMailbox id { sentinel := true })
    rfl rfl, Prog.Safe.bind ?_⟩
  rintro _ ⟨now₂, rfl⟩
  refine ⟨g, Issues.of_modify rfl rfl, Prog.Safe.bind ?_⟩
  rintro _ ⟨now₃, rfl⟩
  refine ⟨g, Issues.of_modify rfl rfl, ?_⟩
  have hfinal := ((((Became.refl a u).modify
    (fun x => (x.takeMailboxID id).putMailbox id { sentinel := true }) now₁).modify
    (·.putMailbox id (newMailboxFields mailbox id)) now₂).modify (·.putName mailbox id) now₃)
  rw [addMailbox_eq _ mailbox rfl] at hfinal
  refine hfinal.tidy hu ((hu.tidy a).addMailbox hnew) (hu.blob a) rfl fun c name e he => ⟨he, ?_⟩
  rintro rfl
  exact ((hu.account a).grows_addMailbox hnew).name name e.1 (hu.ids_mailbox a name e he)

/-! ### Deleting a mailbox -/

theorem idle_mailboxEmails {Q : γ → Except Err (List Email) → Node → Prop}
    (hQ : ∀ t, Idle n t → Q g (.ok (listing (n.kv.account a) mb)) t) :
    Prog.Safe Idle (fun _ n t _ => Issues n t) Q g (mailboxEmails a mb) n := by
  refine scan_mailboxEmails (I := Idle n) ?_ (fun _ _ => Idle.trans) (fun _ _ => .of_kv rfl)
    (Idle.refl n) hQ
  rintro _ ⟨now, rfl⟩
  exact SameView.refl mb _

/-- A message goes, unless its document could not be found. -/
theorem idle_deleteEmail {uid id : Nat} (hn : n.Tidy) (ho : (n.kv.account a).Owns mb uid id)
    (hidx : (n.kv.account a).nameIdx[name]? = some mb) {Q : γ → Except Err Unit → Node → Prop}
    (hQ : ∀ t r, t.Tidy → Evolves n t → (∀ mb' uid' id' : Nat,
      (t.kv.account a).row mb' uid' = some id' → (n.kv.account a).row mb' uid' = some id' ∧
        (r = .ok () → id' ≠ id)) → Q g r t) :
    Prog.Safe Idle (fun _ n t _ => Issues n t) Q g (deleteEmail a id mb 0 false) n := by
  refine Prog.Safe.bind ?_
  rintro _ ⟨now₁, rfl⟩
  refine ⟨g, Issues.of_kv rfl, ?_⟩
  rintro _ ⟨now₂, rfl⟩
  let t := (n.setClock now₁).setClock now₂
  have htev : Evolves n t := (Evolves.setClock hn.toWf now₁).trans (Evolves.setClock (hn.toWf.setClock _) now₂)
  have ht : t.Tidy := hn.of_accounts htev fun _ => rfl
  have hrows := deletionRows_cases ho 0
  suffices h : ∀ extra, (extra = removal mb uid (if 0 ≠ 0 then some 0 else none) ∨
      (extra = [] ∧ (n.kv.account a).Phantom id)) →
      Issues t (t.withKV (deleteEmailAtomically a id none extra now₂ t.kv).1) ∧
      Q g (deleteEmailAtomically a id none extra now₂ t.kv).2
        (t.withKV (deleteEmailAtomically a id none extra now₂ t.kv).1) from ⟨g, h _ hrows⟩
  intro extra hrows
  rcases deleteEmailAtomically_touches a id none extra now₂ t.kv with
    ⟨he, ⟨-, hr⟩ | hr⟩ | ⟨d, hd, hr, htouch⟩
  · rw [he, hr]
    exact ⟨.of_kv rfl, hQ _ _ ht htev fun _ _ _ hrow => ⟨hrow, by simp⟩⟩
  · rw [he, hr]
    exact ⟨.of_kv rfl, hQ _ _ ht htev fun _ _ _ hrow => ⟨hrow, by simp⟩⟩
  · obtain rfl : extra = removal mb uid none := by
      refine (hrows.resolve_right fun hp => ?_).trans (by simp)
      exact (hn.tidy a).no_phantom hd hp.2
    have hw : Write Config.plain (rightsOn (fun _ => False) (· = name)) (StillThere (fun _ => False) t a) []
        a t (fun _ => none) ((t.kv.account a).delete id d (removal mb uid none)) (fun _ => none) :=
      .remove name mb uid id d none rfl hidx ho hd (by simp) fun _ => trivial
    have hup := hw.upkeep ht.toWf htouch
    refine ⟨hup.evolves.issues, hQ _ _ (hup.tidy ht) (htev.trans hup.evolves) fun mb' uid' id' hrow => ?_⟩
    obtain ⟨l, hl⟩ := htouch.account a
    rw [Node.kv_withKV, hl, if_pos rfl] at hrow
    change ((n.kv.account a).delete id d (removal mb uid none)).row mb' uid' = some id' at hrow
    rw [row_delete] at hrow
    split_ifs at hrow with hsame
    refine ⟨hrow, fun _ => ?_⟩
    rintro rfl
    exact hsame ((hn.account a).row_inj mb uid mb' uid' id' ((hn.tidy a).row_of_owns ho hd) hrow)

/-- The loop of `DeleteMailbox` empties the mailbox. -/
theorem idle_deleteEach : ∀ (emails : List Email) (n : Node) {Q : γ → Except Err Unit → Node → Prop},
    n.Tidy → (n.kv.account a).nameIdx[name]? = some mb → (∀ e ∈ emails, Listed (n.kv.account a) mb e) →
    (∀ uid id, (n.kv.account a).row mb uid = some id → ∃ e ∈ emails, e.docID = id) →
    (∀ t, t.Tidy → (t.kv.account a).nameIdx[name]? = some mb → (∀ uid, (t.kv.account a).row mb uid = none) →
      Q g (.ok ()) t) → (∀ t e, t.Tidy → Q g (.error e) t) → Prog.Safe Idle (fun _ n t _ => Issues n t) Q g
      (Prog.forEach (fun e : Email => deleteEmail a e.docID mb 0 false) emails) n
  | [], n, _, hn, hidx, _, hall, hok, _ => by
    refine hok n hn hidx fun uid => ?_
    by_contra hne
    obtain ⟨id, hr⟩ := Option.ne_none_iff_exists'.mp hne
    obtain ⟨e, he, -⟩ := hall uid id hr
    cases he
  | e :: emails, n, Q, hn, hidx, hl, hall, hok, herr => by
    obtain ⟨uid, ho, -⟩ := hl e (by simp)
    refine Prog.Safe.bind (idle_deleteEmail hn ho hidx fun t r ht hev hrows => ?_)
    cases r with
    | error err => exact herr t err ht
    | ok =>
      refine idle_deleteEach emails t ht ((hev.account a).name name mb hidx)
        (fun f hf => (hl f (by simp [hf])).grows (hev.account a)) (fun uid' id' hr => ?_) hok herr
      obtain ⟨hr, hne⟩ := hrows mb uid' id' hr
      obtain ⟨f, hf, rfl⟩ := hall uid' id' hr
      rcases List.mem_cons.mp hf with rfl | hf
      · exact absurd rfl (hne rfl)
      · exact ⟨f, hf, rfl⟩

/-- A listing is complete. -/
theorem docID_of_row {x : Account} (hx : x.Wf) {uid id : Nat} (hr : x.row mb uid = some id) :
    ∃ e ∈ listing x mb, e.docID = id := by
  obtain ⟨d, hd, -, hu, -⟩ := hx.row_doc mb uid id hr
  exact ⟨emailFromFields id d, (mem_listing hx).mpr ⟨uid, id, d, hr, hd, hu, rfl⟩, rfl⟩

theorem mem_docIDs_listing {x : Account} (hx : x.Wf) (id : Nat) :
    id ∈ (listing x mb).map (·.docID) ↔ ∃ uid, x.row mb uid = some id := by
  refine ⟨fun hid => ?_, fun ⟨uid, hr⟩ => List.mem_map.mpr (docID_of_row hx hr)⟩
  obtain ⟨e, he, rfl⟩ := List.mem_map.mp hid
  obtain ⟨uid, hr, -⟩ := row_of_docID hx he
  exact ⟨uid, hr⟩

/-- Forgetting a name leaves the other entries. -/
theorem forgetMailbox_mailbox {ids : IdCache} {c : Nat} {nm : Str} {e : Nat × Nat}
    (h : Function.update ids.mailbox a (Function.update (ids.mailbox a) name none) c nm = some e) :
    ids.mailbox c nm = some e ∧ (a = c → nm ≠ name) := by
  rw [Function.update_apply] at h
  split_ifs at h with hc
  · subst hc
    rw [Function.update_apply] at h
    split_ifs at h with hnm
    exact ⟨h, fun _ => hnm⟩
  · exact ⟨h, fun hac => absurd hac.symm hc⟩

/-- A mailbox goes as a whole, with its messages, or stays. -/
theorem idle_deleteMailbox (hn : n.Tidy) (account mailbox : Str) :
    Prog.Safe Idle (fun _ n t _ => Issues n t) (fun _ _ t => t.Tidy) g (deleteMailbox account mailbox) n := by
  refine Prog.Safe.bind (idle_of_alone hn.toWf (alone.resolve (fun t a mb ht hres => ?_)
    fun t ht => hn.unmoved ht))
  have htidy := hn.unmoved ht
  refine Prog.Safe.bind (idle_mailboxEmails ?_)
  rintro _ ⟨now₀, rfl⟩
  have ht₀ : (t.setClock now₀).Tidy := htidy.of_accounts (Evolves.setClock htidy.toWf now₀) fun _ => rfl
  refine Prog.Safe.bind (idle_deleteEach _ _ ht₀ hres.idx (fun e he => ?_)
    (fun uid id hr => docID_of_row (htidy.account a) hr) (fun u hu hidx hempty => ?_) fun u e hu => hu)
  · obtain ⟨uid, hr, huid⟩ := row_of_docID (htidy.account a) he
    exact ⟨uid, (htidy.account a).owns hr, huid⟩
  obtain ⟨md, hmd, -⟩ := (hu.account a).name_mailbox mailbox mb hidx
  refine Prog.Safe.bind ?_
  rintro _ ⟨now₁, rfl⟩
  have hkv : (u.setClock now₁).kv = u.kv := rfl
  simp only [deleteMailboxDocument, hkv, hmd]
  refine ⟨g, Issues.of_modify rfl rfl, ?_⟩
  refine Prog.Safe.bind ?_
  rintro _ ⟨now₂, rfl⟩
  refine ⟨g, Issues.of_modify rfl rfl, ?_⟩
  rintro _ ⟨now₃, rfl⟩
  refine ⟨g, Issues.of_kv rfl, ?_⟩
  have hfinal := (((Became.refl a u).modify (·.dropMailbox mb) now₁).modify (·.dropName mailbox) now₂).clock now₃
  refine hfinal.tidy hu ((hu.tidy a).dropMailbox hidx hempty) (hu.blob a) rfl fun c nm e he => ?_
  have hkept : u.ids.mailbox c nm = some e ∧ _ := forgetMailbox_mailbox he
  obtain ⟨hold, hne⟩ := hkept
  refine ⟨hold, ?_⟩
  rintro rfl
  have hrow := hu.ids_mailbox a nm e hold
  change ((u.kv.account a).nameIdx.erase mailbox)[nm]? = some e.1
  rw [getElem?_erase_row, if_neg fun h => hne rfl h.symm]
  exact hrow

/-! ### Renaming a mailbox -/

theorem idle_relabel {new : Str} : ∀ (emails : List Email) (n' : Node) (y : Account)
    {Q : γ → Except Err Unit → Node → Prop}, Became a y n n' →
    (∀ t, Became a (y.relabel new (emails.map (·.docID))) n t → Q g (.ok ()) t) →
    Prog.Safe Idle (fun _ n t _ => Issues n t) Q g (Prog.forEach (fun e : Email =>
      put (updateEmailsAtomically a [(e.docID, { mailbox := some new })])) emails) n'
  | [], n', _, _, h, hQ => hQ n' h
  | e :: emails, n', y, _, h, hQ => by
    refine Prog.Safe.bind ?_
    rintro _ ⟨now, rfl⟩
    exact ⟨g, Issues.of_modify (a := a) (f := fun x => x.updateEmail (e.docID, { mailbox := some new }))
      rfl rfl, idle_relabel emails _ _
      (h.modify (fun x => x.updateEmail (e.docID, { mailbox := some new })) now) hQ⟩

/-- The rows and documents of the messages are those of before the first commit of a rename. -/
theorem sameView_rename (x : Account) (mb : Nat) (old new : Str) : SameView mb x (x.rename mb old new) :=
  ⟨rfl, fun _ _ _ => rfl⟩

theorem blob_relabel {x : Account} {new : Str} {ids : List Nat} (hids : ∀ id ∈ ids, (x.emails[id]?).isSome)
    {id : Nat} {d : EmailDoc} {b : Str} (hd : (x.relabel new ids).emails[id]? = some d)
    (hb : d.blob = some b) : ∃ d₀ : EmailDoc, x.emails[id]? = some d₀ ∧ d₀.blob = some b := by
  obtain ⟨E, c, l, heq, hE⟩ := relabel_eq new ids x
  rw [heq] at hd
  change E[id]? = some d at hd
  rw [hE] at hd
  split_ifs at hd with hmem
  · obtain ⟨d₀, hd₀⟩ := Option.isSome_iff_exists.mp (hids id hmem)
    obtain rfl := Option.some.inj hd
    exact ⟨d₀, hd₀, by simpa [hd₀, EmailDoc.put] using hb⟩
  · exact ⟨d, hd, hb⟩

/-- A mailbox is renamed as a whole, with its messages, or stays as it is. -/
theorem idle_renameMailbox (hn : n.Tidy) (account oldName newName : Str) :
    Prog.Safe Idle (fun _ n t _ => Issues n t) (fun _ _ t => t.Tidy) g (renameMailbox account oldName newName)
      n := by
  refine Prog.Safe.bind (idle_of_alone hn.toWf (alone.resolve (fun t a mb ht hres => ?_)
    fun t ht => hn.unmoved ht))
  refine Prog.Safe.attempt (idle_mailboxDocID (hn.unmoved ht) (fun _ _ hu => hu) fun u hu' hu hnew' => ?_)
  have hidx' : (u.kv.account a).nameIdx[oldName]? = some mb := by rw [hu.account]; exact hres.idx
  refine Prog.Safe.bind ?_
  rintro _ ⟨now₁, rfl⟩
  have hren := (Became.refl a u).modify (·.rename mb oldName newName) now₁
  refine ⟨g, Issues.of_modify rfl rfl, Prog.Safe.bind (idle_mailboxEmails ?_)⟩
  rintro _ ⟨now₂, rfl⟩
  refine Prog.Safe.bind (idle_relabel _ _ _ (hren.clock now₂) fun v hv => ?_)
  rintro _ ⟨now₃, rfl⟩
  refine ⟨g, Issues.of_kv rfl, ?_⟩
  -- the listing is read after the first commit, which leaves the messages alone
  have hlist : listing ((u.setClock now₁).withKV (updateMailboxAtomically a mb { name := some newName }
      [.dropName oldName, .putName newName mb] (u.setClock now₁).kv) |>.kv.account a) mb =
      listing (u.kv.account a) mb := by
    have hself : ((u.setClock now₁).withKV (updateMailboxAtomically a mb { name := some newName }
        [.dropName oldName, .putName newName mb] (u.setClock now₁).kv)).kv.account a =
        (u.kv.account a).rename mb oldName newName := hren.self
    rw [hself]; exact (sameView_rename _ mb oldName newName).listing
  rw [hlist] at hv
  have hsome : ∀ id ∈ (listing (u.kv.account a) mb).map (·.docID),
      (((u.kv.account a).rename mb oldName newName).emails[id]?).isSome := by
    intro id hid
    obtain ⟨uid, hr⟩ := (mem_docIDs_listing (hu'.account a) id).mp hid
    obtain ⟨d, hd, -⟩ := (hu'.account a).row_doc mb uid id hr
    exact Option.isSome_iff_exists.mpr ⟨d, hd⟩
  refine (hv.clock now₃).tidy hu' ((hu'.tidy a).renamed hidx' hnew' (mem_docIDs_listing (hu'.account a)))
    (fun id d b hd hb => ?_) ?_ fun c nm e he => ?_
  · obtain ⟨d₀, hd₀, hb₀⟩ := blob_relabel hsome hd hb
    exact hu'.blob a id d₀ b hd₀ hb₀
  · rw [show (v.setClock now₃).ids = u.ids from hv.ids]
  · rw [show (v.setClock now₃).ids = u.ids from hv.ids] at he
    obtain ⟨hold, hne⟩ := forgetMailbox_mailbox he
    refine ⟨hold, ?_⟩
    rintro rfl
    have hrow := hu'.ids_mailbox a nm e hold
    obtain ⟨E, c, l, heq, -⟩ := relabel_eq newName ((listing (u.kv.account a) mb).map (·.docID))
      ((u.kv.account a).rename mb oldName newName)
    rw [heq]
    change (((u.kv.account a).nameIdx.erase oldName).insert newName mb)[nm]? = some e.1
    rw [getElem?_insert_row, if_neg, getElem?_erase_row, if_neg fun h => hne rfl h.symm]
    · exact hrow
    · rintro rfl
      rw [hnew'] at hrow
      cases hrow

end idle

end Mailezine.Mailstore
