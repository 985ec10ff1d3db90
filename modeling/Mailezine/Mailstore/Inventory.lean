import Mailezine.Mailstore.Upkeep

/-! The indexes of a mailbox store that is used by one caller at a time.

    A run performs complete operations one after the other. After each of them the name index and the
    mailbox documents name each other, the email index and the Email documents are in bijection, and
    along the run the UIDs of new index rows rise. -/

namespace Mailezine.Mailstore
open Gostd Schemes Store List

/-- An operation of the mailstore, or time that passes. -/
inductive BoxOp where
  | mail (op : MailOp)
  | append (account mailbox : Str) (msg : Incoming)
  | createMailbox (account mailbox : Str)
  | deleteMailbox (account mailbox : Str)
  | renameMailbox (account oldName newName : Str)
  | listMailboxes (account : Str)
  | tick (now : Nat)

/-- The program of an operation. -/
def BoxOp.prog (cfg : Config) : BoxOp → Op Unit
  | .mail op => op.prog cfg
  | .append account mailbox msg => effect (appendMessage cfg account mailbox msg)
  | .createMailbox account mailbox => effect (Mailstore.createMailbox account mailbox)
  | .deleteMailbox account mailbox => Mailstore.deleteMailbox account mailbox
  | .renameMailbox account oldName newName => Mailstore.renameMailbox account oldName newName
  | .listMailboxes account => effect (Mailstore.listMailboxes cfg account)
  | .tick now => Prog.write fun n => n.setClock now

/-- A run of complete operations. -/
def Node.perform (cfg : Config) (n : Node) (ops : List BoxOp) : Node :=
  ops.foldl (fun n op => ((op.prog cfg).exec n).1) n

/-! ### UIDs that are handed out -/

/-- The UIDs of mailbox `mb` of account `a` whose row is new in `n'`, in order. -/
def newUIDs (a mb : Nat) (n n' : Node) : List Nat :=
  (((n'.kv.account a).emailIdx mb).toList.map (·.1)).filter fun uid =>
    ((n.kv.account a).row mb uid).isNone

/-- The UIDs that a program hands out, step by step. -/
def issued {α : Type} (a mb : Nat) : Op α → Node → List Nat
  | .done _, _ => []
  | .act f k, n => newUIDs a mb n (f n) ++ issued a mb (k n) (f n)

/-- The UIDs that a run hands out, in order. -/
def handedOut (cfg : Config) (a mb : Nat) : Node → List BoxOp → List Nat
  | _, [] => []
  | n, op :: ops => issued a mb (op.prog cfg) n ++ handedOut cfg a mb ((op.prog cfg).exec n).1 ops

/-- Rising numbers above `lo` and up to `hi`. -/
structure Rising (lo hi : Nat) (l : List Nat) : Prop where
  le : lo ≤ hi
  sorted : l.Pairwise (· < ·)
  bounds : ∀ u ∈ l, lo < u ∧ u ≤ hi

theorem Rising.append {lo mid hi : Nat} {l l' : List Nat} (h : Rising lo mid l) (h' : Rising mid hi l') :
    Rising lo hi (l ++ l') := by
  refine ⟨h.le.trans h'.le, pairwise_append.mpr ⟨h.sorted, h'.sorted, fun u hu v hv => ?_⟩, ?_⟩
  · exact (h.bounds u hu).2.trans_lt (h'.bounds v hv).1
  · intro u hu
    rcases mem_append.mp hu with hu | hu
    · exact ⟨(h.bounds u hu).1, (h.bounds u hu).2.trans h'.le⟩
    · exact ⟨h.le.trans_lt (h'.bounds u hu).1, (h'.bounds u hu).2⟩

section
variable {α : Type} {cfg : Config} {n n' : Node} {a mb : Nat}

theorem Issues.rising (h : Issues n n') (a mb : Nat) :
    Rising ((n.kv.account a).lastUID mb) ((n'.kv.account a).lastUID mb) (newUIDs a mb n n') := by
  refine ⟨h.lastUID a mb, ?_, fun uid hu => ?_⟩
  · refine Pairwise.filter _ (pairwise_map.mpr ?_)
    exact (Std.ExtTreeMap.ordered_keys_toList).imp fun hlt => compare_lt_iff_lt.mp hlt
  · obtain ⟨hmem, hnone⟩ := mem_filter.mp hu
    obtain ⟨⟨uid', id⟩, hm, rfl⟩ := List.mem_map.mp hmem
    exact h.row a mb uid' id (mem_scan.mp hm) (Option.isNone_iff_eq_none.mp hnone)

/-- A program whose steps hand out UIDs in order. -/
theorem issued_rising {γ : Type} {R : Node → Node → Prop} {G : γ → Node → Node → γ → Prop}
    {I : γ → Node → Prop} {Q : γ → Except Err α → Node → Prop} (hR : ∀ g s, I g s → R s s)
    (hI : ∀ g s t g', I g s → G g s t g' → I g' t ∧ Issues s t) (a mb : Nat) {p : Op α} {g : γ}
    (h : Prog.Safe R G Q g p n) (hn : I g n) :
    Rising ((n.kv.account a).lastUID mb) (((p.exec n).1.kv.account a).lastUID mb) (issued a mb p n) := by
  induction p generalizing n g with
  | done r => exact ⟨le_rfl, .nil, by simp [issued]⟩
  | act f k ih =>
    obtain ⟨g', hg, hk⟩ := h n (hR g n hn)
    obtain ⟨hn', hiss⟩ := hI g n (f n) g' hn hg
    exact (hiss.rising a mb).append (ih n hk hn')

/-! ### One operation -/

/-- What an operation leaves behind, and the UIDs it hands out on the way. -/
structure Accounted (n n' : Node) (uids : Nat → Nat → List Nat) : Prop where
  tidy : n'.Tidy
  rising : ∀ a mb, Rising ((n.kv.account a).lastUID mb) ((n'.kv.account a).lastUID mb) (uids a mb)

theorem accounted_of_upkeep {S F : Str → Prop} {g : Bumped} {p : Op α} (hn : n.Tidy)
    (h : Prog.Safe (Spares F) (fun _ n n' _ => Upkeep S n n') (fun _ _ _ => True) g p n) :
    Accounted n (p.exec n).1 fun a mb => issued a mb p n := by
  have hR : ∀ (_ : Bumped) (s : Node), s.Tidy → Spares F s s := fun _ _ hs => Spares.refl hs.toWf
  refine ⟨?_, fun a mb => issued_rising (I := fun _ s => s.Tidy) hR ?_ a mb h hn⟩
  · obtain ⟨_, htidy, -⟩ := h.exec (I := fun _ s => s.Tidy) hR (fun _ _ _ _ hs hup => hup.tidy hs) hn
    exact htidy
  · exact fun _ _ _ _ hs hup => ⟨hup.tidy hs, hup.evolves.issues⟩

theorem accounted_of_idle {p : Op α}
    (h : Prog.Safe Idle (fun (_ : Unit) n t _ => Issues n t) (fun _ _ t => t.Tidy) () p n) :
    Accounted n (p.exec n).1 fun a mb => issued a mb p n := by
  have hR : ∀ (_ : Unit) (s : Node), True → Idle s s := fun _ s _ => Idle.refl s
  refine ⟨?_, fun a mb => issued_rising (I := fun _ _ => True) hR (fun _ _ _ _ _ hi => ⟨trivial, hi⟩) a mb h
    trivial⟩
  obtain ⟨_, -, htidy⟩ := h.exec (I := fun _ _ => True) hR (fun _ _ _ _ _ _ => trivial) trivial
  exact htidy

theorem BoxOp.accounted (cfg : Config) (op : BoxOp) (hn : n.Tidy) :
    Accounted n ((op.prog cfg).exec n).1 fun a mb => issued a mb (op.prog cfg) n := by
  cases op with
  | mail op => exact accounted_of_upkeep hn (upkeep_mailOp cfg op (fun _ => none) hn.toWf)
  | append account mailbox msg =>
    exact accounted_of_upkeep hn (upkeep_mailOp cfg (.deliver account mailbox msg) (fun _ => none) hn.toWf)
  | createMailbox account mailbox =>
    exact accounted_of_idle (Prog.Safe.attempt (idle_createMailbox hn account mailbox))
  | deleteMailbox account mailbox => exact accounted_of_idle (idle_deleteMailbox hn account mailbox)
  | renameMailbox account oldName newName =>
    exact accounted_of_idle (idle_renameMailbox hn account oldName newName)
  | listMailboxes account =>
    have hlist : Prog.Safe (Spares fun _ => False) (fun _ n n' _ => Upkeep (fun _ => ¬False) n n')
        (fun _ _ _ => True) (fun _ => none) (Mailstore.listMailboxes cfg account) n :=
      upkeep_listMailboxes cfg account
    exact accounted_of_upkeep hn (Prog.Safe.attempt (hlist.mono fun _ _ _ _ => trivial))
  | tick now =>
    refine accounted_of_idle fun t ht => ?_
    obtain ⟨now', rfl⟩ := ht
    refine ⟨(), .of_kv rfl, ?_⟩
    have hev := (Evolves.setClock hn.toWf now').trans (Evolves.setClock (hn.toWf.setClock now') now)
    exact hn.of_accounts hev fun _ => rfl

/-! ### Runs -/

theorem perform_tidy (cfg : Config) : ∀ (ops : List BoxOp) {n : Node}, n.Tidy → (n.perform cfg ops).Tidy
  | [], _, hn => hn
  | op :: ops, _, hn => perform_tidy cfg ops (op.accounted cfg hn).tidy

theorem handedOut_rising (cfg : Config) (a mb : Nat) : ∀ (ops : List BoxOp) {n : Node}, n.Tidy →
    Rising ((n.kv.account a).lastUID mb) (((n.perform cfg ops).kv.account a).lastUID mb)
      (handedOut cfg a mb n ops)
  | [], _, _ => ⟨le_rfl, .nil, by simp [handedOut]⟩
  | op :: ops, _, hn =>
    have hop := op.accounted cfg hn
    (hop.rising a mb).append (handedOut_rising cfg a mb ops hop.tidy)

end

/-- The indexes of an account and its documents name each other: mailbox names are unique and each
    name-index row names the mailbox document of that name, and the rows of the email index are in
    bijection with the Email documents, which carry the row's UID, the mailbox's name and a modseq up to
    the mailbox's. -/
structure Indexed (x : Account) : Prop where
  mailbox : ∀ (id : Nat) (md : MailboxDoc), x.mailboxes[id]? = some md →
    ∃ name, md.name = some name ∧ x.nameIdx[name]? = some id
  unique : ∀ (id id' : Nat) (md md' : MailboxDoc), x.mailboxes[id]? = some md →
    x.mailboxes[id']? = some md' → md.name = md'.name → id = id'
  name : ∀ (name : Str) (id : Nat), x.nameIdx[name]? = some id →
    ∃ md : MailboxDoc, x.mailboxes[id]? = some md ∧ md.name = some name
  row : ∀ mb uid id : Nat, x.row mb uid = some id → ∃ (md : MailboxDoc) (d : EmailDoc) (name : Str),
    x.mailboxes[mb]? = some md ∧ md.name = some name ∧ x.emails[id]? = some d ∧ d.sentinel = true ∧
    d.uid = some uid ∧ d.mailbox = some name ∧ d.modSeq.getD 0 ≤ x.modSeq mb
  reached : ∀ (id : Nat) (d : EmailDoc), x.emails[id]? = some d →
    ∃! p : Nat × Nat, x.row p.1 p.2 = some id
  counter : ∀ mb uid id : Nat, x.row mb uid = some id → uid ≤ x.lastUID mb

theorem indexed_of_tidy {x : Account} (h : x.Tidy) : Indexed x where
  mailbox id md hmd := (h.mailbox_name id md hmd).2
  unique _ _ _ _ := h.toWf.name_inj
  name := h.name_mailbox
  row mb uid id hr := by
    obtain ⟨d, hd, hs, hu, -, hm⟩ := h.row_doc mb uid id hr
    obtain ⟨md, d', hmd, hd', hl⟩ := h.home mb uid id hr
    obtain rfl := Option.mem_unique hd hd'
    obtain ⟨-, name, hname, -⟩ := h.mailbox_name mb md hmd
    exact ⟨md, d, name, hmd, hname, hd, hs, hu, hl.trans hname, hm⟩
  reached id d hd := by
    obtain ⟨mb, uid, hr⟩ := h.reached id d hd
    refine ⟨(mb, uid), hr, fun p hp => ?_⟩
    obtain ⟨h₁, h₂⟩ := h.row_inj p.1 p.2 mb uid id hp hr
    exact Prod.ext h₁ h₂
  counter := h.row_uid

/-- INDEXED: after every run of complete operations from an empty store the indexes of every account
    and its documents name each other, and along the run the UIDs handed out for a mailbox document
    rise. -/
theorem inventory_law (cfg : Config) (ops : List BoxOp) (a : Nat) :
    Indexed ((({} : Node).perform cfg ops).kv.account a) ∧ ∀ mb, (handedOut cfg a mb {} ops).Pairwise (· < ·) :=
  ⟨indexed_of_tidy ((perform_tidy cfg ops tidy_node_empty).tidy a),
    fun mb => (handedOut_rising cfg a mb ops tidy_node_empty).sorted⟩

/-- A rename, a copy and a move hand out one UID each in the mailbox they write to. -/
example : handedOut Config.plain 1 1 {}
    [.mail (.deliver [1] [2] {}), .mail (.deliver [1] [2] {}), .renameMailbox [1] [2] [3],
      .mail (.copy [1] [3] [3] [1]), .mail (.move [1] [3] [3] [2])] = [1, 2, 3, 4] := by decide +kernel

end Mailezine.Mailstore
