import Mailezine.Mailstore.Sequential

/-! QRESYNC: what a client that was away is told.

    A client that last saw a mailbox at point `p` asks at point `q` for what changed above the modseq
    it knows. COMPLETE: the tombstones above that modseq are exactly the UIDs that went since, and a
    message whose flags changed since carries a higher modseq. Every operation but one announces what
    it does under a modseq taken out for it; a `Move` with an empty UID list takes out none. -/

namespace Mailezine.Mailstore
open Gostd Schemes Store

/-! ### Announced changes -/

/-- From `x` to `y` mailbox `mb` lost no message without a tombstone above `base`, and no message's
    flags changed without a modseq above `base`. -/
structure Announced (base mb : Nat) (x y : Account) : Prop where
  gone : ∀ uid id : Nat, x.row mb uid = some id → y.row mb uid = none →
    ∃ m, base < m ∧ y.tomb mb m uid = some uid
  flags : ∀ (uid id : Nat) (d e : EmailDoc), x.row mb uid = some id → y.row mb uid = some id →
    x.emails[id]? = some d → y.emails[id]? = some e →
    (e.flags = d.flags ∧ e.keywords = d.keywords ∧ e.modSeq = d.modSeq) ∨ base < e.modSeq.getD 0

section Announced
variable {base mb : Nat} {x y z : Account}

theorem Announced.of_same (hrow : y.row mb = x.row mb) (hdoc : y.emails = x.emails) :
    Announced base mb x y := by
  refine ⟨fun uid id hx hy => ?_, fun uid id d e _ _ hd he => ?_⟩
  · rw [hrow, hx] at hy
    cases hy
  · rw [hdoc, hd] at he
    obtain rfl := Option.some.inj he
    exact Or.inl ⟨rfl, rfl, rfl⟩

theorem Announced.mono {base' : Nat} (h : Announced base mb x y) (hle : base' ≤ base) :
    Announced base' mb x y := by
  refine ⟨fun uid id hx hy => ?_, fun uid id d e hx hy hd he => ?_⟩
  · obtain ⟨m, hm, ht⟩ := h.gone uid id hx hy
    exact ⟨m, by omega, ht⟩
  · exact (h.flags uid id d e hx hy hd he).imp_right fun hlt => by omega

theorem Announced.trans (hx : x.Wf) (hy : y.Wf) (hxy : x.Grows y) (hyz : y.Grows z)
    (h : Announced base mb x y) (h' : Announced base mb y z) : Announced base mb x z := by
  refine ⟨fun uid id hrx hrz => ?_, fun uid id d f hrx hrz hd hf => ?_⟩
  · cases hry : y.row mb uid with
    | none =>
      obtain ⟨m, hm, ht⟩ := h.gone uid id hrx hry
      exact ⟨m, hm, hyz.tomb mb m uid uid ht⟩
    | some id' => exact h'.gone uid id' hry hrz
  · -- the row was there in between as well: its UID is no new one
    have hry : y.row mb uid = some id := by
      rcases hyz.row mb uid id hrz with hry | ⟨hlt, -⟩
      · exact hry
      · have := hx.row_uid mb uid id hrx
        have := hxy.lastUID mb
        omega
    obtain ⟨e, he, -⟩ := hy.row_doc mb uid id hry
    rcases h'.flags uid id e f hry hrz he hf with ⟨h₁, h₂, h₃⟩ | hlt
    · rcases h.flags uid id d e hrx hry hd he with ⟨k₁, k₂, k₃⟩ | hlt
      · exact Or.inl ⟨h₁.trans k₁, h₂.trans k₂, h₃.trans k₃⟩
      · exact Or.inr (by rw [h₃]; exact hlt)
    · exact Or.inr hlt

end Announced

section
variable {Γ : Scope} {present : Str → Prop} {a base mb : Nat} {g g' : Bumped} {x y : Account}
  {name : Str}

/-- Whatever a step changes in a loud mailbox is announced under the modseq its operation took out. -/
theorem Change.announced (h : Change Γ present a g x y g') (hx : x.Wf)
    (hg : ∀ m, g (a, mb) = some m → base < m) (hidx : x.nameIdx[name]? = some mb)
    (hl : Γ.loud name) : Announced base mb x y := by
  cases h with
  | mailbox nm hnew => exact Announced.of_same rfl rfl
  | bump mb' hex => exact Announced.of_same rfl rfl
  | deliver r b hex hb hp =>
    refine ⟨fun uid id hrx hry => ?_, fun uid id d e hrx hry hd he => ?_⟩
    · rw [row_delivered] at hry
      split_ifs at hry
      rw [hrx] at hry
      cases hry
    · rw [hx.emails_delivered] at he
      have := (hx.owns hrx).id_le
      rw [if_neg (by omega), hd] at he
      obtain rfl := Option.some.inj he
      exact Or.inl ⟨rfl, rfl, rfl⟩
  | flags mb' m docs hgm hm hdocs =>
    refine ⟨fun uid id hrx hry => ?_, fun uid id d e hrx hry hd he => ?_⟩
    · unfold Account.row at hrx hry
      rw [emailIdx_updateEmails, hrx] at hry
      cases hry
    · rcases emails_updateEmails docs x (fun u hu => (hdocs u hu).2) id e he with
        ⟨-, he'⟩ | ⟨hin, hseq, -, -⟩
      · rw [hd] at he'
        obtain rfl := Option.some.inj he'
        exact Or.inl ⟨rfl, rfl, rfl⟩
      · obtain ⟨u, hu, rfl⟩ := List.mem_map.mp hin
        obtain ⟨⟨uid', ho, -⟩, -⟩ := hdocs u hu
        obtain ⟨rfl, -⟩ := ho.only mb uid hrx
        exact Or.inr (by rw [hseq]; exact hg m hgm)
  | remove mb' uid' id' d' tomb ho hd' hgm hq =>
    refine ⟨fun uid id hrx hry => ?_, fun uid id d e hrx hry hd he => ?_⟩
    · rw [row_delete] at hry
      split_ifs at hry with hrow
      · obtain ⟨rfl, rfl⟩ := hrow
        cases tomb with
        | none =>
          obtain ⟨md, nm, hmd, hnm, hnl⟩ := hq rfl
          obtain ⟨md', hmd', hnm'⟩ := hx.name_mailbox name mb' hidx
          obtain rfl := Option.mem_unique hmd hmd'
          obtain rfl := Option.mem_unique hnm hnm'
          exact absurd hl hnl
        | some m =>
          refine ⟨m, hg m (hgm m rfl), ?_⟩
          rw [tomb_delete, if_pos ⟨rfl, rfl, rfl⟩]
      · rw [hrx] at hry
        cases hry
    · rw [emails_delete] at he
      split_ifs at he
      rw [hd] at he
      obtain rfl := Option.some.inj he
      exact Or.inl ⟨rfl, rfl, rfl⟩
  | phantom id' d' hp hd' =>
    refine ⟨fun uid id hrx hry => ?_, fun uid id d e hrx hry hd he => ?_⟩
    · have hrow : (x.delete id' d' []).row mb uid = x.row mb uid := rfl
      rw [hrow, hrx] at hry
      cases hry
    · have hem : (x.delete id' d' []).emails = x.emails.erase id' := rfl
      rw [hem, getElem?_erase_row] at he
      split_ifs at he
      rw [hd] at he
      obtain rfl := Option.some.inj he
      exact Or.inl ⟨rfl, rfl, rfl⟩

/-- The modseq an operation has taken out is above what the mailbox had when the operation began. -/
theorem Change.bumped (h : Change Γ present a g x y g') (hle : base ≤ x.modSeq mb)
    (hg : ∀ m, g (a, mb) = some m → base < m) : ∀ m, g' (a, mb) = some m → base < m := by
  cases h with
  | bump mb' hex =>
    intro m hm
    rw [Function.update_apply] at hm
    split_ifs at hm with heq
    · obtain rfl : mb = mb' := (Prod.mk.inj heq).2
      obtain rfl := Option.some.inj hm
      omega
    · exact hg m hm
  | mailbox | deliver | flags | remove | phantom => exact hg

theorem Change.bumped_other (h : Change Γ present a g x y g') {c : Nat} (hc : a ≠ c) :
    g' (c, mb) = g (c, mb) := by
  cases h with
  | bump mb' hex =>
    rw [Function.update_apply, if_neg]
    intro heq
    exact hc (Prod.mk.inj heq).1.symm
  | mailbox | deliver | flags | remove | phantom => rfl

/-- One step of an operation on a node. -/
theorem Step.announced {n n' : Node} (h : Step Γ g n n' g') (hn : n.Wf)
    (hle : base ≤ (n.kv.account a).modSeq mb) (hg : ∀ m, g (a, mb) = some m → base < m)
    (hidx : (n.kv.account a).nameIdx[name]? = some mb) (hl : Γ.loud name) :
    Announced base mb (n.kv.account a) (n'.kv.account a) ∧ ∀ m, g' (a, mb) = some m → base < m := by
  cases h with
  | quiet hq => exact ⟨by rw [hq.account]; exact Announced.of_same rfl rfl, hg⟩
  | change c y kv' ht hc =>
    obtain ⟨l, hacct⟩ := ht.account a
    rw [Node.kv_withKV, hacct]
    by_cases hca : c = a
    · subst hca
      rw [if_pos rfl]
      have hann := hc.announced (hn.account c) hg hidx hl
      exact ⟨⟨hann.gone, hann.flags⟩, hc.bumped hle hg⟩
    · rw [if_neg hca]
      exact ⟨Announced.of_same rfl rfl, fun m hm => hg m (by rwa [hc.bumped_other hca] at hm)⟩

end

/-! ### Runs of operations, one after another -/

/-- One operation at its time. -/
def Node.call (cfg : Config) (n : Node) (c : Nat × MailOp) : Node :=
  ((c.2.prog cfg).exec (n.setClock c.1)).1

/-- A run: operations with the times they are called at. -/
def Node.run (cfg : Config) (n : Node) (calls : List (Nat × MailOp)) : Node := calls.foldl (·.call cfg) n

/-- The listing of a mailbox, empty when there is none. -/
def present (account mailbox : Str) (n : Node) : List Message :=
  match ((listMessages account mailbox).exec n).2 with
  | .ok msgs => msgs
  | .error _ => []

/-- HIGHESTMODSEQ of a mailbox. -/
def highestModSeq (account mailbox : Str) (n : Node) : Nat :=
  match ((mailboxModSeq account mailbox).exec n).2 with
  | .ok (some m) => m
  | _ => 0

/-- What `ExpungedSince` returns. -/
def vanished (account mailbox : Str) (since : Nat) (n : Node) : List Nat :=
  match ((expungedSince account mailbox since).exec n).2 with
  | .ok uids => uids
  | .error _ => []

/-- A client that knows the mailbox at `p` learns at `q`, from the tombstones and modseqs above the
    HIGHESTMODSEQ it knows, what went and what changed. -/
def Complete (account mailbox : Str) (p q : Node) : Prop :=
  let m := highestModSeq account mailbox p
  let uids := fun n => (present account mailbox n).map (·.uid)
  (∀ uid ∈ uids p, uid ∉ uids q ↔ uid ∈ vanished account mailbox m q) ∧
  (∀ uid ∈ vanished account mailbox m q, uid ∉ uids q) ∧
  ∀ x ∈ present account mailbox p, ∀ y ∈ present account mailbox q,
    x.uid = y.uid → x.flags ≠ y.flags → m < y.modSeq

instance (account mailbox : Str) (p q : Node) : Decidable (Complete account mailbox p q) := by
  unfold Complete
  infer_instance

/-- The operation leaves a tombstone for every message it takes out of the mailbox: it is no `Move`
    with an empty UID list, or there is nothing to move. -/
def MailOp.tells (mailbox : Str) (n : Node) : MailOp → Bool
  | .move account src _ [] => src ≠ mailbox || present account src n = []
  | _ => true

/-- Every operation of the run leaves tombstones. -/
def steady (cfg : Config) (mailbox : Str) : Node → List (Nat × MailOp) → Bool
  | _, [] => true
  | n, c :: calls => c.2.tells mailbox n && steady cfg mailbox (n.call cfg c) calls

/-- The mailbox has given out fewer than 2^32 UIDs. -/
def uidsLeft (account mailbox : Str) (n : Node) : Bool :=
  (located n account mailbox).all fun p => (n.kv.account p.1).lastUID p.2 < 2 ^ 32

/-- An operation alone evolves the node. -/
theorem exec_evolves (cfg : Config) (op : MailOp) {n : Node} (hn : n.Wf) : Evolves n ((op.prog cfg).exec n).1 :=
  evolves_of_safe hn (safe_mailOp {} cfg op (fun _ _ h => h) (fun _ _ _ => trivial) (fun _ => none) hn)

/-- An operation alone announces what it changes in a mailbox that it does not empty silently. -/
theorem exec_announced (cfg : Config) {op : MailOp} {n : Node} (hn : n.Wf) {a mb : Nat} {name : Str}
    (hq : op.silent ≠ some name) (hidx : (n.kv.account a).nameIdx[name]? = some mb) :
    Announced ((n.kv.account a).modSeq mb) mb (n.kv.account a) (((op.prog cfg).exec n).1.kv.account a) := by
  have hsafe := safe_mailOp { loud := (· = name) } cfg op (fun src hs h => hq (by rw [hs, h]))
    (fun _ _ _ => trivial) (fun _ => none) hn
  let I : Bumped → Node → Prop := fun g t => Evolves n t ∧
    Announced ((n.kv.account a).modSeq mb) mb (n.kv.account a) (t.kv.account a) ∧
    ∀ m, g (a, mb) = some m → (n.kv.account a).modSeq mb < m
  have hstep : ∀ g s t g', I g s → Step { loud := (· = name) } g s t g' → I g' t := by
    rintro g s t g' ⟨hev, hann, hg⟩ hst
    have hev' := hst.evolves hev.wf
    obtain ⟨hann', hg'⟩ := hst.announced hev.wf ((hev.account a).modSeq mb) hg
      ((hev.account a).name name mb hidx) rfl
    exact ⟨hev.trans hev', hann.trans (hn.account a) (hev.wf.account a) (hev.account a)
      (hev'.account a) hann', hg'⟩
  obtain ⟨_, ⟨-, hann, -⟩, -⟩ := hsafe.exec (fun _ _ h => Evolves.refl h.1.wf) hstep
    ⟨Evolves.refl hn, Announced.of_same rfl rfl, by simp⟩
  exact hann

theorem present_eq {n : Node} (h : n.Wf) (account mailbox : Str) : present account mailbox n =
    ((located n account mailbox).map fun p =>
      (listing (n.kv.account p.1) p.2).map messageFromEmail).getD [] := by
  unfold present
  rw [exec_listMessages h]
  cases located n account mailbox <;> rfl

/-- Moving everything out of an empty mailbox does nothing. -/
theorem exec_move_empty (cfg : Config) {n : Node} (h : n.Wf) (account src dst : Str)
    (hnone : present account src n = []) : (((MailOp.move account src dst []).prog cfg).exec n).1 = n := by
  rw [present_eq h] at hnone
  simp only [MailOp.prog, effect, Prog.exec_attempt, Prog.exec_done, move]
  cases hl : located n account src with
  | none => rw [exec_resolve_bind_none h hl]
  | some p =>
    obtain ⟨a, mb⟩ := p
    rw [hl] at hnone
    have hempty : listing (n.kv.account a) mb = [] := List.map_eq_nil_iff.mp hnone
    rw [exec_resolve_bind h hl]
    simp only
    rw [Prog.exec_bind_ok (exec_mailboxEmails a mb n), hempty]
    rfl

theorem call_evolves (cfg : Config) {n : Node} (hn : n.Wf) (c : Nat × MailOp) : Evolves n (n.call cfg c) :=
  (Evolves.setClock hn c.1).trans (exec_evolves cfg c.2 (hn.setClock c.1))

/-- The step lemma: an operation that tells announces what it changes in the mailbox. -/
theorem call_announced (cfg : Config) {n : Node} (hn : n.Wf) {c : Nat × MailOp} {a mb : Nat}
    {mailbox : Str} (ht : c.2.tells mailbox n = true) (hidx : (n.kv.account a).nameIdx[mailbox]? = some mb) :
    Announced ((n.kv.account a).modSeq mb) mb (n.kv.account a) ((n.call cfg c).kv.account a) := by
  have hn' := hn.setClock c.1
  by_cases hs : c.2.silent = some mailbox
  · -- a move of everything: the source was empty
    obtain ⟨now, op⟩ := c
    cases op with
    | move account src dst uids =>
      cases uids with
      | cons => exact absurd hs (by simp [MailOp.silent])
      | nil =>
        obtain rfl : src = mailbox := by simpa [MailOp.silent] using hs
        have hnone : present account src (n.setClock now) = [] := by
          simp only [MailOp.tells, decide_not, ne_eq, decide_true, Bool.not_true, Bool.false_or,
            decide_eq_true_eq] at ht
          rw [present_eq hn']
          rw [present_eq hn] at ht
          exact ht
        have hcall : n.call cfg (now, .move account src dst []) = n.setClock now :=
          exec_move_empty cfg hn' account src dst hnone
        rw [hcall]
        exact Announced.of_same rfl rfl
    | _ => exact absurd hs (by simp [MailOp.silent])
  · exact exec_announced cfg hn' hs hidx

/-- The run lemma: a steady run announces what it changes in the mailbox. -/
theorem run_announced (cfg : Config) {mailbox : Str} {a mb : Nat} : ∀ (calls : List (Nat × MailOp))
    {n : Node}, n.Wf → steady cfg mailbox n calls = true →
    (n.kv.account a).nameIdx[mailbox]? = some mb → Evolves n (n.run cfg calls) ∧
    Announced ((n.kv.account a).modSeq mb) mb (n.kv.account a) ((n.run cfg calls).kv.account a)
  | [], n, hn, _, _ => ⟨Evolves.refl hn, Announced.of_same rfl rfl⟩
  | c :: calls, n, hn, hs, hidx => by
    rw [steady, Bool.and_eq_true] at hs
    have hev := call_evolves cfg hn c
    obtain ⟨hev', hann'⟩ := run_announced cfg calls hev.wf hs.2 ((hev.account a).name mailbox mb hidx)
    refine ⟨hev.trans hev', ?_⟩
    exact (call_announced cfg hn hs.1 hidx).trans (hn.account a) (hev.wf.account a) (hev.account a)
      (hev'.account a) (hann'.mono ((hev.account a).modSeq mb))

theorem run_wf (cfg : Config) : ∀ (calls : List (Nat × MailOp)) {n : Node}, n.Wf → (n.run cfg calls).Wf
  | [], _, hn => hn
  | c :: calls, _, hn => run_wf cfg calls (call_evolves cfg hn c).wf

/-! ### What the client sees -/

theorem u32_of_lt {n : Nat} (h : n < 2 ^ 32) : u32 n = n := Nat.mod_eq_of_lt h

section client
variable {n : Node} {account mailbox : Str} {a mb : Nat}

theorem mem_present (h : n.Wf) (hl : located n account mailbox = some (a, mb)) {x : Message} :
    x ∈ present account mailbox n ↔ ∃ (uid id : Nat) (d : EmailDoc),
      (n.kv.account a).row mb uid = some id ∧ (n.kv.account a).emails[id]? = some d ∧
      d.uid = some uid ∧ x = messageFromEmail (emailFromFields id d) := by
  rw [present_eq h, hl]
  simp only [Option.map_some, Option.getD_some, List.mem_map, mem_listing (h.account a)]
  constructor
  · rintro ⟨e, ⟨uid, id, d, hr, hd, hu, rfl⟩, rfl⟩
    exact ⟨uid, id, d, hr, hd, hu, rfl⟩
  · rintro ⟨uid, id, d, hr, hd, hu, rfl⟩
    exact ⟨_, ⟨uid, id, d, hr, hd, hu, rfl⟩, rfl⟩

/-- The UIDs of the listing are those of the index rows. -/
theorem mem_uids (h : n.Wf) (hl : located n account mailbox = some (a, mb))
    (hlt : (n.kv.account a).lastUID mb < 2 ^ 32) (uid : Nat) : uid ∈ (present account mailbox n).map (·.uid) ↔
      ∃ id, (n.kv.account a).row mb uid = some id := by
  have hu32 : ∀ u id : Nat, (n.kv.account a).row mb u = some id → u32 u = u := fun u id hr =>
    u32_of_lt (lt_of_le_of_lt ((h.account a).row_uid mb u id hr) hlt)
  simp only [List.mem_map, mem_present h hl]
  constructor
  · rintro ⟨x, ⟨u, id, d, hr, hd, hu, rfl⟩, rfl⟩
    refine ⟨id, ?_⟩
    simpa [messageFromEmail, emailFromFields, hu, hu32 u id hr] using hr
  · rintro ⟨id, hr⟩
    obtain ⟨d, hd, -, hu, -, -⟩ := (h.account a).row_doc mb uid id hr
    refine ⟨_, ⟨uid, id, d, hr, hd, hu, rfl⟩, ?_⟩
    simp [messageFromEmail, emailFromFields, hu, hu32 uid id hr]

/-- The UIDs `ExpungedSince` returns are those with a tombstone above the modseq. -/
theorem mem_vanished (h : n.Wf) (hl : located n account mailbox = some (a, mb))
    (hlt : (n.kv.account a).lastUID mb < 2 ^ 32) (since uid : Nat) : uid ∈ vanished account mailbox since n ↔
      ∃ m, since < m ∧ (n.kv.account a).tomb mb m uid = some uid := by
  have htomb : ∀ m u v : Nat, (n.kv.account a).tomb mb m u = some v → v = u ∧ u32 v = u := by
    intro m u v ht
    obtain ⟨rfl, hle, -⟩ := (h.account a).tomb_row mb m u v ht
    exact ⟨rfl, u32_of_lt (lt_of_le_of_lt hle hlt)⟩
  unfold vanished
  rw [exec_expungedSince h, hl]
  simp only [Option.map_some, Option.getD_some, List.mem_insertionSort, tombstonesSince, List.mem_map,
    List.mem_filter, mem_scan, decide_eq_true_eq]
  constructor
  · rintro ⟨⟨⟨m, u⟩, v⟩, ⟨ht, hm⟩, rfl⟩
    obtain ⟨rfl, hu⟩ := htomb m u v ht
    exact ⟨m, hm, by rw [hu]; exact ht⟩
  · rintro ⟨m, hm, ht⟩
    exact ⟨((m, uid), uid), ⟨ht, hm⟩, (htomb m uid uid ht).2⟩

theorem highestModSeq_eq (h : n.Wf) (hl : located n account mailbox = some (a, mb)) :
    highestModSeq account mailbox n = (n.kv.account a).modSeq mb := by
  obtain ⟨n', he, -, -⟩ := exec_mailboxModSeq h account mailbox
  unfold highestModSeq
  rw [he, hl]
  rfl

theorem uidsLeft_located (hl : located n account mailbox = some (a, mb))
    (h : uidsLeft account mailbox n = true) : (n.kv.account a).lastUID mb < 2 ^ 32 := by
  unfold uidsLeft at h
  rw [hl] at h
  simpa using h

/-- A tombstoned UID is not in the listing. -/
theorem not_present_of_vanished (h : n.Wf) (hu : uidsLeft account mailbox n = true) {since uid : Nat}
    (hv : uid ∈ vanished account mailbox since n) : uid ∉ (present account mailbox n).map (·.uid) := by
  cases hl : located n account mailbox with
  | none => simp [present_eq h, hl]
  | some p =>
    obtain ⟨a, mb⟩ := p
    have hlt := uidsLeft_located hl hu
    obtain ⟨m, -, ht⟩ := (mem_vanished h hl hlt since uid).mp hv
    rw [mem_uids h hl hlt, ((h.account a).tomb_row mb m uid uid ht).2.2]
    simp

end client

/-- COMPLETE: over every run whose operations leave tombstones, a client that knows the mailbox at the
    run's start learns all that went and changed. -/
theorem qresync_complete (cfg : Config) (account mailbox : Str) (before during : List (Nat × MailOp))
    (hs : steady cfg mailbox (Node.run cfg {} before) during = true)
    (hu : uidsLeft account mailbox ((Node.run cfg {} before).run cfg during) = true) :
    Complete account mailbox (Node.run cfg {} before) ((Node.run cfg {} before).run cfg during) := by
  have hp := run_wf cfg before wf_empty
  generalize Node.run cfg {} before = p at hs hu hp ⊢
  have hq := run_wf cfg during hp
  cases hl : located p account mailbox with
  | none =>
    have hnone : present account mailbox p = [] := by rw [present_eq hp, hl]; rfl
    exact ⟨by simp [hnone], fun uid hv => not_present_of_vanished hq hu hv, by simp [hnone]⟩
  | some l =>
    obtain ⟨a, mb⟩ := l
    obtain ⟨hev, hann⟩ := run_announced cfg during hp hs (located_eq_some.mp hl).2
    have hl' := hev.located hl
    have hltq := uidsLeft_located hl' hu
    have hltp := lt_of_le_of_lt ((hev.account a).lastUID mb) hltq
    unfold Complete
    rw [highestModSeq_eq hp hl]
    refine ⟨?_, fun uid hv => not_present_of_vanished hq hu hv, ?_⟩
    · intro uid hin
      obtain ⟨id, hr⟩ := (mem_uids hp hl hltp uid).mp hin
      refine ⟨fun habs => ?_, not_present_of_vanished hq hu⟩
      rw [mem_uids hq hl' hltq] at habs
      rw [mem_vanished hq hl' hltq]
      refine hann.gone uid id hr ?_
      cases hrq : ((p.run cfg during).kv.account a).row mb uid with
      | none => rfl
      | some id' => exact absurd ⟨id', hrq⟩ habs
    · intro x hx y hy huid hne
      obtain ⟨u, id, d, hr, hd, hdu, rfl⟩ := (mem_present hp hl).mp hx
      obtain ⟨u', id', e, hr', he, heu, rfl⟩ := (mem_present hq hl').mp hy
      have hwu := u32_of_lt (lt_of_le_of_lt ((hp.account a).row_uid mb u id hr) hltp)
      have hwu' := u32_of_lt (lt_of_le_of_lt ((hq.account a).row_uid mb u' id' hr') hltq)
      obtain rfl : u = u' := by
        simpa [messageFromEmail, emailFromFields, hdu, heu, hwu, hwu'] using huid
      -- the message is the same document at both points
      obtain rfl : id' = id := (((hp.account a).owns hr).grows (hev.account a)).row id' hr'
      rcases hann.flags u id' d e hr hr' hd he with ⟨h₁, h₂, -⟩ | hlt
      · refine absurd ?_ hne
        simp [messageFromEmail, emailFromFields, h₁, h₂]
      · exact hlt

/-- A `Move` of UID 1 leaves its tombstone. -/
theorem qresync_complete_moved :
    let alice := ascii "alice"
    let p := Node.run .plain {} [(0, .deliver alice inbox { data := ascii "hi" })]
    let moved : List (Nat × MailOp) := [(1, .move alice inbox (ascii "Trash") [1])]
    (steady .plain inbox p moved = true ∧ uidsLeft alice inbox (p.run .plain moved) = true) ∧
      Complete alice inbox p (p.run .plain moved) :=
  ⟨by decide +kernel, qresync_complete .plain (ascii "alice") inbox
    [(0, .deliver (ascii "alice") inbox { data := ascii "hi" })]
    [(1, .move (ascii "alice") inbox (ascii "Trash") [1])] (by decide +kernel) (by decide +kernel)⟩

/-- A `Move` with an empty UID list takes the message away and leaves none. -/
theorem qresync_move_all_untold :
    let alice := ascii "alice"
    let p := Node.run .plain {} [(0, .deliver alice inbox { data := ascii "hi" })]
    ¬Complete alice inbox p (p.run .plain [(1, .move alice inbox (ascii "Trash") [])]) := by
  decide +kernel

end Mailezine.Mailstore
