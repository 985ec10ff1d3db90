import Mailezine.Mailstore.Sequential

/-! The modseq as a version of the mailbox.

    The IMAP layer takes a mailbox whose modseq has not moved for a mailbox that has not changed. Here
    any number of operations and readers run at once, each one step at a time, and one reader reads the
    modseq and then the listing. LAWFUL: when the modseq is later still the one it read, the listing is
    still the one it got. The modseq is raised in one transaction and the change it stands for is
    written in a later one, so this needs that no operation stands between the two when the modseq is
    read. -/

namespace Mailezine.Mailstore
open Gostd Schemes Store List

/-! ### Operations and readers at once -/

/-- What may run: an operation, or a read of the version or of the listing. -/
inductive Job where
  | op (o : MailOp)
  | readVersion (account mailbox : Str)
  | readListing (account mailbox : Str)

/-- The program of a job. -/
def Job.prog (cfg : Config) : Job → Op Unit
  | .op o => o.prog cfg
  | .readVersion account mailbox => effect (mailboxModSeq account mailbox)
  | .readListing account mailbox => effect (listMessages account mailbox)

/-- A running job, with the mailboxes whose modseq it has raised so far without a delivery. -/
structure Thread where
  prog : Op Unit
  bumped : Nat × Nat → Bool := fun _ => false

/-- The step raised the mailbox's modseq and gave out no UID. -/
def raises (n n' : Node) (p : Nat × Nat) : Bool :=
  (n'.kv.account p.1).modSeq p.2 ≠ (n.kv.account p.1).modSeq p.2 &&
    (n'.kv.account p.1).lastUID p.2 = (n.kv.account p.1).lastUID p.2

/-- One step of a thread. -/
def Thread.step (t : Thread) (n : Node) : Node × Thread :=
  let s := t.prog.step n
  (s.1, { prog := s.2, bumped := fun p => t.bumped p || raises n s.1 p })

/-- The thread is finished, or has not raised the mailbox's modseq yet. -/
def Thread.quiet (p : Nat × Nat) (t : Thread) : Bool :=
  match t.prog with
  | .done _ => true
  | .act _ _ => !t.bumped p

/-- The reader: it reads the version, then the listing. -/
inductive Reader where
  | version (p : Op (Option Nat))
  | listing (m : Nat) (p : Op (List Message))
  | done (m : Nat) (msgs : List Message)
  | failed

/-- The reader after a step of its first read. -/
def Reader.afterVersion (account mailbox : Str) : Op (Option Nat) → Reader
  | .done (.ok (some m)) => .listing m (listMessages account mailbox)
  | .done _ => .failed
  | p => .version p

/-- The reader after a step of its second read. -/
def Reader.afterListing (m : Nat) : Op (List Message) → Reader
  | .done (.ok msgs) => .done m msgs
  | .done (.error _) => .failed
  | p => .listing m p

/-- One step of the reader. -/
def Reader.step (account mailbox : Str) (n : Node) : Reader → Node × Reader
  | .version p => ((p.step n).1, .afterVersion account mailbox (p.step n).2)
  | .listing m p => ((p.step n).1, .afterListing m (p.step n).2)
  | .done m msgs => (n, .done m msgs)
  | .failed => (n, .failed)

/-- The store, what runs on it, and the reader. -/
structure System where
  node : Node
  threads : List Thread
  reader : Reader

/-- What happens next: time passes, a job starts, a thread takes a step, the reader takes a step. -/
inductive Action where
  | tick (now : Nat)
  | start (job : Job)
  | advance (i : Nat)
  | read

/-- Let thread `i` take a step. -/
def System.advance (σ : System) (i : Nat) : System :=
  match σ.threads[i]? with
  | some t => { σ with node := (t.step σ.node).1, threads := σ.threads.set i (t.step σ.node).2 }
  | none => σ

/-- One action. -/
def System.step (cfg : Config) (account mailbox : Str) (σ : System) : Action → System
  | .tick now => { σ with node := σ.node.setClock now }
  | .start job => { σ with threads := σ.threads ++ [{ prog := job.prog cfg }] }
  | .advance i => σ.advance i
  | .read => { σ with
      node := (σ.reader.step account mailbox σ.node).1
      reader := (σ.reader.step account mailbox σ.node).2 }

/-- A run. -/
def System.run (cfg : Config) (account mailbox : Str) (σ : System) (acts : List Action) : System :=
  acts.foldl (·.step cfg account mailbox) σ

/-- An empty store and a reader that has not begun. -/
def System.initial (account mailbox : Str) : System :=
  ⟨{}, [], .version (mailboxModSeq account mailbox)⟩

/-- If the modseq is still the one the reader read, the listing is still the one it got. -/
def System.lawful (account mailbox : Str) (σ : System) : Prop :=
  match σ.reader with
  | .done m msgs => ((mailboxModSeq account mailbox).exec σ.node).2 = .ok (some m) →
      ((listMessages account mailbox).exec σ.node).2 = .ok msgs
  | _ => True

instance (account mailbox : Str) (σ : System) : Decidable (σ.lawful account mailbox) := by
  unfold System.lawful
  cases σ.reader <;> infer_instance

/-- The step with which the reader has read the modseq. -/
def Reader.reads (account mailbox : Str) (n : Node) (r : Reader) : Bool :=
  match r, (r.step account mailbox n).2 with
  | .version _, .listing _ _ => true
  | _, _ => false

/-- No `Move` with an empty UID list out of the mailbox is started, and when the reader reads the
    modseq no thread stands between raising it and its end. -/
def System.allows (account mailbox : Str) (σ : System) : Action → Bool
  | .start (.op o) => o.silent ≠ some mailbox
  | .read => !σ.reader.reads account mailbox σ.node ||
      (located (σ.reader.step account mailbox σ.node).1 account mailbox).all fun p =>
        σ.threads.all (Thread.quiet p)
  | _ => true

/-- Every action of the run is allowed. -/
def System.steady (cfg : Config) (account mailbox : Str) : System → List Action → Bool
  | _, [] => true
  | σ, act :: acts => σ.allows account mailbox act &&
      (σ.step cfg account mailbox act).steady cfg account mailbox acts

/-! ### What a step leaves of a mailbox's view -/

section view
variable {Γ : Scope} {present : Str → Prop} {a mb : Nat} {g g' : Bumped} {x y : Account}
  {name : Str} {n n' : Node}

/-- A step of an operation that has not raised a loud mailbox's modseq leaves its view as it is, or
    raises the modseq. -/
theorem Change.sameView (h : Change Γ present a g x y g') (hx : x.Wf) (hg : g (a, mb) = none)
    (hidx : x.nameIdx[name]? = some mb) (hl : Γ.loud name) : SameView mb x y ∨ x.modSeq mb < y.modSeq mb := by
  cases h with
  | mailbox nm hnew => exact Or.inl ⟨rfl, fun _ _ _ => rfl⟩
  | bump mb' hex =>
    by_cases hmb : mb' = mb
    · subst hmb
      exact Or.inr (by rw [modSeq_bump, if_pos rfl]; omega)
    · exact Or.inl ⟨rfl, fun _ _ _ => rfl⟩
  | deliver r b hex hb hp =>
    by_cases hmb : r.mailboxID = mb
    · exact Or.inr (by rw [modSeq_delivered, if_pos hmb]; omega)
    · refine Or.inl ⟨?_, fun uid id hr => ?_⟩
      · exact Function.update_of_ne (fun e => hmb e.symm) _ _
      · have := (hx.owns hr).id_le
        rw [hx.emails_delivered, if_neg (by omega)]
  | flags mb' m docs hgm hm hdocs =>
    refine Or.inl ⟨by rw [emailIdx_updateEmails], fun uid id hr => ?_⟩
    refine emails_updateEmails_other docs x id fun hin => ?_
    obtain ⟨u, hu, rfl⟩ := List.mem_map.mp hin
    obtain ⟨⟨uid', ho, -⟩, -⟩ := hdocs u hu
    obtain ⟨rfl, -⟩ := ho.only mb uid hr
    rw [hg] at hgm
    cases hgm
  | remove mb' uid' id' d' tomb ho hd' hgm hq =>
    have hmb : mb' ≠ mb := by
      rintro rfl
      cases tomb with
      | none =>
        obtain ⟨md, nm, hmd, hnm, hnl⟩ := hq rfl
        obtain ⟨md', hmd', hnm'⟩ := hx.name_mailbox name mb' hidx
        obtain rfl := Option.mem_unique hmd hmd'
        obtain rfl := Option.mem_unique hnm hnm'
        exact hnl hl
      | some m =>
        have := hgm m rfl
        rw [hg] at this
        cases this
    refine Or.inl ⟨?_, fun uid id hr => ?_⟩
    · cases tomb <;> exact Function.update_of_ne (fun e => hmb e.symm) _ _
    · rw [emails_delete, if_neg]
      rintro rfl
      exact hmb (ho.only mb uid hr).1.symm
  | phantom id' d' hp hd' =>
    refine Or.inl ⟨rfl, fun uid id hr => ?_⟩
    have hem : (x.delete id' d' []).emails = x.emails.erase id' := rfl
    rw [hem, getElem?_erase_row, if_neg]
    rintro rfl
    obtain ⟨d, hd, -, hu, -⟩ := hx.row_doc mb uid id' hr
    rw [hp.2 d hd] at hu
    cases hu

theorem Step.sameView (h : Step Γ g n n' g') (hn : n.Wf) (hg : g (a, mb) = none)
    (hidx : (n.kv.account a).nameIdx[name]? = some mb) (hl : Γ.loud name) :
    SameView mb (n.kv.account a) (n'.kv.account a) ∨
      (n.kv.account a).modSeq mb < (n'.kv.account a).modSeq mb := by
  cases h with
  | quiet hq => exact Or.inl (by rw [hq.account]; exact SameView.refl mb _)
  | change c y kv' ht hc =>
    obtain ⟨l, hacct⟩ := ht.account a
    rw [Node.kv_withKV, hacct]
    by_cases hca : c = a
    · subst hca
      rw [if_pos rfl]
      exact (hc.sameView (hn.account c) hg hidx hl).imp (fun h => ⟨h.rows, h.docs⟩) id
    · rw [if_neg hca]
      exact Or.inl ⟨rfl, fun _ _ _ => rfl⟩

/-- An operation that takes out a modseq is seen to raise it. -/
theorem Step.unbumped (h : Step Γ g n n' g') {p : Nat × Nat} (hg : g p = none)
    (hr : raises n n' p = false) : g' p = none := by
  cases h with
  | quiet _ => exact hg
  | change c y kv' ht hc =>
    obtain ⟨l, hacct⟩ := ht.account p.1
    cases hc with
    | bump mb hex =>
      rw [Function.update_apply]
      split_ifs with hp
      · subst hp
        rw [if_pos rfl] at hacct
        simp only [raises, Node.kv_withKV, hacct] at hr
        have hm : ((n.kv.account c).bump mb ((n.kv.account c).modSeq mb + 1) |>.withLinks l).modSeq mb =
            (n.kv.account c).modSeq mb + 1 := (modSeq_bump mb).trans (if_pos rfl)
        rw [hm] at hr
        simp [Account.bump] at hr
      · exact hg
    | mailbox | deliver | flags | remove | phantom => exact hg

end view

/-! ### The threads -/

/-- A thread keeps to the steps, and what it has raised shows in its record. -/
def ThreadInv (mailbox : Str) (n : Node) (t : Thread) : Prop :=
  ∃ g : Bumped, Prog.Safe Evolves (Step { loud := (· = mailbox) }) (fun _ _ _ => True) g t.prog n ∧
    ∀ p, t.bumped p = false → g p = none

section threads
variable {mailbox : Str} {n n' : Node} {t : Thread} {a mb : Nat}

section
variable (h : ThreadInv mailbox n t)
include h

theorem ThreadInv.evolves (hev : Evolves n n') : ThreadInv mailbox n' t := by
  obtain ⟨g, hs, hg⟩ := h
  exact ⟨g, hs.rely (fun u hu => hev.trans hu) (fun _ _ _ => trivial), hg⟩

/-- A step of a thread, seen from the node and from the thread. -/
theorem ThreadInv.step_cases (hn : n.Wf) :
    ((t.step n).1 = n ∧ ∃ r, (t.step n).2.prog = .done r) ∨
    ∃ g g', Step { loud := (· = mailbox) } g n (t.step n).1 g' ∧ (∀ p, t.bumped p = false → g p = none) ∧
      Prog.Safe Evolves (Step { loud := (· = mailbox) }) (fun _ _ _ => True) g' (t.step n).2.prog (t.step n).1 := by
  obtain ⟨g, hs, hg⟩ := h
  unfold Thread.step
  rcases hs.step (Evolves.refl hn) with ⟨r, hr, -⟩ | ⟨g', hstep, hs'⟩
  · exact Or.inl (by simp [hr, Prog.step])
  · exact Or.inr ⟨g, g', hstep, hg, hs'⟩

theorem ThreadInv.step (hn : n.Wf) :
    Evolves n (t.step n).1 ∧ ThreadInv mailbox (t.step n).1 (t.step n).2 := by
  rcases h.step_cases hn with ⟨hnode, r, hr⟩ | ⟨g, g', hstep, hg, hs'⟩
  · refine ⟨by rw [hnode]; exact Evolves.refl hn, fun _ => none, ?_, fun _ _ => rfl⟩
    rw [hr]
    trivial
  · refine ⟨hstep.evolves hn, g', hs', fun p hp => ?_⟩
    obtain ⟨hb, hr⟩ := Bool.or_eq_false_iff.mp hp
    exact hstep.unbumped (hg p hb) hr

/-- A step of a quiet thread leaves the mailbox's view as it is and stays quiet, or raises the
    modseq. -/
theorem ThreadInv.step_quiet (hn : n.Wf)
    (hidx : (n.kv.account a).nameIdx[mailbox]? = some mb) (hq : t.quiet (a, mb) = true) :
    (SameView mb (n.kv.account a) ((t.step n).1.kv.account a) ∧ (t.step n).2.quiet (a, mb) = true) ∨
    (n.kv.account a).modSeq mb < ((t.step n).1.kv.account a).modSeq mb := by
  rcases h.step_cases hn with ⟨hnode, r, hr⟩ | ⟨g, g', hstep, hg, -⟩
  · left
    rw [hnode]
    exact ⟨SameView.refl mb _, by simp [Thread.quiet, hr]⟩
  have hle := ((hstep.evolves hn).account a).modSeq mb
  unfold Thread.quiet at hq
  cases hp : t.prog with
  | done r =>
    have hnode : (t.step n).1 = n := by simp [Thread.step, hp, Prog.step]
    left
    rw [hnode]
    exact ⟨SameView.refl mb _, by simp [Thread.quiet, Thread.step, hp, Prog.step]⟩
  | act f k =>
    rw [hp] at hq
    have hb : t.bumped (a, mb) = false := by simpa using hq
    rcases hstep.sameView hn (hg (a, mb) hb) hidx rfl with hv | hlt
    · by_cases hr : raises n (t.step n).1 (a, mb) = true
      · right
        have hne : ((t.step n).1.kv.account a).modSeq mb ≠ (n.kv.account a).modSeq mb := by
          simp only [raises, Bool.and_eq_true, decide_eq_true_eq] at hr
          exact hr.1
        omega
      · left
        refine ⟨hv, ?_⟩
        have hbumped : (t.step n).2.bumped (a, mb) = false := by
          change (t.bumped (a, mb) || raises n (t.step n).1 (a, mb)) = false
          simp [hb, hr]
        unfold Thread.quiet
        split
        · rfl
        · simp [hbumped]
    · exact Or.inr hlt

end

end threads

/-! ### The reader -/

section reader
variable {account mailbox : Str} {n n' : Node} {a mb : Nat} {g : Bumped}

/-- Other steps while the view of the mailbox stays. -/
def Still (a mb : Nat) (s t : Node) : Prop :=
  Evolves s t ∧ SameView mb (s.kv.account a) (t.kv.account a)

theorem Still.refl (h : n.Wf) : Still a mb n n := ⟨Evolves.refl h, SameView.refl mb _⟩

theorem Still.trans {s t u : Node} (h : Still a mb s t) (h' : Still a mb t u) : Still a mb s u :=
  ⟨h.1.trans h'.1, h.2.trans h'.2⟩

/-- The listing read while the view stays: it writes nothing and gets the view's listing. -/
theorem scan_listMessages {x : Account} (hl : located n account mailbox = some (a, mb))
    (hx : SameView mb x (n.kv.account a)) : Prog.Safe (Still a mb) (fun (_ : Unit) s t _ => s = t)
      (fun _ r _ => r = .ok ((listing x mb).map messageFromEmail)) () (listMessages account mailbox) n := by
  obtain ⟨ha, hmb⟩ := located_eq_some.mp hl
  refine Prog.Safe.bind (Prog.Safe.bind (scan_getE (fun _ _ => rfl) fun t₁ h₁ => ?_))
  rw [accountByEmail_eq, h₁.1.registry account a ha]
  refine Prog.Safe.bind (Prog.Safe.bind (scan_get (fun _ _ => rfl) fun t₂ h₂ => ?_))
  have hidx₂ := ((h₁.trans h₂).1.account a).name mailbox mb hmb
  simp only
  rw [hidx₂]
  refine Prog.Safe.bind (scan_get (fun _ _ => rfl) fun t₃ h₃ => ?_)
  obtain ⟨d, hd, hn⟩ := (h₃.1.wf.account a).name_mailbox mailbox mb ((h₃.1.account a).name _ _ hidx₂)
  simp only
  rw [hd]
  simp only [hn, Option.getD_some, if_true]
  refine Prog.Safe.bind (scan_mailboxEmails (I := fun t => SameView mb x (t.kv.account a))
    (fun _ ht => ht) (fun s t hs hst => hs.trans hst.2) (fun _ _ => rfl)
    (hx.trans (h₁.trans (h₂.trans h₃)).2) fun u _ => ?_)
  rfl

/-- The reader's part of the invariant: once it has read the modseq, no thread stands in between as
    long as the modseq stays, so what it reads then is one view. -/
def ReaderInv (account mailbox : Str) (n : Node) (threads : List Thread) : Reader → Prop
  | .version p => (∀ r, p ≠ .done r) ∧ ∃ g, Prog.Safe Evolves (Step { loud := (· = mailbox) })
      (fun _ r t => ∀ m, r = .ok (some m) → ∃ a mb, located t account mailbox = some (a, mb) ∧
        (t.kv.account a).modSeq mb = m) g p n
  | .listing m p => ∃ a mb, located n account mailbox = some (a, mb) ∧
      m ≤ (n.kv.account a).modSeq mb ∧
      (∃ g, Prog.Safe Evolves (Step { loud := (· = mailbox) }) (fun _ _ _ => True) g p n) ∧
      ((n.kv.account a).modSeq mb = m → (∀ t ∈ threads, t.quiet (a, mb) = true) ∧
        Prog.Safe (Still a mb) (fun (_ : Unit) s t _ => s = t)
          (fun _ r _ => r = .ok ((listing (n.kv.account a) mb).map messageFromEmail)) () p n)
  | .done m msgs => ∃ a mb, located n account mailbox = some (a, mb) ∧
      m ≤ (n.kv.account a).modSeq mb ∧
      ((n.kv.account a).modSeq mb = m → (∀ t ∈ threads, t.quiet (a, mb) = true) ∧
        msgs = (listing (n.kv.account a) mb).map messageFromEmail)
  | .failed => True

/-- What happens around the reader: the node evolves, and where every thread was quiet the view stays
    and they are still quiet, or the modseq rises. -/
structure Around (account mailbox : Str) (n : Node) (threads : List Thread) (n' : Node)
    (threads' : List Thread) : Prop where
  evolves : Evolves n n'
  quiet : ∀ a mb, located n account mailbox = some (a, mb) →
    (∀ t ∈ threads, t.quiet (a, mb) = true) →
    (SameView mb (n.kv.account a) (n'.kv.account a) ∧ ∀ t ∈ threads', t.quiet (a, mb) = true) ∨
    (n.kv.account a).modSeq mb < (n'.kv.account a).modSeq mb

theorem ReaderInv.around {threads threads' : List Thread} {r : Reader}
    (h : ReaderInv account mailbox n threads r) (ha : Around account mailbox n threads n' threads') :
    ReaderInv account mailbox n' threads' r := by
  cases r with
  | version p =>
    obtain ⟨hact, g, hs⟩ := h
    cases p with
    | done r => exact absurd rfl (hact r)
    | act f k => exact ⟨hact, g, fun u hu => hs u (ha.evolves.trans hu)⟩
  | listing m p =>
    obtain ⟨a, mb, hl, hle, ⟨g, hs⟩, hq⟩ := h
    have hmono := (ha.evolves.account a).modSeq mb
    refine ⟨a, mb, ha.evolves.located hl, hle.trans hmono,
      ⟨g, hs.rely (fun u hu => ha.evolves.trans hu) fun _ _ _ => trivial⟩, fun heq => ?_⟩
    obtain ⟨hquiet, hscan⟩ := hq (by omega)
    rcases ha.quiet a mb hl hquiet with ⟨hv, hquiet'⟩ | hlt
    · refine ⟨hquiet', ?_⟩
      rw [hv.listing]
      exact hscan.rely (fun u hu => Still.trans ⟨ha.evolves, hv⟩ hu) fun _ _ hr => hr
    · omega
  | done m msgs =>
    obtain ⟨a, mb, hl, hle, hq⟩ := h
    have hmono := (ha.evolves.account a).modSeq mb
    refine ⟨a, mb, ha.evolves.located hl, hle.trans hmono, fun heq => ?_⟩
    obtain ⟨hquiet, hmsgs⟩ := hq (by omega)
    rcases ha.quiet a mb hl hquiet with ⟨hv, hquiet'⟩ | hlt
    · exact ⟨hquiet', by rw [hv.listing]; exact hmsgs⟩
    · omega
  | failed => trivial

end reader

/-! ### The system -/

/-- The invariant of a run. -/
structure System.Inv (account mailbox : Str) (σ : System) : Prop where
  wf : σ.node.Wf
  threads : ∀ t ∈ σ.threads, ThreadInv mailbox σ.node t
  reader : ReaderInv account mailbox σ.node σ.threads σ.reader

section system
variable {cfg : Config} {account mailbox : Str} {σ : System}

theorem safe_job {job : Job} (hq : ∀ o, job = .op o → o.silent ≠ some mailbox) {n : Node} (hn : n.Wf) :
    Prog.Safe Evolves (Step { loud := (· = mailbox) }) (fun _ _ _ => True) (fun _ => none) (job.prog cfg) n := by
  cases job with
  | op o =>
    refine safe_mailOp _ cfg o (fun src hs h => hq o rfl ?_) (fun _ _ _ => trivial) _ hn
    rw [hs, h]
  | readVersion account mailbox =>
    exact Prog.Safe.attempt ((steps _).mailboxModSeq fun _ _ _ _ => trivial)
  | readListing account mailbox => exact Prog.Safe.attempt ((steps _).listMessages fun _ _ _ => trivial)

section
variable (h : σ.Inv account mailbox)
include h

theorem System.Inv.tick (now : Nat) :
    (σ.step cfg account mailbox (.tick now)).Inv account mailbox := by
  have hev := Evolves.setClock h.wf now
  refine ⟨hev.wf, fun t ht => (h.threads t ht).evolves hev, h.reader.around ⟨hev, ?_⟩⟩
  exact fun a mb _ hq => Or.inl ⟨SameView.refl mb _, hq⟩

theorem System.Inv.start {job : Job}
    (hq : ∀ o, job = .op o → o.silent ≠ some mailbox) :
    (σ.step cfg account mailbox (.start job)).Inv account mailbox := by
  refine ⟨h.wf, fun t ht => ?_, h.reader.around ⟨Evolves.refl h.wf, fun a mb _ hquiet => ?_⟩⟩
  · rcases mem_append.mp ht with ht | ht
    · exact h.threads t ht
    · obtain rfl := mem_singleton.mp ht
      exact ⟨_, safe_job hq h.wf, fun _ _ => rfl⟩
  · refine Or.inl ⟨SameView.refl mb _, fun t ht => ?_⟩
    rcases mem_append.mp ht with ht | ht
    · exact hquiet t ht
    · obtain rfl := mem_singleton.mp ht
      unfold Thread.quiet
      split <;> rfl

theorem System.Inv.advance (i : Nat) : (σ.advance i).Inv account mailbox := by
  unfold System.advance
  cases hi : σ.threads[i]? with
  | none => exact h
  | some t =>
    have ht := h.threads t (mem_of_getElem? hi)
    obtain ⟨hev, ht'⟩ := ht.step h.wf
    have hmem : ∀ u ∈ σ.threads.set i (t.step σ.node).2, u ∈ σ.threads ∨ u = (t.step σ.node).2 :=
      fun u hu => mem_or_eq_of_mem_set hu
    refine ⟨hev.wf, fun u hu => ?_, h.reader.around ⟨hev, fun a mb hl hquiet => ?_⟩⟩
    · rcases hmem u hu with hu | rfl
      · exact (h.threads u hu).evolves hev
      · exact ht'
    · rcases ht.step_quiet h.wf (located_eq_some.mp hl).2 (hquiet t (mem_of_getElem? hi)) with
        ⟨hv, hq⟩ | hlt
      · refine Or.inl ⟨hv, fun u hu => ?_⟩
        rcases hmem u hu with hu | rfl
        · exact hquiet u hu
        · exact hq
      · exact Or.inr hlt

/-- The reader's own step evolves the node and leaves the threads as they are. -/
theorem System.Inv.read_version {p : Op (Option Nat)} (hr : σ.reader = .version p)
    (hq : σ.reader.reads account mailbox σ.node = true → ∀ q,
      located (σ.reader.step account mailbox σ.node).1 account mailbox = some q →
      ∀ t ∈ σ.threads, t.quiet q = true) : (σ.step cfg account mailbox .read).Inv account mailbox := by
  have hinv := h.reader
  rw [hr] at hinv
  obtain ⟨hact, g, hs⟩ := hinv
  obtain ⟨g', hstep, hs'⟩ := (hs.step (Evolves.refl h.wf)).resolve_left
    fun ⟨r, he, _⟩ => hact r he
  have hev := hstep.evolves h.wf
  have hreads : ∀ m, (p.step σ.node).2 = .done (.ok (some m)) →
      σ.reader.reads account mailbox σ.node = true := by
    intro m hm
    rw [hr]
    simp [Reader.reads, Reader.step, hm, Reader.afterVersion]
  simp only [hr, Reader.step] at hq hreads
  simp only [System.step, hr, Reader.step]
  refine ⟨hev.wf, fun t ht => (h.threads t ht).evolves hev, ?_⟩
  simp only
  cases hp : (p.step σ.node).2 with
  | act f k => exact ⟨fun r => by simp, g', by rw [← hp]; exact hs'⟩
  | done r =>
    rw [hp] at hs'
    rcases r with e | (_ | m)
    · trivial
    · trivial
    · obtain ⟨a, mb, hl, hm⟩ := hs' m rfl
      refine ⟨a, mb, hl, hm.ge, ⟨g', (steps _).listMessages fun _ _ _ => trivial⟩, fun _ => ?_⟩
      exact ⟨hq (hreads m hp) (a, mb) hl, scan_listMessages hl (SameView.refl mb _)⟩

theorem System.Inv.read_listing {m : Nat} {p : Op (List Message)}
    (hr : σ.reader = .listing m p) : (σ.step cfg account mailbox .read).Inv account mailbox := by
  have hinv := h.reader
  rw [hr] at hinv
  obtain ⟨a, mb, hl, hle, ⟨g, hs⟩, hq⟩ := hinv
  have hown : Evolves σ.node (p.step σ.node).1 ∧
      ∃ g', Prog.Safe Evolves (Step { loud := (· = mailbox) }) (fun _ _ _ => True) g' (p.step σ.node).2
        (p.step σ.node).1 := by
    rcases hs.step (Evolves.refl h.wf) with ⟨r, rfl, -⟩ | ⟨g', hstep, hs'⟩
    · exact ⟨Evolves.refl h.wf, g, trivial⟩
    · exact ⟨hstep.evolves h.wf, g', hs'⟩
  obtain ⟨hev, hsafe⟩ := hown
  have hmono := (hev.account a).modSeq mb
  -- while the modseq stays the step is a mere read
  have hstill : ((p.step σ.node).1.kv.account a).modSeq mb = m →
      (p.step σ.node).1 = σ.node ∧ (∀ t ∈ σ.threads, t.quiet (a, mb) = true) ∧
      Prog.Safe (Still a mb) (fun (_ : Unit) s t _ => s = t)
        (fun _ r _ => r = .ok ((listing (σ.node.kv.account a) mb).map messageFromEmail)) ()
        (p.step σ.node).2 σ.node := by
    intro heq
    obtain ⟨hquiet, hscan⟩ := hq (by omega)
    rcases hscan.step (Still.refl h.wf) with ⟨r, rfl, hres⟩ | ⟨_, hsame, hscan'⟩
    · exact ⟨rfl, hquiet, hres⟩
    · exact ⟨hsame.symm, hquiet, by rw [← hsame] at hscan'; exact hscan'⟩
  simp only [System.step, hr, Reader.step]
  refine ⟨hev.wf, fun t ht => (h.threads t ht).evolves hev, ?_⟩
  simp only
  cases hp : (p.step σ.node).2 with
  | act f k =>
    refine ⟨a, mb, hev.located hl, hle.trans hmono, by rw [← hp]; exact hsafe, fun heq => ?_⟩
    obtain ⟨hnode, hquiet, hscan⟩ := hstill heq
    rw [hnode, ← hp]
    exact ⟨hquiet, hscan⟩
  | done r =>
    cases r with
    | error e => trivial
    | ok msgs =>
      refine ⟨a, mb, hev.located hl, hle.trans hmono, fun heq => ?_⟩
      obtain ⟨hnode, hquiet, hscan⟩ := hstill heq
      rw [hp] at hscan
      rw [hnode]
      exact ⟨hquiet, Except.ok.inj hscan⟩

/-- The step lemma: every allowed action keeps the invariant. -/
theorem System.Inv.step {act : Action}
    (ha : σ.allows account mailbox act = true) : (σ.step cfg account mailbox act).Inv account mailbox := by
  cases act with
  | tick now => exact h.tick now
  | advance i => exact h.advance i
  | start job =>
    refine h.start fun o ho => ?_
    subst ho
    simpa [System.allows] using ha
  | read =>
    cases hr : σ.reader with
    | version p =>
      refine h.read_version hr fun hreads q hq t ht => ?_
      simp only [System.allows, hreads, Bool.not_true, Bool.false_or, hq, Option.all_some,
        List.all_eq_true] at ha
      exact ha t ht
    | listing m p => exact h.read_listing hr
    | done m msgs =>
      have : σ.step cfg account mailbox .read = σ := by
        cases σ; simp only at hr; subst hr; rfl
      rw [this]; exact h
    | failed =>
      have : σ.step cfg account mailbox .read = σ := by
        cases σ; simp only at hr; subst hr; rfl
      rw [this]; exact h

end

/-- The run lemma. -/
theorem System.Inv.run : ∀ (acts : List Action) {σ : System}, σ.Inv account mailbox →
    σ.steady cfg account mailbox acts = true → (σ.run cfg account mailbox acts).Inv account mailbox
  | [], _, h, _ => h
  | act :: acts, σ, h, hs => by
    rw [System.steady, Bool.and_eq_true] at hs
    exact System.Inv.run acts (h.step hs.1) hs.2

theorem System.Inv.initial (account mailbox : Str) : (System.initial account mailbox).Inv account mailbox := by
  refine ⟨wf_empty, by simp [System.initial], fun r => ?_, fun _ => none, ?_⟩
  · intro h
    change Prog.act _ _ = _ at h
    cases h
  · exact (steps _).mailboxModSeq fun t r _ hr m hm => hr m (Except.ok.inj hm)

theorem System.Inv.lawful (h : σ.Inv account mailbox) : σ.lawful account mailbox := by
  unfold System.lawful
  have hinv := h.reader
  cases hr : σ.reader with
  | version p => trivial
  | listing m p => trivial
  | failed => trivial
  | done m msgs =>
    rw [hr] at hinv
    obtain ⟨a, mb, hl, -, hq⟩ := hinv
    intro hm
    obtain ⟨n', he, -, -⟩ := exec_mailboxModSeq h.wf account mailbox
    rw [he, hl] at hm
    have hseq : (σ.node.kv.account a).modSeq mb = m := by simpa using hm
    rw [exec_listMessages h.wf, hl, (hq hseq).2]
    rfl

end system

/-- LAWFUL: in every steady interleaving, a modseq that is again what the reader read stands for the
    listing that it got. -/
theorem version_law (cfg : Config) (account mailbox : Str) (acts : List Action)
    (h : (System.initial account mailbox).steady cfg account mailbox acts = true) :
    ((System.initial account mailbox).run cfg account mailbox acts).lawful account mailbox :=
  (System.Inv.run acts (System.Inv.initial account mailbox) h).lawful

/-- A delivery, then a `SetFlags` that has found its message and not raised the modseq yet, and then
    the whole read. -/
theorem version_law_before_bump :
    let alice := ascii "alice"
    let acts : List Action := [.start (.op (.deliver alice inbox { data := ascii "hi" }))] ++
      List.replicate 11 (.advance 0) ++ [.start (.op (.setFlags alice inbox 1 [flagSeen]))] ++
      List.replicate 5 (.advance 1) ++ List.replicate 13 .read
    (System.initial alice inbox).steady .plain alice inbox acts = true ∧
      ((System.initial alice inbox).run .plain alice inbox acts).lawful alice inbox :=
  ⟨by decide +kernel, version_law .plain (ascii "alice") inbox _ (by decide +kernel)⟩

/-- A `SetFlags` that has raised the modseq and not written the flags: the reader gets the new modseq
    with the old flags, and the write that follows does not move the modseq again. -/
theorem version_law_broken_after_bump :
    let alice := ascii "alice"
    let acts : List Action := [.start (.op (.deliver alice inbox { data := ascii "hi" }))] ++
      List.replicate 11 (.advance 0) ++ [.start (.op (.setFlags alice inbox 1 [flagSeen]))] ++
      List.replicate 6 (.advance 1) ++ List.replicate 13 .read ++ [.advance 1]
    ¬((System.initial alice inbox).run .plain alice inbox acts).lawful alice inbox := by
  decide +kernel

end Mailezine.Mailstore
