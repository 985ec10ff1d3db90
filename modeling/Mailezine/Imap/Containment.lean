import Mailezine.Imap.Sequential
import Mailezine.Mailstore.Qresync

/-! What a command with a number set may touch.

    UID EXPUNGE, COPY and MOVE resolve their set against the session snapshot and hand the UIDs to the
    mailstore, for which an empty list is no filter. CONTAINED: a command touches only messages of its
    set, and nothing at all when the set resolves to nothing. `contained_iff` says exactly when: the
    set resolves to something, or an unfiltered call would find nothing to do. -/

namespace Mailezine.Imap
open Gostd Schemes Store Mailstore Imapnum

/-- The commands whose set is resolved to a UID list for the mailstore. -/
inductive SetCommand where
  | uidExpunge (uids : List Range)
  | copy (set : NumSet) (dest : Str)
  | move (set : NumSet) (dest : Str)

namespace SetCommand

/-- The command of a session. -/
def prog (cfg : Config) (qresync : Bool) (s : Session) : SetCommand → Cmd Unit
  | .uidExpunge uids => expunge qresync s (some uids)
  | .copy set dest => Imap.copy cfg s set dest >>= fun _ => pure ()
  | .move set dest => Imap.move cfg qresync s set dest >>= fun _ => pure ()

/-- The UID list that the set resolves to. -/
def resolved (s : Session) : SetCommand → List Nat
  | .uidExpunge uids => expungeList s (some uids)
  | .copy set _ => resolveUIDs s set
  | .move set _ => resolveUIDs s set

/-- A UID that the set names: by itself, or as that of a message of the snapshot. -/
def Addresses (s : Session) : SetCommand → Nat → Prop
  | .uidExpunge uids, uid => contains uids uid = true
  | .copy set _, uid => ∃ m ∈ numbered s.snap, matched s.snap set m = true ∧ m.1.uid = uid
  | .move set _, uid => ∃ m ∈ numbered s.snap, matched s.snap set m = true ∧ m.1.uid = uid

/-- Whether the command takes messages away. -/
def removes : SetCommand → Bool
  | .uidExpunge _ => true
  | .copy _ _ => false
  | .move _ _ => true

/-- Where the command puts copies. -/
def dest : SetCommand → Option Str
  | .uidExpunge _ => none
  | .copy _ dest => some dest
  | .move _ dest => some dest

/-- The messages that the mailstore takes when it gets no filter. -/
def unfiltered (emails : List Email) : SetCommand → List Email
  | .uidExpunge _ => emails.filter (·.hasFlag flagDeleted)
  | .copy _ _ => emails
  | .move _ _ => emails

end SetCommand

/-- The stored messages of a session's mailbox. -/
def liveEmails (s : Session) (n : Node) : List Email :=
  ((located n s.user s.mbox).map fun p => listing (n.kv.account p.1) p.2).getD []

/-- From `n` to `n'` the command has touched messages of its set only. -/
structure Contained (cfg : Config) (s : Session) (cmd : SetCommand) (n n' : Node) : Prop where
  removed : ∀ c mb uid id : Nat, (n.kv.account c).row mb uid = some id →
    (n'.kv.account c).row mb uid = some id ∨
      (cmd.removes = true ∧ located n s.user s.mbox = some (c, mb) ∧ cmd.Addresses s (u32 uid))
  added : ∀ (c mb uid id : Nat) (d : EmailDoc), (n'.kv.account c).row mb uid = some id →
    (n'.kv.account c).emails[id]? = some d →
    ((n.kv.account c).row mb uid = some id ∧ (n.kv.account c).emails[id]? = some d) ∨
      ∃ dest sources, cmd.dest = some dest ∧ CopyIn cfg dest sources n d ∧
        ∀ e ∈ sources, e ∈ liveEmails s n ∧ cmd.Addresses s e.uid
  unresolved : cmd.resolved s = [] → n'.kv = n.kv

/-! ### The store call of a command -/

/-- The mailstore operation of a command. -/
def SetCommand.op (cfg : Config) (s : Session) : SetCommand → Op Unit
  | .uidExpunge uids => effect (Mailstore.expunge s.user s.mbox (expungeList s (some uids)))
  | .copy set dest => effect (Mailstore.copy cfg s.user s.mbox dest (resolveUIDs s set))
  | .move set dest => effect (Mailstore.move cfg s.user s.mbox dest (resolveUIDs s set))

theorem exec_effect {α : Type} (p : Op α) (n : Node) :
    (effect p).exec n = ((p.exec n).1, (p.exec n).2.map fun _ => ()) := by
  unfold effect
  rw [Prog.exec_attempt]
  rfl

section
variable {cfg : Config} {s : Session} {cmd : SetCommand} {c : Conn} {n n' : Node} {qresync : Bool}

section
variable (h : c.srv.node.Wf)
include h

/-- What follows a mailstore operation and leaves the stores alone leaves there what the operation does. -/
theorem call_store {α β : Type} {p : Op α} {k : α → Cmd β}
    (hp : Prog.Safe Mailstore.Evolves (Step {}) (fun _ _ _ => True) (fun _ => none) p c.srv.node)
    (hk : ∀ a n', n'.Wf → ((k a).exec (c.withNode n')).1.srv.node.store = n'.store) :
    ((call p >>= k).exec c).1.srv.node.store = (p.exec c.srv.node).1.store := by
  have hw := (evolves_of_safe h hp).wf
  rw [Prog.exec_bind, exec_call]
  rcases hop : p.exec c.srv.node with ⟨n', _ | a⟩ <;> rw [hop] at hw
  · rfl
  · exact hk a n' hw

theorem refresh_store {α : Type} {k : Unit → Cmd α}
    (hk : ∀ c', c'.srv.node.Wf → ((k ()).exec c').1.srv.node.store = c'.srv.node.store) :
    ((refreshSnapshot s >>= k).exec c).1.srv.node.store = c.srv.node.store := by
  obtain ⟨hs, hw⟩ := refreshSnapshot_store h s
  rw [Prog.exec_bind]
  rcases hr : (refreshSnapshot s).exec c with ⟨c', _ | _⟩ <;> rw [hr] at hs hw
  · exact hs
  · exact (hk c' hw).trans hs

theorem status_store {α : Type} (user dest : Str)
    (f : Mailbox × Counters → Cmd α) (hf : ∀ st c, ((f st).exec c).1.srv = c.srv) :
    ((call (mailboxStatus user dest) >>= f).exec c).1.srv.node.store = c.srv.node.store := by
  have hs := mailboxStatus_store h user dest
  rw [Prog.exec_bind, exec_call]
  rcases hr : (mailboxStatus user dest).exec c.srv.node with ⟨n', _ | st⟩ <;> rw [hr] at hs
  · exact hs
  · simp only [hf]
    exact hs

/-- What a command leaves in the stores is what its mailstore operation leaves there. -/
theorem SetCommand.exec_store (cmd : SetCommand) :
    ((cmd.prog cfg qresync s).exec c).1.srv.node.store = ((cmd.op cfg s).exec c.srv.node).1.store := by
  cases cmd with
  | uidExpunge uids =>
    simp only [SetCommand.prog, SetCommand.op, exec_effect]
    refine call_store h ((stepper Config.plain {}).expungeUIDs trivial fun _ _ _ _ => trivial) fun deleted n' hw => ?_
    split_ifs
    · rfl
    · exact refresh_store (c := c.withNode n') hw fun _ _ => rfl
  | copy set dest =>
    simp only [SetCommand.prog, SetCommand.op, exec_effect, Prog.exec_bind_pure]
    refine call_store h ((stepper cfg {}).copy trivial fun _ _ _ _ => trivial) fun _ n' hw => ?_
    exact status_store (c := c.withNode n') hw s.user dest _ fun _ _ => rfl
  | move set dest =>
    simp only [SetCommand.prog, SetCommand.op, exec_effect, Prog.exec_bind_pure]
    refine call_store h ((stepper cfg {}).move trivial trivial (fun _ => not_false) fun _ _ _ _ => trivial)
      fun _ n' hw => ?_
    split_ifs
    · exact status_store (c := c.withNode n') hw s.user dest _ fun _ _ => rfl
    · exact refresh_store (c := c.withNode n') hw fun _ hw' => status_store hw' s.user dest _ fun _ _ => rfl

end

theorem liveEmails_of_located {a mb : Nat} (hl : located n s.user s.mbox = some (a, mb)) :
    liveEmails s n = listing (n.kv.account a) mb := by
  simp [liveEmails, hl]

/-- Nothing happened. -/
theorem Contained.of_kv (h : n'.kv = n.kv) : Contained cfg s cmd n n' := by
  refine ⟨fun _ _ _ _ hr => Or.inl ?_, fun _ _ _ _ _ hr hd => Or.inl ?_, fun _ => h⟩
  · rw [h]; exact hr
  · rw [h] at hr hd; exact ⟨hr, hd⟩

theorem Contained.congr {n'' : Node} (hkv : n''.kv = n'.kv) (h : Contained cfg s cmd n n') :
    Contained cfg s cmd n n'' := by
  constructor <;> rw [hkv]
  · exact h.removed
  · exact h.added
  · exact h.unresolved

/-- A frame around targets of the set. -/
theorem Contained.of_within {a mb : Nat} {gone : Nat → Prop} {new : EmailDoc → Prop}
    (hw : Within a mb gone new n n') (hl : located n s.user s.mbox = some (a, mb)) (hne : cmd.resolved s ≠ [])
    (hgone : ∀ uid, gone uid → cmd.removes = true ∧ cmd.Addresses s (u32 uid))
    (hnew : ∀ d, new d → ∃ dest sources, cmd.dest = some dest ∧ CopyIn cfg dest sources n d ∧
      ∀ e ∈ sources, e ∈ listing (n.kv.account a) mb ∧ cmd.Addresses s e.uid) : Contained cfg s cmd n n' := by
  refine ⟨fun c mb' uid id hr => ?_, fun c mb' uid id d hr hd => ?_, fun h => absurd h hne⟩
  · rcases hw.kept c mb' uid id hr with hr | ⟨rfl, rfl, hg⟩
    · exact Or.inl hr
    · exact Or.inr ⟨(hgone uid hg).1, hl, (hgone uid hg).2⟩
  · refine (hw.docs c mb' uid id d hr hd).imp_right fun hn => ?_
    rw [liveEmails_of_located hl]
    exact hnew d hn

theorem mem_resolveUIDs {set : NumSet} {uid : Nat} : uid ∈ resolveUIDs s set ↔
    ∃ m ∈ numbered s.snap, matched s.snap set m = true ∧ m.1.uid = uid := by
  simp only [resolveUIDs, List.mem_map, List.mem_filter]
  constructor
  · rintro ⟨m, ⟨hm, hs⟩, rfl⟩
    exact ⟨m, hm, hs, rfl⟩
  · rintro ⟨m, hm, hs, rfl⟩
    exact ⟨m, ⟨hm, hs⟩, rfl⟩

/-- The set's own messages among those that a filtered call selects. -/
theorem mem_selectUIDs {uids : List Nat} {emails : List Email} (hne : uids ≠ []) {e : Email}
    (he : e ∈ selectUIDs uids emails) : e ∈ emails ∧ e.uid ∈ uids := by
  obtain ⟨hm, hsel⟩ := List.mem_filter.mp he
  exact ⟨hm, by simpa [hne] using hsel⟩

theorem mem_expungeTargets {uids : List Range} {emails : List Email}
    (hne : expungeList s (some uids) ≠ []) {e : Email}
    (he : e ∈ expungeTargets (expungeList s (some uids)) true emails) : contains uids e.uid = true := by
  obtain ⟨-, hsel⟩ := List.mem_filter.mp he
  rw [if_pos hne] at hsel
  obtain ⟨m, hm, huid⟩ := List.mem_map.mp (List.contains_iff_mem.mp hsel)
  have hcond := (List.mem_filter.mp hm).2
  rw [Bool.and_eq_true] at hcond
  rw [← huid]; exact hcond.1

/-- A command on a mailbox that is not there does nothing. -/
theorem SetCommand.exec_unlocated (h : n.Wf) (hl : located n s.user s.mbox = none) (cmd : SetCommand) :
    ((cmd.op cfg s).exec n).1 = n := by
  cases cmd <;> simp only [SetCommand.op, exec_effect]
  · exact congrArg Prod.fst (exec_resolve_bind_none h hl _)
  · exact congrArg Prod.fst (exec_resolve_bind_none h hl _)
  · exact congrArg Prod.fst (exec_resolve_bind_none h hl _)

/-- A set that resolves to something contains what the command touches. -/
theorem SetCommand.contained (h : n.Wf) (hne : cmd.resolved s ≠ []) :
    Contained cfg s cmd n ((cmd.op cfg s).exec n).1 := by
  cases hl : located n s.user s.mbox with
  | none => exact .of_kv (by rw [cmd.exec_unlocated h hl])
  | some p =>
    obtain ⟨a, mb⟩ := p
    cases cmd with
    | uidExpunge uids =>
      simp only [SetCommand.op, exec_effect]
      obtain ⟨n', deleted, he, -, hw, -⟩ := exec_expungeUIDs h hl (expungeList s (some uids)) true
      rw [Mailstore.expunge, he]
      refine .of_within hw hl hne (fun uid ⟨e, he, hu⟩ => ⟨rfl, ?_⟩) fun d hd => hd.elim
      rw [← hu]; exact mem_expungeTargets hne he
    | copy set dest =>
      simp only [SetCommand.op, exec_effect]
      obtain ⟨n', mapping, he, -, -, -, hw⟩ := exec_copy cfg h hl dest (resolveUIDs s set)
      rw [he]
      refine .of_within hw hl hne (fun uid hu => hu.elim) fun d hd => ⟨dest, _, rfl, hd, fun e he => ?_⟩
      obtain ⟨hm, hu⟩ := mem_selectUIDs hne he
      exact ⟨hm, mem_resolveUIDs.mp hu⟩
    | move set dest =>
      simp only [SetCommand.op, exec_effect]
      obtain ⟨n', mapping, he, -, -, -, hw, -⟩ := exec_move cfg h hl dest (resolveUIDs s set)
      rw [he]
      refine .of_within hw hl hne (fun uid ⟨e, he, hu⟩ => ⟨rfl, ?_⟩)
        fun d hd => ⟨dest, _, rfl, hd, fun e he => ?_⟩
      · rw [← hu]; exact mem_resolveUIDs.mp (mem_selectUIDs hne he).2
      · obtain ⟨hm, hu⟩ := mem_selectUIDs hne he
        exact ⟨hm, mem_resolveUIDs.mp hu⟩

/-- An unfiltered call that finds nothing does nothing. -/
theorem SetCommand.exec_idle (h : n.Wf) (hnil : cmd.resolved s = [])
    (hlive : cmd.unfiltered (liveEmails s n) = []) : ((cmd.op cfg s).exec n).1 = n := by
  cases hl : located n s.user s.mbox with
  | none => exact cmd.exec_unlocated h hl
  | some p =>
    obtain ⟨a, mb⟩ := p
    rw [liveEmails_of_located hl] at hlive
    cases cmd <;> simp only [SetCommand.resolved] at hnil <;> simp only [SetCommand.op, exec_effect, hnil]
    case uidExpunge uids =>
      obtain ⟨n', deleted, he, hidle, -⟩ := exec_expungeUIDs h hl [] true
      rw [Mailstore.expunge, he]
      exact hidle (by simpa [expungeTargets, SetCommand.unfiltered] using hlive)
    case copy set dest =>
      obtain ⟨n', mapping, he, -, -, hidle, -⟩ := exec_copy cfg h hl dest []
      rw [he]
      exact hidle (by simpa [selectUIDs, SetCommand.unfiltered] using hlive)
    case move set dest =>
      obtain ⟨n', mapping, he, -, -, hidle, -⟩ := exec_move cfg h hl dest []
      rw [he]
      exact hidle rfl (by simpa [selectUIDs, SetCommand.unfiltered] using hlive)

/-- An unfiltered call that finds a message changes the store. -/
theorem SetCommand.exec_moves (h : n.Wf) (hnil : cmd.resolved s = []) {e : Email}
    (he : e ∈ (cmd.unfiltered (liveEmails s n)).head?) : ((cmd.op cfg s).exec n).1.kv ≠ n.kv := by
  intro heq
  have hmem : e ∈ cmd.unfiltered (liveEmails s n) := List.mem_of_mem_head? he
  cases hl : located n s.user s.mbox with
  | none =>
    have : liveEmails s n = [] := by simp [liveEmails, hl]
    rw [this] at hmem
    cases cmd <;> simp [SetCommand.unfiltered] at hmem
  | some p =>
    obtain ⟨a, mb⟩ := p
    rw [liveEmails_of_located hl] at he hmem
    have hlisted : e ∈ listing (n.kv.account a) mb := by
      cases cmd
      · exact List.mem_of_mem_filter hmem
      · exact hmem
      · exact hmem
    obtain ⟨uid, id, d, hr, hd, -, rfl⟩ := (mem_listing (h.account a)).mp hlisted
    cases cmd <;> simp only [SetCommand.resolved] at hnil <;> simp only [SetCommand.op, exec_effect, hnil] at heq
    case uidExpunge uids =>
      obtain ⟨n', deleted, hexec, -, -, hgo⟩ := exec_expungeUIDs h hl [] true
      have hflag : hasListToken (d.flags.getD []) flagDeleted = true := by
        have hexact := (List.mem_filter.mp hmem).2
        simp only [Email.hasFlag, emailFromFields, List.contains_iff_mem] at hexact
        exact List.any_eq_true.mpr ⟨flagDeleted, hexact, by simp [equalFold]⟩
      have hgone := hgo _ (by simpa [expungeTargets, SetCommand.unfiltered] using he) uid d hr hd hflag
      rw [Mailstore.expunge, hexec] at heq
      rw [heq, hr] at hgone
      cases hgone
    case copy set dest =>
      obtain ⟨n', mapping, hexec, -, hmade, -⟩ := exec_copy cfg h hl dest []
      obtain ⟨mb', uid', id', -, -, -, hlt, -, hnew, -⟩ := hmade _ (by simpa [selectUIDs] using hlisted)
      rw [hexec] at heq
      rw [heq] at hnew
      exact absurd ((h.account a).row_uid mb' uid' id' hnew) (by omega)
    case move set dest =>
      obtain ⟨n', mapping, hexec, -, -, -, -, hgo⟩ := exec_move cfg h hl dest []
      have hgone := hgo _ (by simpa [selectUIDs, SetCommand.unfiltered] using he) uid d hr hd trivial
      rw [hexec] at heq
      rw [heq, hr] at hgone
      cases hgone

end

/-- CONTAINED: a command touches messages of its set only exactly when the set resolves to something,
    or an unfiltered call finds nothing to do. -/
theorem contained_iff (cfg : Config) (qresync : Bool) (s : Session) (cmd : SetCommand) (c : Conn)
    (h : c.srv.node.Wf) : Contained cfg s cmd c.srv.node ((cmd.prog cfg qresync s).exec c).1.srv.node ↔
      cmd.resolved s ≠ [] ∨ cmd.unfiltered (liveEmails s c.srv.node) = [] := by
  have hkv : ((cmd.prog cfg qresync s).exec c).1.srv.node.kv = ((cmd.op cfg s).exec c.srv.node).1.kv :=
    congrArg Facade.kv (cmd.exec_store h)
  constructor
  · intro hc
    by_contra hneg
    rw [not_or, not_not] at hneg
    obtain ⟨e, he⟩ := Option.isSome_iff_exists.mp
      (List.isSome_head?.mpr hneg.2)
    exact SetCommand.exec_moves h hneg.1 he (hkv.symm.trans (hc.unresolved hneg.1))
  · intro hcond
    refine Contained.congr hkv ?_
    by_cases hne : cmd.resolved s = []
    · exact .of_kv (by rw [SetCommand.exec_idle h hne (hcond.resolve_left fun hn => hn hne)])
    · exact SetCommand.contained h hne

/-- The store on which alice has one message in her INBOX, marked as deleted. -/
def markedNode : Node :=
  Node.run .plain {} [(0, .deliver (ascii "alice") inbox { data := ascii "hi", flags := [flagDeleted] })]

/-- A session that has selected that INBOX. -/
def markedConn : Conn where
  srv := { node := markedNode }
  ses := { user := ascii "alice", mbox := inbox, uidvalidity := 1,
           snap := present (ascii "alice") inbox markedNode, snapModSeq := 1, modseqGated := true }

theorem contained_iff_uid_listed : SetCommand.resolved markedConn.ses (.uidExpunge [⟨1, 5⟩]) ≠ [] ∧
      Contained .plain markedConn.ses (.uidExpunge [⟨1, 5⟩]) markedConn.srv.node
        ((SetCommand.prog .plain false markedConn.ses (.uidExpunge [⟨1, 5⟩])).exec markedConn).1.srv.node :=
  have hne : SetCommand.resolved markedConn.ses (.uidExpunge [⟨1, 5⟩]) ≠ [] := by decide +kernel
  ⟨hne, (contained_iff .plain false markedConn.ses (.uidExpunge [⟨1, 5⟩]) markedConn
    (run_wf .plain _ wf_empty)).mpr (Or.inl hne)⟩

/-- UID EXPUNGE 9 on a mailbox that has UID 1 alone: UID 1 goes. -/
theorem uid_expunge_not_contained : ¬Contained .plain markedConn.ses (.uidExpunge [⟨9, 9⟩]) markedConn.srv.node
      ((SetCommand.prog .plain false markedConn.ses (.uidExpunge [⟨9, 9⟩])).exec markedConn).1.srv.node := by
  intro h
  rcases h.removed 1 1 1 1 (by decide +kernel) with hr | ⟨-, -, hin⟩
  · exact absurd hr (by decide +kernel)
  · exact absurd hin (by unfold SetCommand.Addresses; decide +kernel)

end Mailezine.Imap
