import Mailezine.Imap.Commands
import Mailezine.Mailstore.Writers

/-! The building blocks of the IMAP commands when nothing runs in between.

    A store call acts on the node alone. Reading the version and the listing leaves the key-value
    store and the blobs as they are; only the caches may change. -/

namespace Mailezine.Imap
open Gostd Schemes Store Mailstore

section
variable {α : Type} {c : Conn}

theorem exec_call (p : Op α) (c : Conn) :
    (call p).exec c = (c.withNode (p.exec c.srv.node).1, (p.exec c.srv.node).2) := by
  unfold call
  rw [Prog.exec_zoom] <;> intros <;> rfl

/-- The version that a session reads before a listing. -/
def versionOf (s : Session) (n : Node) : Option Nat :=
  if s.modseqGated then (located n s.user s.mbox).map fun p => (n.kv.account p.1).modSeq p.2 else none

theorem exec_readVersion (h : c.srv.node.Wf) (s : Session) :
    ∃ n', (readVersion s).exec c = (c.withNode n', .ok (versionOf s c.srv.node)) ∧
      n'.store = c.srv.node.store ∧ n'.Wf := by
  unfold readVersion versionOf
  split_ifs
  · obtain ⟨n', he, hs, hw⟩ := exec_mailboxModSeq h s.user s.mbox
    exact ⟨n', by rw [exec_call, he], hs, hw⟩
  · exact ⟨c.srv.node, rfl, rfl, h⟩

/-- The messages of a mailbox, if there is one of that name. -/
def liveMessages (n : Node) (user mailbox : Str) : Option (List Message) :=
  (located n user mailbox).map fun p => (listing (n.kv.account p.1) p.2).map messageFromEmail

/-- The listing that a version stands for: the memoised one, or else the live one. -/
def listingAt (srv : Server) (user mailbox : Str) (uidvalidity : Nat) (ver : Option Nat) :
    Except Err (List Message) :=
  match ver.bind fun m => srv.memo.listing ⟨user, mailbox, uidvalidity, m⟩ with
  | some msgs => .ok msgs
  | none => found (liveMessages srv.node user mailbox)

/-- What `mailboxListAt` may do to the listing memo: file the live listing under its version. -/
def Filed (srv : Server) (user mailbox : Str) (uidvalidity : Nat) (ver : Option Nat) (memo : Memo) : Prop :=
  memo = srv.memo ∨ ∃ m msgs, ver = some m ∧ liveMessages srv.node user mailbox = some msgs ∧
    memo = srv.memo.putListing ⟨user, mailbox, uidvalidity, m⟩ msgs

theorem exec_mailboxListAt (h : c.srv.node.Wf) (user mailbox : Str) (uidvalidity : Nat) (ver : Option Nat) :
    ∃ memo, (mailboxListAt user mailbox uidvalidity ver).exec c =
        (c.withMemo memo, listingAt c.srv user mailbox uidvalidity ver) ∧
      Filed c.srv user mailbox uidvalidity ver memo := by
  have hlive : (call (listMessages user mailbox)).exec c =
      (c, found (liveMessages c.srv.node user mailbox)) := by
    rw [exec_call, exec_listMessages h]; rfl
  cases ver with
  | none => exact ⟨c.srv.memo, hlive, Or.inl rfl⟩
  | some m =>
    unfold mailboxListAt
    simp only
    rw [Prog.exec_bind_ok (t := c) (a := c.srv.memo.listing ⟨user, mailbox, uidvalidity, m⟩) rfl]
    unfold listingAt
    simp only [Option.bind_some]
    cases hm : c.srv.memo.listing ⟨user, mailbox, uidvalidity, m⟩ with
    | some msgs => exact ⟨c.srv.memo, rfl, Or.inl rfl⟩
    | none =>
      simp only
      cases hl : liveMessages c.srv.node user mailbox with
      | none =>
        rw [hl] at hlive
        rw [Prog.exec_bind_error hlive]
        exact ⟨c.srv.memo, rfl, Or.inl rfl⟩
      | some msgs =>
        rw [hl] at hlive
        rw [Prog.exec_bind_ok hlive]
        split_ifs
        · exact ⟨_, rfl, Or.inr ⟨m, msgs, rfl, hl, rfl⟩⟩
        · exact ⟨c.srv.memo, rfl, Or.inl rfl⟩

/-- `refreshSnapshot` adopts the listing of the version it reads. -/
theorem exec_refreshSnapshot (h : c.srv.node.Wf) {s : Session} (hs : s.mbox ≠ []) :
    ∃ n' memo, n'.store = c.srv.node.store ∧ n'.Wf ∧
      Filed c.srv s.user s.mbox s.uidvalidity (versionOf s c.srv.node) memo ∧ (refreshSnapshot s).exec c =
        match listingAt c.srv s.user s.mbox s.uidvalidity (versionOf s c.srv.node) with
        | .ok msgs => (((c.withNode n').withMemo memo).withSes
            (c.ses.adopt (versionOf s c.srv.node) msgs), .ok ())
        | .error e => ((c.withNode n').withMemo memo, .error e) := by
  obtain ⟨n', he, hst, hw⟩ := exec_readVersion h s
  obtain ⟨memo, hm, hf⟩ := exec_mailboxListAt (c := c.withNode n') hw s.user s.mbox s.uidvalidity
    (versionOf s c.srv.node)
  have hkv : n'.kv = c.srv.node.kv := congrArg Facade.kv hst
  have hlive : liveMessages n' s.user s.mbox = liveMessages c.srv.node s.user s.mbox := by
    unfold liveMessages located
    rw [hkv]
  have hat : listingAt (c.withNode n').srv s.user s.mbox s.uidvalidity (versionOf s c.srv.node) =
      listingAt c.srv s.user s.mbox s.uidvalidity (versionOf s c.srv.node) := by
    unfold listingAt
    rw [show (c.withNode n').srv.node = n' from rfl, hlive]
    rfl
  refine ⟨n', memo, hst, hw, ?_, ?_⟩
  · refine hf.imp_right fun ⟨m, msgs, hv, hl, hmemo⟩ => ⟨m, msgs, hv, ?_, hmemo⟩
    rw [← hlive]; exact hl
  · unfold refreshSnapshot
    rw [if_neg hs, Prog.exec_bind_ok he]
    rw [hat] at hm
    cases hl : listingAt c.srv s.user s.mbox s.uidvalidity (versionOf s c.srv.node) with
    | error e =>
      rw [hl] at hm
      rw [Prog.exec_bind_error hm]
    | ok msgs =>
      rw [hl] at hm
      rw [Prog.exec_bind_ok hm]
      rfl

/-- Whatever it reads, `refreshSnapshot` leaves the stores as they are. -/
theorem refreshSnapshot_store (h : c.srv.node.Wf) (s : Session) :
    ((refreshSnapshot s).exec c).1.srv.node.store = c.srv.node.store ∧
      ((refreshSnapshot s).exec c).1.srv.node.Wf := by
  by_cases hs : s.mbox = []
  · unfold refreshSnapshot
    rw [if_pos hs]
    exact ⟨rfl, h⟩
  · obtain ⟨n', memo, hst, hw, -, he⟩ := exec_refreshSnapshot h hs
    rw [he]
    split <;> exact ⟨hst, hw⟩

theorem mailboxStatus_store {n : Node} (h : n.Wf) (account mailbox : Str) :
    ((mailboxStatus account mailbox).exec n).1.store = n.store := by
  obtain ⟨n', hs, hw, hnone, hsome⟩ := exec_cached_bind h account mailbox fun a mb => do
    let st ← readMailboxMeta a mb mailbox
    let emails ← mailboxEmails a mb
    pure (st, countEmails emails)
  have hkv : n'.kv = n.kv := congrArg Facade.kv hs
  unfold mailboxStatus
  cases hl : located n account mailbox with
  | none => rwa [hnone hl]
  | some p =>
    obtain ⟨a, mb⟩ := p
    obtain ⟨d, hd, -⟩ := (hw.account a).name_mailbox mailbox mb (by rw [hkv]; exact (located_eq_some.mp hl).2)
    unfold readMailboxMeta uidNext at hsome ⊢
    rw [hsome a mb hl, Prog.exec_bind, Prog.exec_bind_ok (exec_mailboxFields hd), Prog.exec_bind_ok (exec_get _ n')]
    simp only [Prog.exec_pure]
    rwa [Prog.exec_bind_ok (exec_mailboxEmails a mb n')]

end

end Mailezine.Imap
