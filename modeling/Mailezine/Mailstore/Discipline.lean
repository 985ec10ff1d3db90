import Mailezine.Mailstore.Rights

/-! Every mailbox operation keeps to the steps of `Mailstore.Steps`. -/

namespace Mailezine.Mailstore
open Gostd Schemes Store

/-- The regime of the operations: the steps of others and their own evolve the store. -/
theorem steps (Γ : Scope) : Regime Evolves Evolves (Step Γ) :=
  ⟨Evolves.trans, id, id, fun hn hq => hq.evolves hn, fun _ _ hq => .quiet hq⟩

/-- The rights of a scope. -/
def Scope.rights (Γ : Scope) : Rights where
  flag _ name uid := Γ.writes name uid
  hush _ name := ¬Γ.loud name

/-- The steps of a scope allow every write within its rights; a document that was read for a UID still
    owns it. -/
theorem stepper (cfg : Config) (Γ : Scope) :
    Writer cfg Γ.rights (fun n a mb uid id => (n.kv.account a).Owns mb uid id) Evolves Evolves (Step Γ) where
  toRegime := steps Γ
  held_row hn _ _ hr := (hn.account _).owns hr
  held_owns _ ho := ho
  held_keep hev ho := ho.grows (hev.account _)
  held_bump _ hev ho := ho.grows (hev.account _)
  write {_ _ _ _ a y kv'} hn _ hw ht :=
    .change a y kv' ht (hw.change hn (fun _ _ _ ho => ho) (fun _ _ h => h) fun _ h => h)

/-- A `Move` with an empty UID list takes every message out of its source without a tombstone. -/
def MailOp.silent : MailOp → Option Str
  | .move _ src _ [] => some src
  | _ => none

/-- The UIDs of a mailbox whose flags the operation writes. -/
def MailOp.writes : MailOp → Str → Nat → Bool
  | .setFlags _ mailbox uid _, name, u => name = mailbox && u = uid
  | .setFlagsBatch _ mailbox updates, name, u => name = mailbox && updates.any (·.uid = u)
  | _, _, _ => false

theorem MailOp.within_rights {Γ : Scope} {op : MailOp} (hq : ∀ src, op.silent = some src → ¬Γ.loud src)
    (hw : ∀ name uid, op.writes name uid = true → Γ.writes name uid) : op.Within Γ.rights := by
  cases op with
  | deliver | expunge | deleteUIDs | copy => trivial
  | setFlags account mailbox uid flags => exact hw mailbox uid (by simp [MailOp.writes])
  | setFlagsBatch account mailbox updates =>
    intro u hu
    refine hw mailbox u.uid ?_
    simp only [MailOp.writes, decide_true, Bool.true_and, List.any_eq_true, decide_eq_true_eq]
    exact ⟨u, hu, rfl⟩
  | move account src dst uids =>
    refine ⟨trivial, trivial, fun hnil => hq src ?_⟩
    rw [hnil]; rfl

/-- Every operation keeps to the steps, from every well-formed node. -/
theorem safe_mailOp (Γ : Scope) (cfg : Config) (op : MailOp) (hq : ∀ src, op.silent = some src → ¬Γ.loud src)
    (hw : ∀ name uid, op.writes name uid = true → Γ.writes name uid) (g : Bumped) {n : Node} (hn : n.Wf) :
    Prog.Safe Evolves (Step Γ) (fun _ _ _ => True) g (op.prog cfg) n :=
  (stepper cfg Γ).mailOp (MailOp.within_rights hq hw) g hn

end Mailezine.Mailstore
