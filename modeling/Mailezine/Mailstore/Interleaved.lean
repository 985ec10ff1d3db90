import Mailezine.Mailstore.Version
import Mailezine.Mailstore.Writers
import Mailezine.Schemes.Threads

/-! Operations and readers at once, with no condition on how their steps interleave. -/

namespace Mailezine.Mailstore.Interleaved
open Schemes Store

/-- Time passes, a job starts, a running job takes a step. -/
inductive Action where
  | tick (now : Nat)
  | start (job : Job)
  | advance (i : Nat)

def step (cfg : Config) (w : Schemes.System Node (Op Unit)) : Action → Schemes.System Node (Op Unit)
  | .tick now => w.alter (·.setClock now)
  | .start job => w.spawn (job.prog cfg)
  | .advance i => w.move i fun n p => p.step n

/-- The node after a run from an empty store. -/
def after (cfg : Config) (acts : List Action) : Node := (runs (step cfg) ⟨{}, []⟩ acts).shared

/-- The job keeps to the steps; no mailbox is loud, so a `Move` of everything does too. -/
def Keeps (n : Node) (p : Op Unit) : Prop :=
  ∃ g, Prog.Safe Evolves (Step { loud := fun _ => False }) (fun _ _ _ => True) g p n

variable {n₀ n n' : Node} {p : Op Unit}

theorem keeps_job (cfg : Config) (job : Job) (hn : n.Wf) : Keeps n (job.prog cfg) := by
  refine ⟨fun _ => none, ?_⟩
  cases job with
  | op o => exact safe_mailOp _ cfg o (fun _ _ => not_false) (fun _ _ _ => trivial) _ hn
  | readVersion => exact Prog.Safe.attempt ((steps _).mailboxModSeq fun _ _ _ _ => trivial)
  | readListing => exact Prog.Safe.attempt ((steps _).listMessages fun _ _ _ => trivial)

theorem Keeps.evolves (h : Keeps n p) (hev : Evolves n n') : Keeps n' p :=
  h.imp fun _ hs => hs.rely (fun _ hu => hev.trans hu) fun _ _ _ => trivial

theorem Keeps.step (h : Keeps n p) (hn : n.Wf) : Evolves n (p.step n).1 ∧ Keeps (p.step n).1 (p.step n).2 := by
  obtain ⟨g, hs⟩ := h
  rcases hs.step (Evolves.refl hn) with ⟨r, rfl, -⟩ | ⟨g', hstep, hs'⟩
  · exact ⟨Evolves.refl hn, g, trivial⟩
  · exact ⟨hstep.evolves hn, g', hs'⟩

/-- The node has evolved from `n₀` and every job keeps to the steps. -/
abbrev Inv (n₀ : Node) := Schemes.System.Inv (Evolves n₀) Keeps fun _ _ => True

theorem inv_step (cfg : Config) (w) (act : Action) (h : Inv n₀ w) : Inv n₀ (step cfg w act) := by
  unfold step
  cases act with
  | tick now =>
    have hev := Evolves.setClock h.shared.wf now
    exact h.alter (·.trans hev) fun _ ht => ht.evolves hev
  | start job => exact h.spawn (keeps_job cfg job h.shared.wf) fun _ _ => ⟨trivial, trivial⟩
  | advance i =>
    refine h.move fun p _ hn hp => ?_
    obtain ⟨hev, hp'⟩ := hp.step hn.wf
    exact ⟨hn.trans hev, hp', fun _ _ _ hu => ⟨hu.evolves hev, trivial, trivial⟩⟩

theorem inv_run (cfg : Config) (acts : List Action) : Inv {} (runs (step cfg) ⟨{}, []⟩ acts) :=
  runs_always (inv_step cfg) acts ⟨{}, []⟩ (.init (Evolves.refl wf_empty))

/-- IDENTITIES: however jobs interleave, the store stays well formed, and it evolves: a UID or document
    ID of a later state is an old one with its old meaning or above every one given out before. -/
theorem evolves_interleaved (cfg : Config) (acts acts' : List Action) :
    Evolves (after cfg acts) (after cfg (acts ++ acts')) := by
  have h := inv_run cfg acts
  have h' := runs_always (inv_step cfg) acts' _ ⟨Evolves.refl h.shared.wf, h.each, h.apart⟩
  unfold after
  nth_rewrite 2 [runs]
  rw [List.foldl_append]
  exact h'.shared

/-- READABLE: however jobs interleave, the bytes of every message that a listing shows are stored. -/
theorem listed_bytes_stored (cfg : Config) (acts : List Action) (a mb : Nat) :
    (listing ((after cfg acts).kv.account a) mb).all fun e => (after cfg acts).store.blobs[e.blobID]?.isSome := by
  refine List.all_eq_true.mpr fun e he => ?_
  exact Option.isSome_iff_exists.mpr ((inv_run cfg acts).shared.wf.blob_of_listing he)

end Mailezine.Mailstore.Interleaved
