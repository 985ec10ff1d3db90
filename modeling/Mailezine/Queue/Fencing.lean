import Mailezine.Queue.Claims

/-! Claim fencing: who may deliver a message and record what came of it.

    The claim in the row is lease and fence in one. Workers whose claim was stolen are turned away when
    they commit, but nothing turns them away when they call the deliverer. -/

namespace Mailezine.Queue
open Gostd Schemes List

/-! ### The record of claims and commits -/

/-- The node that claimed a message last. -/
def latest (id : Nat) : List Event → Option Str
  | [] => none
  | .claimed j node :: rest => if j = id then some node else latest id rest
  | _ :: rest => latest id rest

/-- Every outcome was committed by the node that had claimed the message last. -/
def ByLatest : List Event → Prop
  | [] => True
  | .committed node msg :: rest => latest msg.id rest = some node ∧ ByLatest rest
  | _ :: rest => ByLatest rest

/-- An active row names the last claimant, and outcomes came from last claimants. -/
structure Recorded (s : Shared) : Prop where
  active : ∀ id r, s.row id = some r → r.state = .active → latest id s.trace = some r.owner
  byLatest : ByLatest s.trace

/-- A worker calls the deliverer only while its claim is in the row. -/
def fenced (w : World) : Action → Bool
  | .advance i _ =>
    match w.threads[i]? with
    | some ⟨m, .handing msg _⟩ => (w.shared.row msg.id).any (fence m.nodeID)
    | _ => true
  | _ => true

section Changes
variable {many : Bool} {s s' : Shared} {m : Manager} {p : Phase}

section
variable {clock : Int} {cur : Message} {c : Call} {row : Option Message} {evs : List Event} {q : Phase}

theorem Ends.latest_of_ne {id : Nat} (he : Ends m clock cur c row evs q) (hid : cur.id = c.id) (hne : id ≠ c.id)
    (trace : List Event) : latest id (evs ++ trace) = latest id trace := by
  cases he with
  | claimed => simp [latest, hid, hne.symm]
  | _ => rfl

theorem Ends.recorded (he : Ends m clock cur c row evs q) (hg : Good s) (hb : Backed many s m (.txn c))
    (hrow : s.row c.id = some cur) (h : Recorded s) :
    (∀ r, row = some r → r.state = .active → latest c.id (evs ++ s.trace) = some r.owner) ∧
      ByLatest (evs ++ s.trace) := by
  cases he with
  | kept =>
    refine ⟨?_, h.byLatest⟩
    rintro _ ⟨rfl⟩
    exact h.active _ _ hrow
  | claimed =>
    have hid : cur.id = _ := (hg.filed _ _ hrow).1
    have htext : coerceUTF8 m.nodeID = m.nodeID := hb.1
    refine ⟨?_, h.byLatest⟩
    rintro _ ⟨rfl⟩ -
    simp [latest, hid, Call.id, Message.json, Message.taken, htext]
  | committed hf | ended hf | deferred hf =>
    -- the fence passes only for the owner of the row, and that is the last claimant
    have hfence := Bool.and_eq_true_iff.mp hf
    have hlast := h.active _ _ hrow (by simpa using hfence.1)
    rw [show cur.owner = m.nodeID by simpa using hfence.2] at hlast
    obtain ⟨msg, hout, -, -⟩ := claimed_of_fence hb hrow hf
    refine ⟨?_, hlast, h.byLatest⟩
    rintro _ ⟨rfl⟩ hact
    exact absurd hact hout.not_active
  | retried => exact ⟨fun r hr hact => (by cases hr; cases hact), h.byLatest⟩
  | cancelled | dropped | pruned | swept => exact ⟨by simp, h.byLatest⟩

end

/-- A step keeps the record. -/
theorem Change.recorded (hc : Change s m p s') (hg : Good s) (hb : Backed many s m p) (h : Recorded s) :
    Recorded s' := by
  cases hc with
  | quiet hrow htrace =>
    refine ⟨fun id r hr => ?_, htrace ▸ h.byLatest⟩
    rw [htrace]
    exact h.active id r (hrow id ▸ hr)
  | handed => exact ⟨h.active, h.byLatest⟩
  | submitted =>
    refine ⟨fun id r hr hact => ?_, h.byLatest⟩
    rcases row_save hr with hr | ⟨rfl, rfl⟩
    · exact h.active id r hr hact
    · cases hact
  | @warned msg =>
    refine ⟨fun id r hr hact => ?_, h.byLatest⟩
    rcases row_save hr with hr | ⟨rfl, rfl⟩
    · exact h.active id r hr hact
    · have hd : msg.state = .deferred := hb
      simp [Message.json, hd] at hact
  | @transacted _ c clock cur st hp hrow he =>
    obtain ⟨hactive, hby⟩ := he.ends.recorded hg (hb.txn_of hp) hrow h
    refine ⟨fun id r hr hact => ?_, hby⟩
    by_cases hne : id = c.id
    · subst hne
      rw [row_commit, hrow] at hr
      exact hactive r hr hact
    · rw [row_commit_of_ne (Ne.symm hne)] at hr
      exact (he.ends.latest_of_ne (hg.filed _ _ hrow).1 hne s.trace).trans (h.active id r hr hact)

end Changes

/-! ### Runs -/

/-- A manager without delay warnings. -/
def plain (name : String) : Manager := new (ascii name) defaultOptions false

end Mailezine.Queue
