import Mailezine.Queue.DueIndex
import Mailezine.Queue.Fencing

/-! The queue on a store without transactions of its own.

    There a closure reads, and what it wrote is applied later without a look at what it read. One
    manager's workers keep out of each other's way, and their claims keep Cancel and Retry off, as long
    as every closure's writes find the row that the closure saw. Nothing in the code sees to that. -/

namespace Mailezine.Queue
open Gostd Schemes List

/-! ### Claims that cannot be stolen -/

/-- With one worker for each message a claim is in the row until it is committed. -/
theorem row_of_holding {s : Shared} {m : Manager} {p : Phase} {msg : Message}
    (hb : Backed false s m p) (h : p.holding = some msg) :
    ∃ r, s.row msg.id = some r ∧ r.state = .active ∧ fence m.nodeID r = true := by
  have hheld : ∀ msg, m.Text → Held false s m.nodeID msg →
      ∃ r, s.row msg.id = some r ∧ r.state = .active ∧ fence m.nodeID r = true := by
    rintro msg ht (⟨hrow, hact, hown⟩ | ⟨hfalse, -⟩)
    · exact ⟨msg.json, hrow, hact, fence_json ht hact hown⟩
    · cases hfalse
  have hcommit : ∀ out, Backed false s m (.txn (.commit out)) →
      ∃ r, s.row out.id = some r ∧ r.state = .active ∧ fence m.nodeID r = true := by
    rintro out ⟨ht, msg, hout, hh⟩
    rw [hout.id]
    exact hheld msg ht hh
  cases p with
  | reading | handing | delivering =>
    cases h
    exact hheld msg hb.1 hb.2
  | txn c | flush c _ _ =>
    cases c with
    | commit out =>
      cases h
      exact hcommit msg hb
    | _ => cases h
  | _ => cases h

/-! ### Messages that were cancelled -/

/-- A cancelled message has no row, and its ID was handed out. -/
def Erased (s : Shared) : Prop :=
  ∀ id, .cancelled id ∈ s.trace → s.row id = none ∧ id ≤ s.table.counter

/-- No Submit is about a cancelled message. -/
def Fresh (s : Shared) (p : Phase) : Prop := ∀ id, p.submitting = some id → .cancelled id ∉ s.trace

section Changes
variable {s s' : Shared} {m : Manager} {p : Phase}

theorem Ends.cancels {clock : Int} {cur : Message} {c : Call} {row : Option Message} {evs : List Event} {q : Phase}
    {id : Nat} (he : Ends m clock cur c row evs q) (hid : cur.id = c.id) (h : .cancelled id ∈ evs) :
    c.id = id ∧ row = none := by
  cases he with
  | cancelled | dropped =>
    obtain rfl : id = cur.id := by simpa using h
    exact ⟨hid.symm, rfl⟩
  | _ => simp at h

/-- A cancel removes a row. -/
theorem Change.cancels (hc : Change s m p s') (hg : Good s) {id : Nat} (h : .cancelled id ∈ s'.trace) :
    .cancelled id ∈ s.trace ∨ (∃ cur, s.row id = some cur) ∧ s'.row id = none := by
  cases hc with
  | quiet _ htrace => exact .inl (htrace ▸ h)
  | handed | submitted | warned => exact .inl (by simpa [Shared.commit] using h)
  | @transacted _ c clock cur st hp hrow he =>
    refine (mem_append.mp h).symm.imp_right fun h => ?_
    obtain ⟨rfl, hnone⟩ := he.ends.cancels (hg.filed _ _ hrow).1 h
    exact ⟨⟨cur, hrow⟩, by rw [row_commit, hrow]; exact hnone⟩

/-- A cancelled message stays without a row. -/
theorem Change.erased (hc : Change s m p s') (hg : Good s) (hf : Fresh s p) (h : Erased s)
    (hsave : Saves s p) : Erased s' := by
  intro id hid
  rcases hc.cancels hg hid with hold | ⟨⟨cur, hcur⟩, hnone⟩
  · obtain ⟨hnone, hle⟩ := h id hold
    exact ⟨hc.unborn hsave (fun he => hf id he hold) hnone, hle.trans hc.counter_le⟩
  · exact ⟨hnone, (hg.filed id cur hcur).2.trans hc.counter_le⟩

end Changes

/-- The invariant of cancelled messages. -/
def Final : World → Prop := System.Inv Erased (fun s t => Fresh s t.phase) fun _ _ => True

theorem final_idle (clock : Int) : Final (idle clock) := .init fun id h => by simp at h

/-- FINAL: a careful step lets no cancelled message come back. -/
theorem final_step {many : Bool} (mode : Mode) (w : World) (a : Action) (hk : Kept many w) (h : Final w)
    (hok : careful many w a = true) : Final (step mode w a) := by
  cases a with
  | tick d =>
    rw [step]
    exact System.Inv.alter h (fun he => he) fun t ht => ht
  | start m job =>
    refine System.Inv.spawn h (fun id hid => ?_) fun _ _ => ⟨trivial, trivial⟩
    cases job with
    | submit sub =>
      simp only [Job.phase] at hid
      split at hid <;> cases hid
    | _ => cases hid
  | advance i env =>
    refine System.Inv.moveOn hk h fun t ht he hf => ?_
    have hsave := saves_of_careful hok ht
    have hsees := sees_of_undisturbed (undisturbed_of_careful hok) ht
    have hb : Backed many w.shared t.mgr t.phase := hk.each i t ht
    have hl := leads_advance mode env w.shared t.mgr t.phase
    have hm := hl.move hk.shared hb hsave hsees
    have hc := hl.change hsees
    refine ⟨hc.erased hk.shared hf he hsave, fun id hid hin => ?_, fun u _ hu _ _ hfu => ⟨?_, trivial, trivial⟩⟩
    · rcases hc.cancels hk.shared hin with hold | ⟨⟨cur, hcur⟩, -⟩
      · exact (hm.submitting id hid).elim (fun hp => hf id hp hold)
          fun hlt => absurd (he id hold).2 (Nat.not_le.mpr hlt)
      · rcases hm.submitting id hid with hp | hlt
        · rw [row_none_of_submitting hb hp] at hcur
          cases hcur
        · exact absurd (hk.shared.filed id cur hcur).2 (Nat.not_le.mpr hlt)
    · intro id hid hin
      rcases hc.cancels hk.shared hin with hold | ⟨⟨cur, hcur⟩, -⟩
      · exact hfu id hid hold
      · rw [row_none_of_submitting hu hid] at hcur
        cases hcur
  | halt i =>
    rw [step]
    exact System.Inv.move h fun t _ he _ =>
      ⟨he, fun id hid => (by cases hid), fun u _ _ hu => ⟨hu, trivial, trivial⟩⟩

/-! ### Isolation -/

/-- A Retry that comes through finds no worker on its message. -/
theorem Ends.idle_of_retried {m : Manager} {clock : Int} {cur : Message} {c : Call} {row : Option Message}
    {evs : List Event} {q : Phase} {id : Nat} (he : Ends m clock cur c row evs q) (hid : cur.id = c.id)
    (h : .retried id ∈ evs) : c.id = id ∧ cur.state ≠ .active := by
  cases he with
  | retried hact =>
    obtain rfl : id = cur.id := by simpa using h
    exact ⟨hid.symm, hact⟩
  | _ => simp at h

theorem Change.idle_of_retried {s s' : Shared} {m : Manager} {p : Phase} {id : Nat} (hc : Change s m p s')
    (hg : Good s) (h : s'.trace = .retried id :: s.trace) : ∃ cur, s.row id = some cur ∧ cur.state ≠ .active := by
  cases hc with
  | quiet _ htrace => exact absurd (htrace.symm.trans h) (cons_ne_self _ _).symm
  | handed | submitted | warned => simp [Shared.commit] at h
  | @transacted _ c clock cur st hp hrow he =>
    have hev : st.events = [.retried id] := append_left_injective s.trace h
    obtain ⟨rfl, hact⟩ := he.ends.idle_of_retried (hg.filed _ _ hrow).1 (hev ▸ mem_singleton_self _)
    exact ⟨cur, hrow, hact⟩

/-- ISOLATED: on a buffered store, in every run of one manager where a message has one worker at a time,
    delay warnings are saved in time and writes find the row that their closure saw: no worker has a
    message that was cancelled, no worker has a message at the time it is retried, and the outcome of
    every delivery gets into the row. -/
theorem buffered_calls_isolated (clock : Int) (acts : List Action) (a : Action)
    (h : steady (step .buffered) (careful false) (idle clock) (acts ++ [a]) = true) :
    let w := run .buffered (idle clock) acts
    let w' := step .buffered w a
    (∀ id, .cancelled id ∈ w'.shared.trace → ∀ t ∈ w'.threads, ∀ msg, t.phase.holding = some msg → msg.id ≠ id) ∧
    (∀ id, w'.shared.trace = .retried id :: w.shared.trace →
      ∀ t ∈ w.threads, ∀ msg, t.phase.holding = some msg → msg.id ≠ id) ∧
    ∀ i env m out seen now, a = .advance i env → w.threads[i]? = some ⟨m, .flush (.commit out) seen now⟩ →
      w'.shared.row out.id = some { out with updatedAt := now }.json := by
  intro w w'
  rw [steady_append, Bool.and_eq_true] at h
  obtain ⟨hacts, ha⟩ := h
  have ha : careful false w a = true := (Bool.and_eq_true_iff.mp ha).1
  obtain ⟨hk, hf⟩ : Kept false w ∧ Final w :=
    runs_invariant (I := fun w => Kept false w ∧ Final w)
      (fun w a hi ha => ⟨kept_step .buffered w a hi.1 ha, final_step .buffered w a hi.1 hi.2 ha⟩) acts _
      ⟨kept_idle false clock, final_idle clock⟩ hacts
  have hk' : Kept false w' := kept_step .buffered w a hk ha
  refine ⟨fun id hid t ht msg hm he => ?_, fun id htrace t ht msg hm he => ?_, ?_⟩
  · obtain ⟨j, hj⟩ := mem_iff_getElem?.mp ht
    obtain ⟨r, hr, -, -⟩ := row_of_holding (hk'.each j t hj) hm
    rw [he, ((final_step .buffered w a hk hf ha).shared id hid).1] at hr
    cases hr
  · obtain ⟨j, hj⟩ := mem_iff_getElem?.mp ht
    obtain ⟨r, hr, hact, -⟩ := row_of_holding (hk.each j t hj) hm
    rcases step_change .buffered w a (undisturbed_of_careful ha) with ⟨-, hsame⟩ | ⟨i, env, u, rfl, hu, hc⟩
    · exact absurd (hsame.symm.trans htrace) (cons_ne_self _ _).symm
    · obtain ⟨cur, hcur, hne⟩ := hc.idle_of_retried hk.shared htrace
      obtain rfl : r = cur := Option.some.inj (hr.symm.trans (he ▸ hcur))
      exact hne hact
  · rintro i env m out seen now rfl ht
    obtain ⟨r, hr, -, hfence⟩ := row_of_holding (hk.each i _ ht) rfl
    obtain rfl : some r = seen := hr.symm.trans (sees_of_undisturbed (undisturbed_of_careful ha) ht _ _ _ rfl)
    have hstep : w'.shared = w.shared.commit out.id (commitTxn m now out r) := by
      simp only [w', step, System.move, ht]
      rfl
    rw [hstep, row_commit, rowAfter_commitTxn hfence]

/-! ### A cancel between a claim's read and its write -/

/-- A message is submitted and cancelled before its worker starts; all writes find what was read. -/
theorem buffered_calls_isolated_cancel :
    let acts := List.flatten [[.start (plain "n1") (.submit letter)], turns 0 3,
      [.start (plain "n1") (.cancel 1)], turns 1 2, [.start (plain "n1") (.process 1)], turns 2 2]
    let w := run .buffered (idle 0) (acts ++ [.advance 2 {}])
    steady (step .buffered) (careful false) (idle 0) (acts ++ [.advance 2 {}]) = true ∧
      .cancelled 1 ∈ w.shared.trace ∧ ∀ t ∈ w.threads, ∀ msg, t.phase.holding = some msg → msg.id ≠ 1 := by
  intro acts w
  have hin : .cancelled 1 ∈ w.shared.trace := by decide +kernel
  refine ⟨by decide +kernel, hin, ?_⟩
  have hrun : w = step .buffered (run .buffered (idle 0) acts) (.advance 2 {}) := by
    simp [w, run, runs]
  rw [hrun] at hin ⊢
  exact (buffered_calls_isolated 0 acts (.advance 2 {}) (by decide +kernel)).1 1 hin

/-- Cancel has read the row when the worker claims the message; its write comes through, and the
    worker goes on with a cancelled message. -/
theorem cancel_passes_claim :
    let w := run .buffered (idle 0) (List.flatten [[.start (plain "n1") (.submit letter)], turns 0 3,
      [.start (plain "n1") (.cancel 1)], turns 1 1, [.start (plain "n1") (.process 1)], turns 2 4, turns 1 1])
    .cancelled 1 ∈ w.shared.trace ∧
      (w.threads.filterMap fun t => t.phase.holding.map (·.id)) = [1] ∧ w.shared.row 1 = none := by
  decide +kernel

end Mailezine.Queue
