import Mailezine.Queue.Claims

/-! The due index of the outbound queue, and the one write that can spoil it.

    The scheduler finds work through the due index only, so a message without an entry is never
    delivered and an entry without a message is looked at forever. The save of a delay warning writes
    the worker's whole copy of the row after the claim has been given up. -/

namespace Mailezine.Queue
open Gostd Schemes

/-- EXACT: in every careful run the due index has one entry for each message that is not terminal, at
    its position in Unix seconds, and no other. -/
theorem due_index_exact (clock : Int) (acts : List Action)
    (h : steady (step .native) (careful true) (idle clock) acts = true) (id : Nat) (pos : Int) :
    (pos, id) ∈ (run .native (idle clock) acts).shared.table.due ↔
      ∃ r, (run .native (idle clock) acts).shared.row id = some r ∧ isTerminal r.state = false ∧
        pos = unix (duePos r) := by
  have hk := runs_invariant (fun w a => kept_step .native w a) acts _ (kept_idle true clock) h
  refine (hk.shared.exact id pos).trans ?_
  change indexed ((run .native (idle clock) acts).shared.row id) = some pos ↔ _
  cases hrow : (run .native (idle clock) acts).shared.row id with
  | none => simp [indexed]
  | some r =>
    cases hterm : isTerminal r.state with
    | true => simp [indexed, hterm]
    | false => simpa [indexed, hterm] using eq_comm

/-! ### A warning saved in time and a warning saved late -/

/-- A manager that warns as soon as a message is put off. -/
def eager (name : String) : Manager := new (ascii name) { defaultOptions with delayWarning := 1 } true

/-- A message to one recipient. -/
def letter : Submission := ⟨ascii "a@example.org", [ascii "b@example.net"], ascii "hello", ascii "body"⟩

/-- Steps of one thread, its deliveries refused for the time being. -/
def turns (i k : Nat) : List Action := List.replicate k (.advance i { verdict := .error (ascii "timeout") })

/-- A message is submitted, and a second later a worker puts it off and decides on a warning. -/
def warned : List Action :=
  List.flatten [[.start (eager "n1") (.submit letter)], turns 0 3, [.tick (10 ^ 9)],
    [.start (eager "n1") (.process 1)], turns 1 7]

/-- The warning is saved; later another node takes the message on. -/
theorem due_index_exact_after_warning :
    let acts := List.flatten [warned, turns 1 1, [.tick (600 * 10 ^ 9), .start (eager "n2") (.process 1)], turns 2 2]
    let w := run .native (idle 0) acts
    steady (step .native) (careful true) (idle 0) acts = true ∧ w.shared.table.due = {(1201, 1)} ∧
      ∃ r, w.shared.row 1 = some r ∧ isTerminal r.state = false ∧ 1201 = unix (duePos r) := by
  refine ⟨by decide +kernel, by decide +kernel, ?_⟩
  exact (due_index_exact 0 _ (by decide +kernel) 1 1201).mp (by decide +kernel)

/-- The message is cancelled before the warning is saved: the save brings the row back, and no entry
    of the due index leads to it. -/
theorem late_warning_is_unindexed :
    let w := run .native (idle 0)
      (List.flatten [warned, [.start (eager "n1") (.cancel 1)], turns 2 2, turns 1 1])
    (w.shared.row 1).map (·.state) = some .deferred ∧ w.shared.table.due = ∅ := by
  decide +kernel

/-! ### What the save of a warning changes -/

/-- Warnings are about messages that are put off. -/
def Deferring : Phase → Prop
  | .warning msg | .saving msg => msg.state = .deferred
  | _ => True

theorem Phase.Idle.deferring {p : Phase} (h : p.Idle) : Deferring p := by
  cases h <;> trivial

theorem Ends.deferring {m : Manager} {clock : Int} {cur : Message} {c : Call} {row : Option Message}
    {evs : List Event} {q : Phase} (he : Ends m clock cur c row evs q) : Deferring q := by
  cases he with
  | kept hidle | committed _ _ hidle | cancelled _ hidle | pruned _ hidle => exact hidle.deferring
  | deferred _ hstate => exact hstate
  | _ => trivial

theorem Leads.deferring {env : Env} {s s' : Shared} {m : Manager} {p p' : Phase} (h : Leads env s m p s' p')
    (hd : Deferring p) : Deferring p' := by
  cases h with
  | rests hidle | erased hidle => exact hidle.deferring
  | warns => exact hd
  | transacted _ _ he => exact he.ends.deferring
  | _ => trivial

theorem deferring_run (mode : Mode) (clock : Int) (acts : List Action) :
    System.Inv (fun _ => True) (fun _ t => Deferring t.phase) (fun _ _ => True)
      (run mode (idle clock) acts) := by
  refine runs_always (fun w a h => ?_) acts _ (.init trivial)
  cases a with
  | tick d =>
    rw [step]
    exact h.alter (fun _ => trivial) fun _ ht => ht
  | start m job =>
    refine h.spawn ?_ fun _ _ => ⟨trivial, trivial⟩
    cases job with
    | submit sub =>
      simp only [Job.phase]
      split <;> trivial
    | _ => trivial
  | advance i env =>
    refine h.move fun t _ _ hd => ⟨trivial, (leads_advance mode env _ t.mgr t.phase).deferring hd, fun u _ _ hu => ?_⟩
    exact ⟨hu, trivial, trivial⟩
  | halt i =>
    rw [step]
    exact h.move fun t _ _ _ => ⟨trivial, trivial, fun u _ _ hu => ⟨hu, trivial, trivial⟩⟩

/-- The warning that a thread is about to save. -/
def savedBy (w : World) (i : Nat) : Option Message :=
  match w.threads[i]? with
  | some ⟨_, .saving msg⟩ => some msg
  | _ => none

/-- Nothing in the store has changed but the two fields of a warning, in a row that was there. -/
def OnlyWarned (id : Nat) (s s' : Shared) : Prop :=
  s'.blobs = s.blobs ∧ ∃ r x y, s.row id = some r ∧
    s'.table = { s.table with rows := s.table.rows.insert id { r with lastWarningAt := x, updatedAt := y } }

theorem thread_of_savedBy {w : World} {i : Nat} {msg : Message} (h : savedBy w i = some msg) :
    ∃ m, w.threads[i]? = some ⟨m, .saving msg⟩ := by
  unfold savedBy at h
  split at h
  case h_1 m msg' ht =>
    cases h
    exact ⟨m, ht⟩
  case h_2 => cases h

/-- The operations of the save: the row, and its entry when the time of the next attempt is zero. -/
theorem batch_warning (t : Table) (clock : Int) {msg : Message} (hd : msg.state = .deferred) :
    t.batch msg.id (saveOps clock msg msg.nextAttempt) = { t with
        rows := t.rows.insert msg.id { msg with updatedAt := clock }.json
        due := if msg.nextAttempt = zeroTime then insert (unix msg.nextAttempt, msg.id) t.due else t.due } := by
  by_cases hz : msg.nextAttempt = zeroTime
  · simp [saveOps, duePos, hd, isTerminal, hz, Table.batch, Table.write]
  · simp [saveOps, duePos, hd, isTerminal, hz, Table.batch, Table.write]

/-- HARMLESS: after any run, the save of a delay warning changes nothing but the two fields of the
    warning exactly when the row still is the worker's copy, those fields apart; for a message whose
    next attempt is at time zero its entry must be there too. -/
theorem warning_save_harmless_iff (mode : Mode) (clock : Int) (acts : List Action) (i : Nat) (env : Env)
    (msg : Message) (hmsg : savedBy (run mode (idle clock) acts) i = some msg) :
    OnlyWarned msg.id (run mode (idle clock) acts).shared
        (step mode (run mode (idle clock) acts) (.advance i env)).shared ↔
      agrees ((run mode (idle clock) acts).shared.row msg.id) msg = true ∧ (msg.nextAttempt = zeroTime →
          (unix msg.nextAttempt, msg.id) ∈ (run mode (idle clock) acts).shared.table.due) := by
  obtain ⟨m, ht⟩ := thread_of_savedBy hmsg
  have hd : msg.state = .deferred := (deferring_run mode clock acts).each i _ ht
  generalize run mode (idle clock) acts = w at ht ⊢
  have hstep : (step mode w (.advance i env)).shared =
      w.shared.commit msg.id ⟨saveOps w.shared.clock msg msg.nextAttempt, [.delayed msg.id], .finished⟩ := by
    simp only [step, System.move, ht]
    rfl
  rw [hstep, OnlyWarned, Shared.commit, batch_warning _ _ hd]
  constructor
  · rintro ⟨-, r, x, y, hrow, htable⟩
    obtain ⟨hrows, hdue, -⟩ := Table.mk.inj htable
    have hput := congrArg (fun t : Std.ExtTreeMap Nat Message compare => t[msg.id]?) hrows
    simp only [getElem?_insert_row, if_true, Option.some.injEq] at hput
    -- set the two fields of both sides to those of the row
    have hr := congrArg (fun q : Message =>
      { q with lastWarningAt := r.lastWarningAt, updatedAt := r.updatedAt }) hput
    refine ⟨?_, fun hz => ?_⟩
    · rw [hrow]
      exact decide_eq_true hr.symm
    · rw [if_pos hz] at hdue
      rw [← hdue]
      exact Finset.mem_insert_self _ _
  · rintro ⟨hag, hin⟩
    obtain ⟨r, hrow, hr⟩ := row_of_agrees hag
    refine ⟨rfl, r, msg.lastWarningAt, w.shared.clock, hrow, ?_⟩
    have hput : { msg with updatedAt := w.shared.clock }.json =
        { r with lastWarningAt := msg.lastWarningAt, updatedAt := w.shared.clock } := by
      rw [hr]
      rfl
    have hdue : (if msg.nextAttempt = zeroTime then
        insert (unix msg.nextAttempt, msg.id) w.shared.table.due else w.shared.table.due) =
          w.shared.table.due := by
      split
      · exact Finset.insert_eq_self.mpr (hin ‹_›)
      · rfl
    rw [hput, hdue]

/-- The warning of a message that nobody touched in the meantime. -/
theorem warning_save_harmless_in_time : ∃ msg, savedBy (run .native (idle 0) warned) 1 = some msg ∧
      OnlyWarned msg.id (run .native (idle 0) warned).shared
        (step .native (run .native (idle 0) warned) (.advance 1 {})).shared := by
  have hsome : (savedBy (run .native (idle 0) warned) 1).isSome = true := by decide +kernel
  refine ⟨_, (Option.some_get hsome).symm, ?_⟩
  refine (warning_save_harmless_iff .native 0 warned 1 {} _ (Option.some_get hsome).symm).mpr ?_
  decide +kernel +revert

/-- The save re-creates the row of a message that was cancelled in the meantime. -/
theorem late_warning_revives_row :
    let w := run .native (idle 0) (List.flatten [warned, [.start (eager "n1") (.cancel 1)], turns 2 2])
    (savedBy w 1).isSome = true ∧ w.shared.row 1 = none ∧
      ((step .native w (.advance 1 {})).shared.row 1).map (·.state) = some .deferred := by
  decide +kernel

end Mailezine.Queue
