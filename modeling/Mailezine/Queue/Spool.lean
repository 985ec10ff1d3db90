import Mailezine.Queue.DueIndex

/-! Bodies in the spool: the blob of a message is there as long as its row may need it.

    The body is put before the row is saved, and deleted after the row has become terminal or is gone.
    Nothing brings such a row back, a late delay warning apart, and IDs are not used twice, so a body is
    never deleted under a message that waits. -/

namespace Mailezine.Queue
open Gostd Schemes

/-! ### Names of blobs -/

theorem hexDigit_ascii : ∀ d < 16, hexDigit d ≤ 0x7f := by decide

/-- Blob names survive `encoding/json`. -/
theorem coerceUTF8_blobName (id : Nat) : coerceUTF8 (blobName id) = blobName id := by
  refine coerceFrom_ascii fun b hb => ?_
  rcases List.mem_append.mp hb with hb | hb
  · exact (by decide +kernel : ∀ b ∈ ascii "q-", b ≤ 0x7f) b hb
  · obtain ⟨d, hd, rfl⟩ := List.mem_map.mp hb
    exact hexDigit_ascii d (hexDigits_lt (List.mem_reverse.mp hd))

/-! ### Rows that need their body -/

/-- A message that is not terminal. -/
def Alive (s : Shared) (id : Nat) : Prop := ∃ r, s.row id = some r ∧ isTerminal r.state = false

/-- A message that was handed out and is terminal or removed. -/
def Gone (s : Shared) (id : Nat) : Prop := id ≤ s.table.counter ∧ ¬ Alive s id

/-- The blob that a thread is about to delete. -/
def Phase.erasing : Phase → Option Str
  | .reclaiming msg => some msg.blobID
  | .dropping blob | .sweeping blob _ _ => some blob
  | _ => none

/-- Rows name their blobs, and those that need them have them. -/
structure Spooled (s : Shared) : Prop where
  named : ∀ id r, s.row id = some r → id ≤ s.table.counter ∧ r.id = id ∧ r.blobID = blobName id
  present : ∀ id, Alive s id → blobName id ∈ s.blobs

/-- What a thread knows about blobs. -/
def Stored (s : Shared) : Phase → Prop
  | .spooling id _ => s.row id = none ∧ id ≤ s.table.counter
  | .queueing id _ _ => s.row id = none ∧ id ≤ s.table.counter ∧ blobName id ∈ s.blobs
  | .reading msg | .handing msg _ | .delivering msg | .txn (.commit msg) | .flush (.commit msg) _ _ |
    .warning msg | .saving msg => msg.blobID = blobName msg.id
  | .reclaiming msg => msg.blobID = blobName msg.id ∧ Gone s msg.id
  | .dropping blob | .sweeping blob _ _ => ∃ id, blob = blobName id ∧ Gone s id
  | _ => True

/-- A Submit has its ID for itself, and nobody deletes its blob. -/
structure Distinct (t u : Thread) : Prop where
  submits : ∀ id, t.phase.submitting = some id → u.phase.submitting ≠ some id
  blobs : ∀ id, t.phase.submitting = some id → u.phase.erasing ≠ some (blobName id)

section Changes
variable {s s' : Shared} {m : Manager} {p : Phase}

/-- Messages come to life only by Submit. -/
theorem Change.alive (hc : Change s m p s') (hsave : Saves s p) {id : Nat} (h : Alive s' id) :
    Alive s id ∨ ∃ sub now, p = .queueing id sub now := by
  obtain ⟨r, hr, hterm⟩ := h
  cases hc.comes hsave hr with
  | old hrow => exact .inl ⟨r, hrow, hterm⟩
  | submitted => exact .inr ⟨_, _, rfl⟩
  | warned hrow hr₀ => exact .inl ⟨_, hrow, by rw [hr₀]; exact hterm⟩
  | @transacted _ _ c _ cur _ _ hp hrow he =>
    refine .inl ⟨cur, hrow, ?_⟩
    cases he with
    | kept => exact hterm
    | claimed h | retried _ h => exact h
    | committed hf | ended hf | deferred hf =>
      have hact : cur.state = .active := by simpa using (Bool.and_eq_true_iff.mp hf).1
      rw [hact]
      rfl

variable {c : Call}

theorem Stored.txn_of (h : Stored s p) (hp : p = .txn c ∨ ∃ seen clk, p = .flush c seen clk) :
    Stored s (.txn c) := by
  rcases hp with rfl | ⟨seen, clk, rfl⟩
  · exact h
  · cases c <;> exact h

/-- Rows go on naming their blobs. -/
theorem Change.named (hc : Change s m p s') (hst : Stored s p) (h : Spooled s) (hsave : Saves s p) {id : Nat}
    {r : Message} (hr : s'.row id = some r) : id ≤ s'.table.counter ∧ r.id = id ∧ r.blobID = blobName id := by
  refine (?_ : id ≤ s.table.counter ∧ r.id = id ∧ r.blobID = blobName id).imp_left hc.counter_le.trans'
  cases hc.comes hsave hr with
  | old hrow => exact h.named id r hrow
  | submitted => exact ⟨hst.2.1, rfl, coerceUTF8_blobName id⟩
  | warned hrow hr₀ =>
    obtain ⟨hle, -, hblob⟩ := h.named _ _ hrow
    rw [hr₀] at hblob
    exact ⟨hle, rfl, hblob⟩
  | transacted hp hrow he =>
    obtain ⟨hle, hid, hblob⟩ := h.named _ _ hrow
    refine ⟨hle, ?_⟩
    cases he with
    | kept => exact ⟨hid, hblob⟩
    | claimed | retried => exact ⟨hid, (congrArg coerceUTF8 hblob).trans (coerceUTF8_blobName _)⟩
    | @committed out | @ended out | @deferred out =>
      have hout : out.blobID = blobName out.id := hst.txn_of hp
      exact ⟨rfl, (congrArg coerceUTF8 hout).trans (coerceUTF8_blobName _)⟩

/-- What others may do without hurting a thread. -/
theorem Stored.stable (h : Stored s p) (hcount : s.table.counter ≤ s'.table.counter)
    (hnone : ∀ id, p.submitting = some id → s.row id = none → s'.row id = none)
    (hblob : ∀ id, p.submitting = some id → blobName id ∈ s.blobs → blobName id ∈ s'.blobs)
    (hgone : ∀ id, p.erasing = some (blobName id) → Gone s id → Gone s' id) : Stored s' p := by
  cases p with
  | spooling id sub => exact ⟨hnone id rfl h.1, h.2.trans hcount⟩
  | queueing id sub now => exact ⟨hnone id rfl h.1, h.2.1.trans hcount, hblob id rfl h.2.2⟩
  | reclaiming msg => exact ⟨h.1, hgone msg.id (congrArg some h.1) h.2⟩
  | dropping blob | sweeping blob _ _ =>
    obtain ⟨id, rfl, hg⟩ := h
    exact ⟨id, rfl, hgone id rfl hg⟩
  | txn c | flush c _ _ => cases c <;> exact h
  | _ => exact h

/-- A message that is gone stays so unless its own Submit is still to save it. -/
theorem Change.gone (hc : Change s m p s') (hsave : Saves s p)
    {id : Nat} (hsub : p.submitting ≠ some id) (h : Gone s id) : Gone s' id := by
  refine ⟨h.1.trans hc.counter_le, fun ha => ?_⟩
  rcases hc.alive hsave ha with ha | ⟨sub, now, rfl⟩
  · exact h.2 ha
  · exact hsub rfl

/-! ### Steps -/

/-- Only the blob that a thread is about to delete goes away. -/
theorem Leads.blobs {env : Env} {p' : Phase} (hl : Leads env s m p s' p') {blob : Str}
    (h : blob ∈ s.blobs) (hne : p.erasing ≠ some blob) : blob ∈ s'.blobs := by
  cases hl with
  | spooled => exact Std.ExtTreeMap.mem_insert.mpr (.inr h)
  | @erased _ _ b _ hp =>
    have herase : p.erasing = some b := by
      rcases hp with ⟨msg, rfl, rfl⟩ | rfl | ⟨cutoff, rest, rfl⟩ <;> rfl
    exact (mem_erase_row _ _ _).mpr ⟨fun he => hne (he ▸ herase), h⟩
  | _ => exact h

/-- What a step of a thread keeps of the spool, and where it leads. -/
structure Handled (s : Shared) (p : Phase) (s' : Shared) (p' : Phase) : Prop where
  stored : Stored s' p'
  submitting : ∀ id, p'.submitting = some id → p.submitting = some id ∨ s.table.counter < id
  erasing : ∀ id, p'.erasing = some (blobName id) → ∃ r, s.row id = some r

/-- A step to a phase that neither submits nor deletes. -/
theorem Handled.plain {p' : Phase} (hst : Stored s' p') (hs : p'.submitting = none) (he : p'.erasing = none) :
    Handled s p s' p' :=
  ⟨hst, fun id h => (by rw [hs] at h; cases h), fun id h => (by rw [he] at h; cases h)⟩

theorem Handled.idle {p' : Phase} (h : p'.Idle) : Handled s p s' p' := by
  cases h <;> exact .plain trivial rfl rfl

/-- A transaction that ends with a blob to delete leaves its message gone. -/
theorem Ends.handled {clock : Int} {cur : Message} {evs : List Event} {q : Phase}
    (he : Ends m clock cur c (s'.row c.id) evs q) (hst : Stored s (.txn c)) (hrow : s.row c.id = some cur)
    (h : Spooled s) (hcount : s.table.counter ≤ s'.table.counter) : Handled s p s' q := by
  obtain ⟨hle, hid, hblob⟩ := h.named _ _ hrow
  have hgone : (∀ r, s'.row c.id = some r → isTerminal r.state = true) → Gone s' c.id := by
    refine fun hterm => ⟨hle.trans hcount, fun ⟨r, hr, hrt⟩ => ?_⟩
    rw [hterm r hr] at hrt
    cases hrt
  have hsome : ∀ id, some (blobName c.id) = some (blobName id) → ∃ r, s.row id = some r := fun id he =>
    ⟨cur, blobName_inj (Option.some.inj he) ▸ hrow⟩
  generalize s'.row c.id = row at he hgone
  cases he with
  | kept hidle | committed _ _ hidle | cancelled _ hidle | pruned _ hidle => exact .idle hidle
  | retried => exact .idle .finished
  | claimed => exact .plain (hblob.trans (congrArg blobName hid.symm)) rfl rfl
  | deferred => exact .plain hst rfl rfl
  | @ended out _ hterm =>
    have hout : out.blobID = blobName out.id := hst
    refine ⟨⟨hout, hgone ?_⟩, fun id h => (by cases h), fun id he => hsome id (hout ▸ he)⟩
    rintro _ ⟨rfl⟩
    exact hterm
  | dropped | swept =>
    exact ⟨⟨_, hblob, hgone fun r hr => by cases hr⟩, fun id h => (by cases h), fun j he => hsome j (hblob ▸ he)⟩

theorem Leads.handled {env : Env} {p' : Phase} (hl : Leads env s m p s' p') (hst : Stored s p) (h : Spooled s)
    (hsees : Sees s p) : Handled s p s' p' := by
  cases hl with
  | rests hidle | erased hidle => exact .idle hidle
  | submitted | warned => exact .idle .finished
  | named =>
    refine ⟨⟨?_, le_rfl⟩, fun id h => ?_, fun id h => by cases h⟩
    · cases hr : s.row (s.table.counter + 1) with
      | none => exact hr
      | some r => exact absurd (h.named _ r hr).1 (Nat.not_succ_le_self _)
    · cases h
      exact .inr (Nat.lt_succ_self _)
  | spooled => exact ⟨⟨hst.1, hst.2, Std.ExtTreeMap.mem_insert_self⟩, fun id h => .inl h, fun id h => by cases h⟩
  | due => exact .plain trivial rfl rfl
  | opened | handed | warns => exact .plain hst rfl rfl
  | @settled _ msg out hp hout =>
    have hmsg : msg.blobID = blobName msg.id := by rcases hp with rfl | rfl <;> exact hst
    have hout := outcome_of_settled hout
    exact .plain (show out.blobID = blobName out.id by rw [hout.blobID, hout.id, hmsg]) rfl rfl
  | @staged c => cases c <;> exact .plain hst rfl rfl
  | transacted hp hrow he =>
    have hrow := hrow hsees
    have hend := he.ends
    rw [← hrow, ← row_commit] at hend
    exact hend.handled (hst.txn_of hp) hrow h (counter_commit ..).ge

/-- The messages of the spool have their blobs after the step as well. -/
theorem Leads.spooled_after {env : Env} {p' : Phase} (hl : Leads env s m p s' p') (hst : Stored s p) (h : Spooled s)
    (hsave : Saves s p) (hsees : Sees s p) : Spooled s' := by
  have hc := hl.change hsees
  refine ⟨fun id r hr => hc.named hst h hsave hr, fun id ha => ?_⟩
  rcases hc.alive hsave ha with ha | ⟨sub, now, rfl⟩
  · refine hl.blobs (h.present id ha) fun he => ?_
    -- only blobs of messages that are gone are deleted
    have hgone : Gone s id := by
      cases p with
      | reclaiming msg => exact blobName_inj (hst.1.symm.trans (Option.some.inj he)) ▸ hst.2
      | dropping blob | sweeping blob _ _ =>
        obtain ⟨j, rfl, hg⟩ := hst
        exact blobName_inj (Option.some.inj he) ▸ hg
      | _ => cases he
    exact hgone.2 ha
  · exact hl.blobs hst.2.2 fun he => by cases he

end Changes

/-! ### Runs -/

/-- The invariant: a spool in order, threads that know about their blobs, apart from each other. -/
def Orderly : World → Prop := System.Inv Spooled (fun s t => Stored s t.phase) Distinct

theorem orderly_idle (clock : Int) : Orderly (idle clock) := by
  refine .init ⟨fun id r h => ?_, fun id ⟨r, h, _⟩ => ?_⟩
  · simp [Shared.row] at h
  · simp [Shared.row] at h

/-- The rule under which the spool stays in order. -/
def timely (w : World) (a : Action) : Bool := harmless w a && undisturbed w a

theorem le_counter_of_stored {s : Shared} {p : Phase} {id : Nat} (h : Stored s p)
    (hid : p.submitting = some id) : id ≤ s.table.counter ∧ s.row id = none := by
  cases p with
  | spooling => cases hid; exact ⟨h.2, h.1⟩
  | queueing => cases hid; exact ⟨h.2.1, h.1⟩
  | _ => cases hid

theorem le_counter_of_erasing {s : Shared} {p : Phase} {id : Nat} (h : Stored s p)
    (hid : p.erasing = some (blobName id)) : id ≤ s.table.counter := by
  cases p with
  | reclaiming msg => exact blobName_inj (h.1.symm.trans (Option.some.inj hid)) ▸ h.2.1
  | dropping | sweeping =>
    obtain ⟨j, rfl, hg⟩ := h
    exact blobName_inj (Option.some.inj hid) ▸ hg.1
  | _ => cases hid

theorem Distinct.of_handled {s s' : Shared} {m : Manager} {p p' : Phase} {u : Thread}
    (hh : Handled s p s' p') (h : Distinct ⟨m, p⟩ u) (hu : Stored s u.phase) :
    Distinct ⟨m, p'⟩ u ∧ Distinct u ⟨m, p'⟩ := by
  have hsub : ∀ id, p'.submitting = some id → u.phase.submitting ≠ some id := fun id hid he =>
    (hh.submitting id hid).elim (fun hp => h.submits id hp he)
      fun hlt => absurd (le_counter_of_stored hu he).1 (Nat.not_le.mpr hlt)
  refine ⟨⟨hsub, fun id hid he => ?_⟩, ⟨fun id hid he => hsub id he hid, fun id hid he => ?_⟩⟩
  · exact (hh.submitting id hid).elim (fun hp => h.blobs id hp he)
      fun hlt => absurd (le_counter_of_erasing hu he) (Nat.not_le.mpr hlt)
  · -- a blob is up for deletion only when its message had a row
    obtain ⟨r, hr⟩ := hh.erasing id he
    rw [(le_counter_of_stored hu hid).2] at hr
    cases hr

theorem orderly_start {w : World} (m : Manager) (job : Job) (h : Orderly w) :
    Orderly (w.spawn ⟨m, job.phase⟩) := by
  have hquiet : ∀ p : Phase, p.submitting = none → p.erasing = none → Stored w.shared p →
      Orderly (w.spawn ⟨m, p⟩) := fun p hs he hst => System.Inv.spawn h hst fun u _ =>
    ⟨⟨fun id h => by simp [hs] at h, fun id h => by simp [hs] at h⟩,
      ⟨fun id _ h => by simp [hs] at h, fun id _ h => by simp [he] at h⟩⟩
  cases job with
  | submit sub =>
    simp only [Job.phase]
    split
    · exact hquiet _ rfl rfl trivial
    · exact hquiet _ rfl rfl trivial
  | _ => exact hquiet _ rfl rfl trivial

/-- ORDERLY: a timely step keeps the spool in order. -/
theorem orderly_step (mode : Mode) (w : World) (a : Action) (h : Orderly w) (hok : timely w a = true) :
    Orderly (step mode w a) := by
  obtain ⟨hharm, hundis⟩ := Bool.and_eq_true_iff.mp hok
  cases a with
  | tick d =>
    rw [step]
    refine System.Inv.alter h (fun hs => ⟨hs.named, hs.present⟩) fun t ht => ?_
    exact ht.stable le_rfl (fun _ _ h => h) (fun _ _ h => h) fun _ _ h => h
  | start m job => exact orderly_start m job h
  | advance i env =>
    refine System.Inv.move h fun t ht hs hst => ?_
    have hsave := saves_of_harmless hharm ht
    have hsees := sees_of_undisturbed hundis ht
    have hl := leads_advance mode env w.shared t.mgr t.phase
    have hc := hl.change hsees
    have hh := hl.handled hst hs hsees
    refine ⟨hl.spooled_after hst hs hsave hsees, hh.stored, fun u hd hd' hu => ⟨?_, ?_⟩⟩
    · refine hu.stable hc.counter_le (fun id hid hnone => ?_) (fun id hid hin => ?_) fun id hid hg => ?_
      · exact hc.unborn hsave (fun he => hd.submits id he hid) hnone
      · exact hl.blobs hin (hd'.blobs id hid)
      · exact hc.gone hsave (fun he => hd.blobs id he hid) hg
    · exact Distinct.of_handled hh hd hu
  | halt i =>
    rw [step]
    refine System.Inv.move h fun t ht hs hst => ⟨hs, trivial, fun u hd hd' hu => ⟨hu, ?_⟩⟩
    have hh : Handled w.shared t.phase w.shared .finished := .idle .finished
    exact Distinct.of_handled (m := t.mgr) hh hd hu

/-- SPOOLED: in every run whose delay warnings are saved in time, whatever crashes, each message that
    is not terminal has its body in the blob store, and no two messages share one. -/
theorem bodies_outlive_rows (clock : Int) (acts : List Action)
    (h : steady (step .native) timely (idle clock) acts = true) :
    let s := (run .native (idle clock) acts).shared
    (∀ id r, s.row id = some r → isTerminal r.state = false → r.blobID ∈ s.blobs) ∧
      ∀ id id' r r', s.row id = some r → s.row id' = some r' → r.blobID = r'.blobID → id = id' := by
  have ho := runs_invariant (fun w a => orderly_step .native w a) acts _ (orderly_idle clock) h
  refine ⟨fun id r hr hterm => ?_, fun id id' r r' hr hr' he => ?_⟩
  · rw [(ho.shared.named id r hr).2.2]
    exact ho.shared.present id ⟨r, hr, hterm⟩
  · rw [(ho.shared.named id r hr).2.2, (ho.shared.named id' r' hr').2.2] at he
    exact blobName_inj he

/-- Two messages; the worker of the first crashes before its commit, the second is cancelled, and its
    body is gone while that of the first is kept. -/
theorem bodies_outlive_rows_crash :
    let acts := List.flatten [[.start (eager "n1") (.submit letter)], turns 0 3,
      [.start (eager "n2") (.submit letter)], turns 1 3, [.start (eager "n1") (.process 1)], turns 2 4, [.halt 2],
      [.start (eager "n2") (.cancel 2)], turns 3 2]
    let s := (run .native (idle 0) acts).shared
    steady (step .native) timely (idle 0) acts = true ∧ s.blobs.keys = [blobName 1] ∧
      ∃ r, s.row 1 = some r ∧ isTerminal r.state = false ∧ r.blobID ∈ s.blobs := by
  intro acts s
  have hsome : (s.row 1).isSome = true := by decide +kernel
  have hrow := (Option.some_get hsome).symm
  have hterm : isTerminal ((s.row 1).get hsome).state = false := by decide +kernel +revert
  refine ⟨by decide +kernel, by decide +kernel, _, hrow, hterm, ?_⟩
  exact (bodies_outlive_rows 0 acts (by decide +kernel)).1 1 _ hrow hterm

/-- The message is cancelled and its body deleted before the warning is saved: the save brings the row
    back without the body. -/
theorem late_warning_row_has_no_body :
    let s := (run .native (idle 0)
      (List.flatten [warned, [.start (eager "n1") (.cancel 1)], turns 2 2, turns 1 1])).shared
    (s.row 1).map (fun r => (isTerminal r.state, s.blobs.contains r.blobID)) = some (false, false) := by
  decide +kernel

end Mailezine.Queue
