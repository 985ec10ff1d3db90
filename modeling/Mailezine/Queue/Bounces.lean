import Mailezine.Queue.Spool

/-! Bounces and the calls of the bounce handler.

    A worker that has committed the end of a message deletes its body and only then tells the sender
    that it bounced. A row becomes terminal once, so the sender is not told twice; but a body that cannot
    be deleted ends the worker, and then nobody tells the sender. -/

namespace Mailezine.Queue
open Gostd Schemes List

/-- `BounceFailure`. -/
structure BounceFailure where
  addr : Str
  status : Str
  comment : Str
  deriving DecidableEq

/-- The recipients that bounced. -/
def failures (msg : Message) : List BounceFailure :=
  (msg.recipients.filter fun r => r.status = .bounced).map fun r => ⟨r.address, ascii "5.0.0", r.lastError⟩

/-- A call of the bounce handler; its body is left out. -/
structure BounceCall where
  msg : Message
  failures : List BounceFailure
  deriving DecidableEq

/-- `maybeBounce`, with a handler installed. -/
def maybeBounce (msg : Message) : List BounceCall :=
  if msg.state ≠ .bounced ∨ failures msg = [] then [] else [⟨msg, failures msg⟩]

/-- The calls that a step makes: the worker goes on when the body is deleted. -/
def bounceCalls (w : World) : Action → List BounceCall
  | .advance i _ =>
    match w.threads[i]? with
    | some ⟨_, .reclaiming msg⟩ => maybeBounce msg
    | _ => []
  | _ => []

/-- The queue with the calls so far, latest first. -/
structure Notified where
  world : World
  calls : List BounceCall := []

def Notified.step (mode : Mode) (n : Notified) (a : Action) : Notified :=
  ⟨Queue.step mode n.world a, bounceCalls n.world a ++ n.calls⟩

/-- The messages that were committed as bounced, latest first. -/
def bouncedIn (trace : List Event) : List Message :=
  trace.filterMap fun
    | .committed _ msg => if msg.state = .bounced then some msg else none
    | _ => none

/-- The bounce that a worker has still to report. -/
def Phase.told : Phase → List Message
  | .reclaiming msg => if msg.state = .bounced then [msg] else []
  | _ => []

/-- The bounces that workers have still to report. -/
def waiting (w : World) : List Message := w.threads.flatMap (·.phase.told)

/-- No worker stops at the body of a message that bounced. -/
def deletes (w : World) : Action → Bool
  | .halt i =>
    match w.threads[i]? with
    | some t => t.phase.told.isEmpty
    | none => true
  | _ => true

/-- The rule under which bounces are reported. -/
def reports (w : World) (a : Action) : Bool := timely w a && deletes w a

/-! ### Recipients that wait and recipients that bounced -/

/-- A message that goes on has a recipient that waits, and one that bounced has a recipient that did. -/
structure Message.Sound (msg : Message) : Prop where
  waits : isTerminal msg.state = false → ∃ r ∈ msg.recipients, r.status = .pending
  bounced : msg.state = .bounced → ∃ r ∈ msg.recipients, r.status = .bounced

variable {msg : Message}

theorem Message.Sound.failures_ne (h : msg.Sound) (hb : msg.state = .bounced) : failures msg ≠ [] := by
  obtain ⟨r, hr, hs⟩ := h.bounced hb
  intro he
  have hmem : r ∈ msg.recipients.filter fun r => r.status = .bounced := mem_filter.mpr ⟨hr, by simpa using hs⟩
  rw [map_eq_nil_iff.mp he] at hmem
  cases hmem

theorem exists_json {l : List Recipient} {st : RecipientStatus} (h : ∃ r ∈ l, r.status = st) :
    ∃ r ∈ l.map Recipient.json, r.status = st := by
  obtain ⟨r, hr, hs⟩ := h
  exact ⟨r.json, List.mem_map_of_mem hr, hs⟩

theorem Message.Sound.json (h : msg.Sound) : msg.json.Sound :=
  ⟨fun ht => exists_json (h.waits ht), fun hb => exists_json (h.bounced hb)⟩

section Outcomes
variable (m : Manager) (now : Int) (jitter : Int → Int)

theorem exists_giveUp {l : List Recipient} (h : ∃ r ∈ l, r.status = .pending) :
    ∃ r ∈ l.map Recipient.giveUp, r.status = .bounced := by
  obtain ⟨r, hr, hs⟩ := h
  exact ⟨r.giveUp, List.mem_map_of_mem hr, by simp [Recipient.giveUp, hs]⟩

variable {msg : Message}

theorem sound_defer (h : ∃ r ∈ msg.recipients, r.status = .pending) : (defer m now jitter msg).Sound :=
  ⟨fun _ => h, fun hb => by cases hb⟩

theorem sound_giveUp (msg : Message) (h : ∃ r ∈ msg.recipients, r.status = .pending) :
    Message.Sound { msg with recipients := msg.recipients.map Recipient.giveUp, state := .bounced } :=
  ⟨fun ht => (by cases ht), fun _ => exists_giveUp h⟩

theorem sound_finalizeState (msg : Message) : (finalizeState m now jitter msg).Sound := by
  unfold finalizeState
  dsimp only
  split
  · exact ⟨fun ht => (by cases ht), fun hb => by cases hb⟩
  case isFalse hsome =>
    split
    case isTrue hnone =>
      refine ⟨fun ht => (by cases ht), fun _ => ?_⟩
      have hb : (msg.recipients.any fun r => r.status = .bounced) = true := by
        by_contra hb
        exact hsome ⟨hnone, hb⟩
      simpa using hb
    case isFalse hpend =>
      have hpend : ∃ r ∈ msg.recipients, r.status = .pending := by simpa using hpend
      split
      · exact sound_giveUp msg hpend
      · exact sound_defer m now jitter hpend

theorem sound_applyTransportFailure (err : Str) (h : ∃ r ∈ msg.recipients, r.status = .pending) :
    (applyTransportFailure m now jitter err msg).Sound := by
  have hfailed : ∃ r ∈ msg.recipients.map (fun r => if r.status = .pending then { r with lastError := err } else r),
      r.status = .pending := by
    obtain ⟨r, hr, hs⟩ := h
    exact ⟨_, List.mem_map_of_mem hr, by simp [hs]⟩
  unfold applyTransportFailure
  dsimp only
  split
  · exact sound_giveUp { msg with recipients := _, lastError := err } hfailed
  · exact sound_defer m now jitter hfailed

theorem sound_settle (verdict : Except Str (List Result))
    (h : ∃ r ∈ msg.recipients, r.status = .pending) : (settle m now jitter verdict msg).Sound := by
  cases verdict with
  | error err => exact sound_applyTransportFailure m now jitter err h
  | ok results => exact sound_finalizeState m now jitter _

end Outcomes

/-- What a thread knows about the recipients. -/
def Carries : Phase → Prop
  | .naming sub | .spooling _ sub | .queueing _ sub _ => sub.rcpts ≠ []
  | .reading msg | .handing msg _ | .delivering msg => ∃ r ∈ msg.recipients, r.status = .pending
  | .txn (.commit msg) | .flush (.commit msg) _ _ | .reclaiming msg | .warning msg | .saving msg => msg.Sound
  | _ => True

section Steps
variable {s s' : Shared} {m : Manager} {p p' : Phase}

theorem Phase.Idle.carries (h : p.Idle) : Carries p ∧ p.told = [] := by
  cases h <;> exact ⟨trivial, rfl⟩

section Transactions
variable {c : Call} {clock : Int} {cur : Message} {row : Option Message} {evs : List Event} {q : Phase}

theorem Ends.carries (he : Ends m clock cur c row evs q) (hc : Carries (.txn c)) (hcur : cur.Sound) : Carries q := by
  cases he with
  | kept hidle | committed _ _ hidle | cancelled _ hidle | pruned _ hidle => exact hidle.carries.1
  | claimed hterm => exact hcur.waits hterm
  | ended | deferred => exact ⟨hc.waits, hc.bounced⟩
  | _ => trivial

/-- What a transaction leaves in its row is sound. -/
theorem Ends.sound {r : Message} (he : Ends m clock cur c (some r) evs q) (hc : Carries (.txn c)) (hcur : cur.Sound) :
    r.Sound := by
  cases he with
  | kept => exact hcur
  | claimed hterm | retried _ hterm =>
    exact Message.Sound.json ⟨fun _ => hcur.waits hterm, fun hb => by cases hb⟩
  | committed | ended | deferred => exact Message.Sound.json ⟨hc.waits, hc.bounced⟩

/-- A transaction commits a bounce exactly when its worker has one to report. -/
theorem Ends.told (he : Ends m clock cur c row evs q) : q.told = bouncedIn evs := by
  cases he with
  | kept hidle | cancelled _ hidle | pruned _ hidle => exact hidle.carries.2
  | @committed msg _ _ hterm hidle =>
    rw [hidle.carries.2]
    cases hs : msg.state <;> simp [bouncedIn, isTerminal, hs] at hterm ⊢
  | @ended msg => cases hs : msg.state <;> simp [bouncedIn, Phase.told]
  | deferred _ hstate => simp [bouncedIn, Phase.told, hstate]
  | _ => rfl

/-- A transaction records no bounce and leaves none that was not there, or it records the bounce of its own
    message, which waited until then. -/
theorem Ends.bounced (he : Ends m clock cur c row evs q) :
    bouncedIn evs = [] ∧ (∀ r, row = some r → r.state = .bounced → r = cur) ∨
      ∃ msg, bouncedIn evs = [msg] ∧ msg.id = c.id ∧ isTerminal cur.state = false ∧
        row = some msg.json ∧ msg.state = .bounced := by
  rw [← he.told]
  cases he with
  | kept hidle => exact .inl ⟨hidle.carries.2, fun r hr _ => (Option.some.inj hr).symm⟩
  | claimed | retried => exact .inl ⟨rfl, fun r hr hb => by cases hr; cases hb⟩
  | @committed msg _ _ hterm hidle =>
    refine .inl ⟨hidle.carries.2, ?_⟩
    rintro _ ⟨rfl⟩ (hb : msg.state = .bounced)
    rw [hb] at hterm
    cases hterm
  | @ended msg hf =>
    have hact : cur.state = .active := by simpa using (Bool.and_eq_true_iff.mp hf).1
    by_cases hb : msg.state = .bounced
    · exact .inr ⟨{ msg with updatedAt := clock }, by simp [Phase.told, hb], rfl, by rw [hact]; rfl, rfl, hb⟩
    · refine .inl ⟨by simp [Phase.told, hb], ?_⟩
      rintro _ ⟨rfl⟩ hb'
      exact absurd hb' hb
  | @deferred msg _ hstate =>
    refine .inl ⟨rfl, ?_⟩
    rintro _ ⟨rfl⟩ (hb : msg.state = .bounced)
    rw [hb] at hstate
    cases hstate
  | cancelled _ hidle | pruned _ hidle => exact .inl ⟨hidle.carries.2, by simp⟩
  | dropped | swept => exact .inl ⟨rfl, by simp⟩

end Transactions

/-! ### Bounces on record -/

theorem bouncedIn_append (l trace : List Event) : bouncedIn (l ++ trace) = bouncedIn l ++ bouncedIn trace :=
  filterMap_append

/-- A step adds the bounce that it commits. -/
theorem Leads.bouncedIn_eq {env : Env} (hl : Leads env s m p s' p') :
    bouncedIn s'.trace = p'.told ++ bouncedIn s.trace := by
  cases hl with
  | rests hidle | erased hidle =>
    rw [hidle.carries.2]
    rfl
  | transacted _ _ he =>
    rw [he.ends.told]
    exact bouncedIn_append _ s.trace
  | _ => rfl

theorem mem_told {q : Phase} {msg : Message} (h : msg ∈ q.told) : q = .reclaiming msg := by
  cases q with
  | reclaiming msg' =>
    simp only [Phase.told] at h
    split at h
    · rw [mem_singleton.mp h]
    · cases h
  | _ => cases h

/-- A bounce on record was there before, or the worker that committed it is about to report it. -/
theorem Leads.mem_bouncedIn {env : Env} (hl : Leads env s m p s' p') {msg : Message} (h : msg ∈ bouncedIn s'.trace) :
    msg ∈ bouncedIn s.trace ∨ p' = .reclaiming msg := by
  rw [hl.bouncedIn_eq] at h
  exact (mem_append.mp h).symm.imp_right mem_told

/-- The bounces on record: each of a message of its own, which is gone, and every row that bounced is
    on record with its recipients. -/
structure Judged (s : Shared) : Prop where
  sound : ∀ id r, s.row id = some r → r.Sound
  once : ((bouncedIn s.trace).map (·.id)).Nodup
  gone : ∀ msg ∈ bouncedIn s.trace, Gone s msg.id
  written : ∀ id r, s.row id = some r → r.state = .bounced →
    ∃ msg ∈ bouncedIn s.trace, msg.id = id ∧ r.recipients = msg.recipients.map Recipient.json

/-- What a thread knows about the bounces on record. -/
def Aware (s : Shared) (p : Phase) : Prop :=
  Carries p ∧ ∀ msg ∈ bouncedIn s.trace, p.submitting ≠ some msg.id

theorem Carries.txn_of {c : Call} (h : Carries p) (hp : p = .txn c ∨ ∃ seen clk, p = .flush c seen clk) :
    Carries (.txn c) := by
  rcases hp with rfl | ⟨seen, clk, rfl⟩
  · exact h
  · cases c <;> exact h

/-- Rows stay sound. -/
theorem Change.sound {id : Nat} {r : Message} (hc : Change s m p s') (hsave : Saves s p) (ha : Carries p) (h : Judged s)
    (hr : s'.row id = some r) : r.Sound := by
  cases hc.comes hsave hr with
  | old hrow => exact h.sound id r hrow
  | submitted =>
    obtain ⟨a, ha⟩ := exists_mem_of_ne_nil _ ha
    exact Message.Sound.json ⟨fun _ => ⟨_, List.mem_map_of_mem ha, rfl⟩, fun hb => by cases hb⟩
  | warned hrow heq =>
    have hold := h.sound _ _ hrow
    rw [heq] at hold
    exact ⟨hold.waits, hold.bounced⟩
  | transacted hp hrow he => exact he.sound (ha.txn_of hp) (h.sound _ _ hrow)

/-- A step keeps the record. -/
theorem Change.judged (hc : Change s m p s') (hsp : Spooled s) (hsave : Saves s p) (ha : Aware s p) (h : Judged s) :
    Judged s' := by
  have hgone : ∀ msg ∈ bouncedIn s.trace, Gone s' msg.id := fun msg hmem =>
    hc.gone hsave (ha.2 msg hmem) (h.gone msg hmem)
  have hsound : ∀ id r, s'.row id = some r → r.Sound := fun _ _ => hc.sound hsave ha.1 h
  cases hc with
  | quiet hrow htrace =>
    refine ⟨hsound, htrace ▸ h.once, fun msg hmem => hgone msg (htrace ▸ hmem), fun id r hr hb => ?_⟩
    rw [htrace]
    exact h.written id r (hrow id ▸ hr) hb
  | handed => exact ⟨hsound, h.once, hgone, h.written⟩
  | submitted =>
    refine ⟨hsound, h.once, hgone, fun id r hr hb => ?_⟩
    rcases row_save hr with hr | ⟨-, rfl⟩
    · exact h.written id r hr hb
    · cases hb
  | @warned msg =>
    refine ⟨hsound, h.once, hgone, fun id r hr hb => ?_⟩
    rcases row_save hr with hr | ⟨rfl, rfl⟩
    · exact h.written id r hr hb
    · obtain ⟨r₀, hr₀, heq⟩ := row_of_agrees (hsave msg rfl)
      have hold := h.written _ _ hr₀ (by rw [heq]; exact hb)
      rw [heq] at hold
      exact hold
  | @transacted _ c clock cur st hp hrow he =>
    have htrace : bouncedIn (s.commit c.id st).trace = bouncedIn st.events ++ bouncedIn s.trace :=
      bouncedIn_append st.events s.trace
    rcases he.ends.bounced with ⟨hnil, hold⟩ | ⟨msg, hone, hid, hterm, hafter, hb⟩
    · rw [hnil, nil_append] at htrace
      refine ⟨hsound, htrace ▸ h.once, fun msg hmem => hgone msg (htrace ▸ hmem), fun id r hr hb => ?_⟩
      rw [htrace]
      rcases row_transact hrow hr with hr | ⟨rfl, hnew⟩
      · exact h.written id r hr hb
      · exact h.written _ _ (hold r hnew hb ▸ hrow) hb
    · rw [hone, singleton_append] at htrace
      refine ⟨hsound, ?_, fun msg' hmem => ?_, fun id r hr hb => ?_⟩
      · rw [htrace]
        refine nodup_cons.mpr ⟨fun hmem => ?_, h.once⟩
        obtain ⟨msg', hmem, hid'⟩ := List.mem_map.mp hmem
        -- a message on record is gone, but this one waited
        exact (h.gone msg' hmem).2 ⟨cur, (hid'.trans hid) ▸ hrow, hterm⟩
      · rw [htrace] at hmem
        rcases mem_cons.mp hmem with rfl | hmem
        · refine ⟨by rw [counter_commit, hid]; exact (hsp.named _ _ hrow).1, ?_⟩
          rintro ⟨r, hr, hrt⟩
          rw [hid, row_commit, hrow, hafter] at hr
          cases hr
          simp [Message.json, hb, isTerminal] at hrt
        · exact hgone msg' hmem
      · rw [htrace]
        rcases row_transact hrow hr with hr | ⟨rfl, hnew⟩
        · obtain ⟨msg', hmem, hmsg⟩ := h.written id r hr hb
          exact ⟨msg', mem_cons_of_mem _ hmem, hmsg⟩
        · rw [hafter] at hnew
          cases hnew
          exact ⟨msg, mem_cons_self, hid, rfl⟩

/-- Where a step leads: the next phase knows the recipients. -/
theorem Leads.carries {env : Env} (hl : Leads env s m p s' p') (hc : Carries p) (h : Judged s) (hsees : Sees s p) :
    Carries p' := by
  cases hl with
  | rests hidle | erased hidle => exact hidle.carries.1
  | named | spooled | opened | handed => exact hc
  | settled hp hout =>
    rcases hout with ⟨err, rfl⟩ | rfl | rfl
    · exact sound_applyTransportFailure _ _ _ _ (by rcases hp with rfl | rfl <;> exact hc)
    · exact sound_finalizeState _ _ _ _
    · exact sound_settle _ _ _ _ (by rcases hp with rfl | rfl <;> exact hc)
  | warns => exact ⟨hc.waits, hc.bounced⟩
  | @staged c => cases c <;> exact hc
  | transacted hp hrow he => exact he.ends.carries (hc.txn_of hp) (h.sound _ _ (hrow hsees))
  | _ => trivial

end Steps

/-! ### Runs -/

/-- The invariant of the record, on top of an orderly spool. -/
def Recording : World → Prop := System.Inv Judged (fun s t => Aware s t.phase) fun _ _ => True

theorem recording_idle (clock : Int) : Recording (idle clock) :=
  .init ⟨fun id r h => (by simp [Shared.row] at h), nodup_nil, fun msg h => (by cases h),
    fun id r h => by simp [Shared.row] at h⟩

theorem recording_step (mode : Mode) (w : World) (a : Action) (ho : Orderly w) (h : Recording w)
    (hok : timely w a = true) : Recording (step mode w a) := by
  obtain ⟨hharm, hundis⟩ := Bool.and_eq_true_iff.mp hok
  cases a with
  | tick d =>
    rw [step]
    exact System.Inv.alter h (fun hs => ⟨hs.sound, hs.once, hs.gone, hs.written⟩) fun t ht => ht
  | start m job =>
    refine System.Inv.spawn h ?_ fun _ _ => ⟨trivial, trivial⟩
    cases job with
    | submit sub =>
      simp only [Job.phase]
      split
      · exact ⟨trivial, fun _ _ he => by cases he⟩
      case isFalse hne => exact ⟨hne, fun _ _ he => by cases he⟩
    | _ => exact ⟨trivial, fun _ _ he => by cases he⟩
  | advance i env =>
    refine System.Inv.moveOn ho h fun t ht hs hst => ?_
    have hsees := sees_of_undisturbed hundis ht
    have hl := leads_advance mode env w.shared t.mgr t.phase
    have hh := hl.handled (ho.each i t ht) ho.shared hsees
    have hj := (hl.change hsees).judged ho.shared (saves_of_harmless hharm ht) hst hs
    refine ⟨hj, ⟨hl.carries hst.1 hs hsees, fun msg hmem he => ?_⟩,
      fun u _ hu _ _ hau => ⟨⟨hau.1, fun msg hmem he => ?_⟩, trivial, trivial⟩⟩
    · rcases hl.mem_bouncedIn hmem with hold | hnew
      · rcases hh.submitting _ he with he | hlt
        · exact hst.2 msg hold he
        · exact absurd (hs.gone msg hold).1 (Nat.not_le.mpr hlt)
      · rw [show (Thread.step mode env w.shared t).2.phase = .reclaiming msg from hnew] at he
        cases he
    · rcases hl.mem_bouncedIn hmem with hold | hnew
      · exact hau.2 msg hold he
      · -- the row of a bounce was there before, and a Submit has none
        have hblob : msg.blobID = blobName msg.id := (hnew ▸ hh.stored : Stored _ (.reclaiming msg)).1
        obtain ⟨r, hr⟩ := hh.erasing msg.id (by rw [hnew, ← hblob]; rfl)
        rw [(le_counter_of_stored hu he).2] at hr
        cases hr
  | halt i =>
    rw [step]
    refine System.Inv.move h fun t ht hs hst => ⟨hs, ⟨trivial, fun _ _ he => by cases he⟩, fun u _ _ hu => ?_⟩
    exact ⟨hu, trivial, trivial⟩

/-! ### The calls -/

/-- The calls so far and the bounces that are still to be reported are the bounces on record. -/
structure Accounted (n : Notified) : Prop where
  orderly : Orderly n.world
  recording : Recording n.world
  account : (n.calls.map (·.msg) ++ waiting n.world).Perm (bouncedIn n.world.shared.trace)
  exact : ∀ c ∈ n.calls, c.failures = failures c.msg

theorem maybeBounce_exact {c : BounceCall} (h : c ∈ maybeBounce msg) : c.failures = failures c.msg := by
  unfold maybeBounce at h
  split at h
  · cases h
  · rw [mem_singleton.mp h]

/-- The worker reports the bounce that it has to. -/
theorem msgs_maybeBounce (h : msg.Sound) : (maybeBounce msg).map (·.msg) = Phase.told (.reclaiming msg) := by
  by_cases hb : msg.state = .bounced
  · simp [maybeBounce, Phase.told, hb, h.failures_ne hb]
  · simp [maybeBounce, Phase.told, hb]

theorem told_job (job : Job) : job.phase.told = [] := by
  cases job with
  | submit sub =>
    simp only [Job.phase]
    split <;> rfl
  | _ => rfl

/-- A move of one thread: what it had to report goes, what it has to report comes. -/
theorem waiting_move {w : World} {i : Nat} {t : Thread} (ht : w.threads[i]? = some t)
    (f : Shared → Thread → Shared × Thread) :
    (waiting (w.move i f) ++ t.phase.told).Perm (waiting w ++ (f w.shared t).2.phase.told) := by
  have hmove : (w.move i f).threads = w.threads.set i (f w.shared t).2 := by simp only [System.move, ht]
  unfold waiting
  rw [hmove]
  exact perm_flatMap_set (fun t : Thread => t.phase.told) _ ht

theorem account_advance (mode : Mode) {n : Notified} {i : Nat} {t : Thread} (env : Env) (h : Accounted n)
    (ht : n.world.threads[i]? = some t) :
    ((n.step mode (.advance i env)).calls.map (·.msg) ++ waiting (n.step mode (.advance i env)).world).Perm
      (bouncedIn (n.step mode (.advance i env)).world.shared.trace) := by
  have hwait := waiting_move ht (Thread.step mode env)
  have htrace : (n.world.move i (Thread.step mode env)).shared.trace =
      (advance mode env n.world.shared t.mgr t.phase).1.trace := by simp only [System.move, ht, Thread.step]
  change ((bounceCalls n.world (.advance i env) ++ n.calls).map (·.msg) ++
    waiting (n.world.move i (Thread.step mode env))).Perm
      (bouncedIn (n.world.move i (Thread.step mode env)).shared.trace)
  rw [htrace, map_append]
  obtain ⟨m, p⟩ := t
  by_cases hp : ∃ msg, p = .reclaiming msg
  · -- the call is made: the bounce moves from the worker to the calls
    obtain ⟨msg, rfl⟩ := hp
    have hsound : msg.Sound := (h.recording.each i _ ht).1
    have hcalls : (bounceCalls n.world (.advance i env)).map (·.msg) = Phase.told (.reclaiming msg) := by
      simp only [bounceCalls, ht]
      exact msgs_maybeBounce hsound
    have hwait : (waiting (n.world.move i (Thread.step mode env)) ++ Phase.told (.reclaiming msg)).Perm
        (waiting n.world) := hwait.trans (by rw [show (Thread.step mode env n.world.shared
          ⟨m, .reclaiming msg⟩).2.phase.told = [] from rfl, append_nil])
    rw [hcalls, append_assoc]
    refine perm_append_comm.trans ?_
    rw [append_assoc]
    exact (hwait.append_left _).trans h.account
  · -- no call: the worker may have committed a bounce
    have hp : ∀ msg, p ≠ .reclaiming msg := fun msg he => hp ⟨msg, he⟩
    have hcalls : bounceCalls n.world (.advance i env) = [] := by
      simp only [bounceCalls, ht]
      cases p with
      | reclaiming msg => exact absurd rfl (hp msg)
      | _ => rfl
    have htold : p.told = [] := by
      cases p with
      | reclaiming msg => exact absurd rfl (hp msg)
      | _ => rfl
    rw [(leads_advance mode env _ m p).bouncedIn_eq, hcalls, map_nil, nil_append]
    rw [show (⟨m, p⟩ : Thread).phase.told = [] from htold, append_nil] at hwait
    refine (hwait.append_left _).trans ?_
    rw [← append_assoc]
    exact perm_append_comm.trans (h.account.append_left _)

theorem account_step (mode : Mode) (n : Notified) (a : Action) (h : Accounted n) (hok : reports n.world a = true) :
    ((n.step mode a).calls.map (·.msg) ++ waiting (n.step mode a).world).Perm
      (bouncedIn (n.step mode a).world.shared.trace) := by
  cases a with
  | tick d => exact h.account
  | start m job =>
    have hwait : waiting (n.world.spawn ⟨m, job.phase⟩) = waiting n.world := by
      simp [waiting, System.spawn, told_job]
    change (n.calls.map (·.msg) ++ waiting (n.world.spawn ⟨m, job.phase⟩)).Perm (bouncedIn n.world.shared.trace)
    rw [hwait]
    exact h.account
  | advance i env =>
    cases ht : n.world.threads[i]? with
    | none =>
      have hsame : n.step mode (.advance i env) = n := by
        simp only [Notified.step, bounceCalls, step, System.move, ht, nil_append]
      rw [hsame]
      exact h.account
    | some t => exact account_advance mode env h ht
  | halt i =>
    cases ht : n.world.threads[i]? with
    | none =>
      have hsame : n.step mode (.halt i) = n := by
        simp only [Notified.step, bounceCalls, step, System.move, ht, nil_append]
      rw [hsame]
      exact h.account
    | some t =>
      have htold : t.phase.told = [] := by
        have hdel := (Bool.and_eq_true_iff.mp hok).2
        simpa [deletes, ht] using hdel
      have hwait := waiting_move ht fun s t => (s, { t with phase := .finished })
      rw [htold, append_nil, show Phase.told .finished = [] from rfl, append_nil] at hwait
      have htrace : (n.world.move i fun s t => (s, { t with phase := .finished })).shared.trace =
          n.world.shared.trace := by simp only [System.move, ht]
      change (n.calls.map (·.msg) ++ waiting (n.world.move i fun s t => (s, { t with phase := .finished }))).Perm
        (bouncedIn (n.world.move i fun s t => (s, { t with phase := .finished })).shared.trace)
      rw [htrace]
      exact (hwait.append_left _).trans h.account

theorem accounted_step (mode : Mode) (n : Notified) (a : Action) (h : Accounted n)
    (hok : reports n.world a = true) : Accounted (n.step mode a) := by
  have htime := (Bool.and_eq_true_iff.mp hok).1
  refine ⟨orderly_step mode _ a h.orderly htime, recording_step mode _ a h.orderly h.recording htime,
    account_step mode n a h hok, fun c hc => ?_⟩
  rcases mem_append.mp hc with hc | hc
  · cases a with
    | advance i env =>
      simp only [bounceCalls] at hc
      split at hc
      · exact maybeBounce_exact hc
      · cases hc
    | _ => cases hc
  · exact h.exact c hc

/-- What is known about the bounce of a message: there is none and nobody is told; or it was committed
    once, and either the handler was called once, for its bounced recipients, or a worker is about to. -/
def Reported (n : Notified) (id : Nat) : Prop :=
  let called := n.calls.filter (·.msg.id = id)
  let due := (waiting n.world).filter (·.id = id)
  let bounced := (bouncedIn n.world.shared.trace).filter (·.id = id)
  bounced = [] ∧ called = [] ∧ due = [] ∨
    ∃ msg, bounced = [msg] ∧ (called = [⟨msg, failures msg⟩] ∧ due = [] ∨ called = [] ∧ due = [msg])

/-- Of messages with different IDs, one at most has a given ID. -/
theorem filter_id_cases {l : List Message} (h : (l.map (·.id)).Nodup) (id : Nat) :
    l.filter (·.id = id) = [] ∨ ∃ msg, l.filter (·.id = id) = [msg] := by
  match hl : l.filter (·.id = id) with
  | [] => exact .inl hl
  | [msg] => exact .inr ⟨msg, hl⟩
  | msg :: msg' :: rest =>
    have hid : ∀ q ∈ l.filter (·.id = id), q.id = id := fun q hq => by simpa using (mem_filter.mp hq).2
    have hnodup : ((l.filter (·.id = id)).map (·.id)).Nodup := h.sublist (filter_sublist.map _)
    rw [hl] at hid hnodup
    simp [hid msg (by simp), hid msg' (by simp)] at hnodup

theorem Accounted.reported {n : Notified} (h : Accounted n) (id : Nat) : Reported n id := by
  have hperm := h.account.filter (·.id = id)
  rw [filter_append, List.filter_map] at hperm
  rcases filter_id_cases h.recording.shared.once id with hnil | ⟨msg, hone⟩
  · rw [hnil] at hperm
    obtain ⟨hcalled, hdue⟩ := append_eq_nil_iff.mp hperm.eq_nil
    exact .inl ⟨hnil, map_eq_nil_iff.mp hcalled, hdue⟩
  · rw [hone, perm_singleton] at hperm
    refine .inr ⟨msg, hone, ?_⟩
    rcases append_eq_singleton_iff.mp hperm with ⟨hcalled, hdue⟩ | ⟨hcalled, hdue⟩
    · exact .inr ⟨map_eq_nil_iff.mp hcalled, hdue⟩
    · obtain ⟨c, hc, hmsg⟩ := map_eq_singleton_iff.mp hcalled
      have hmem : c ∈ n.calls := mem_of_mem_filter (hc ▸ mem_singleton_self c)
      refine .inl ⟨hc.trans ?_, hdue⟩
      rw [← hmsg, ← h.exact c hmem]

/-- REPORTED: in every run whose workers can delete the bodies of messages that bounced, and whose delay
    warnings and buffered commits are in time, a message that bounces does so once, and the handler is
    called once for it, with the recipients that bounced; it is called for no other message. -/
theorem bounces_reported_once (mode : Mode) (clock : Int) (acts : List Action)
    (h : steady (Notified.step mode) (fun n a => reports n.world a) ⟨idle clock, []⟩ acts = true) :
    let n := runs (Notified.step mode) ⟨idle clock, []⟩ acts
    (∀ id, Reported n id) ∧
      ∀ id r, n.world.shared.row id = some r → r.state = .bounced →
        ∃ msg ∈ bouncedIn n.world.shared.trace, msg.id = id ∧ r.recipients = msg.recipients.map Recipient.json := by
  intro n
  have hacc : Accounted n := runs_invariant (I := Accounted) (accounted_step mode) acts _
    ⟨orderly_idle clock, recording_idle clock, .nil, by simp⟩ h
  exact ⟨hacc.reported, hacc.recording.shared.written⟩

/-- The server refuses the recipient for good. -/
def refusal : Env := { verdict := .ok [⟨ascii "b@example.net", false, true, some (ascii "no such user")⟩] }

/-- A message is submitted, and a worker commits that it bounced. -/
def bouncing : List Action :=
  List.flatten [[.start (eager "n1") (.submit letter)], turns 0 3, [.start (eager "n1") (.process 1)],
    List.replicate 6 (.advance 1 refusal)]

/-- The worker deletes the body and reports the bounce. -/
theorem bounces_reported_once_refused :
    let acts := bouncing ++ [.advance 1 refusal]
    let n := runs (Notified.step .native) ⟨idle 0, []⟩ acts
    steady (Notified.step .native) (fun n a => reports n.world a) ⟨idle 0, []⟩ acts = true ∧
      n.calls.map (·.failures) = [[⟨ascii "b@example.net", ascii "5.0.0", ascii "no such user"⟩]] ∧ Reported n 1 := by
  intro acts n
  have hok : steady (Notified.step .native) (fun n a => reports n.world a) ⟨idle 0, []⟩ acts = true := by
    decide +kernel
  exact ⟨hok, by decide +kernel, (bounces_reported_once .native 0 acts hok).1 1⟩

/-- The blob store cannot delete the body: the message has bounced, all threads are done, and the handler
    was not called. -/
theorem undeletable_body_hides_bounce :
    let n := runs (Notified.step .native) ⟨idle 0, []⟩ (bouncing ++ [.halt 1])
    (n.world.shared.row 1).map (·.state) = some .bounced ∧ waiting n.world = [] ∧ n.calls = [] ∧ ¬Reported n 1 := by
  intro n
  have hbounced : ((bouncedIn n.world.shared.trace).filter (·.id = 1)).length = 1 := by decide +kernel
  have hwait : waiting n.world = [] := by decide +kernel
  have hcalls : n.calls = [] := by decide +kernel
  refine ⟨by decide +kernel, hwait, hcalls, ?_⟩
  rintro (⟨hnil, -⟩ | ⟨msg, -, ⟨hcalled, -⟩ | ⟨-, hdue⟩⟩)
  · rw [hnil] at hbounced
    cases hbounced
  · rw [hcalls] at hcalled
    cases hcalled
  · rw [hwait] at hdue
    cases hdue

end Mailezine.Queue
