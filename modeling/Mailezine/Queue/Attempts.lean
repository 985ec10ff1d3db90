import Mailezine.Queue.DueIndex
import Mailezine.Queue.Fencing

/-! How often a message is tried.

    Attempts are counted when a message is claimed and compared with their limit when a round of
    delivery has ended. A worker that crashes in between leaves the comparison to the next one, who
    claims and delivers first. -/

namespace Mailezine.Queue
open Gostd Schemes List

/-! ### Counting deliveries -/

/-- Calls of the deliverer for a message since it was last retried by hand. -/
def since (id : Nat) : List Event → Nat
  | [] => 0
  | .retried j :: rest => if j = id then 0 else since id rest
  | .deliver _ msg _ _ :: rest => (if msg.id = id then 1 else 0) + since id rest
  | _ :: rest => since id rest

/-- No call of the deliverer was one too many. -/
def Bounded : List Event → Prop
  | [] => True
  | .deliver _ msg _ _ :: rest => since msg.id rest < msg.maxAttempts ∧ Bounded rest
  | _ :: rest => Bounded rest

/-- Every outcome of a round that used up the attempts is final: the message bounced, unless that round
    delivered it to the last recipients. -/
def Settled (trace : List Event) : Prop := ∀ node msg, .committed node msg ∈ trace →
  msg.maxAttempts ≤ msg.attempts →
    msg.state = .bounced ∨ msg.state = .delivered ∧ ∀ r ∈ msg.recipients, r.status = .delivered

/-- A claim that ran out is stolen only when attempts are left. -/
def unspent (w : World) : Action → Bool
  | .advance i _ =>
    match w.threads[i]? with
    | some ⟨_, .txn (.claim id _)⟩ | some ⟨_, .flush (.claim id _) _ _⟩ =>
      (w.shared.row id).all fun r => decide (r.state = .active → r.attempts < r.maxAttempts)
    | _ => true
  | _ => true

/-- The counts in the rows bound the calls of the deliverer. -/
structure Counted (s : Shared) : Prop where
  attempts : ∀ id r, s.row id = some r → r.attempts ≤ r.maxAttempts ∧ since id s.trace ≤ r.attempts
  waiting : ∀ id r, s.row id = some r → r.state ≠ .active → isTerminal r.state = false →
    r.attempts < r.maxAttempts
  fresh : ∀ id, s.table.counter < id → since id s.trace = 0
  bounded : Bounded s.trace
  settled : Settled s.trace

/-- A worker that has not called the deliverer yet is counted already. -/
def Due (s : Shared) (m : Manager) : Phase → Prop
  | .reading msg | .handing msg _ => ∀ cur, s.row msg.id = some cur → fence m.nodeID cur = true →
    since msg.id s.trace < cur.attempts
  | .spooling id _ | .queueing id _ _ => since id s.trace = 0
  | _ => True

section Changes
variable {many : Bool} {s s' : Shared} {m : Manager} {p : Phase}

section Transactions
variable {c : Call} {clock : Int} {cur : Message} {row : Option Message} {evs : List Event} {q : Phase}

theorem Ends.since_le (he : Ends m clock cur c row evs q) (id : Nat) (trace : List Event) :
    since id (evs ++ trace) ≤ since id trace := by
  cases he with
  | retried =>
    change (if cur.id = id then 0 else since id trace) ≤ since id trace
    split <;> omega
  | _ => exact le_rfl

theorem Ends.bounded (he : Ends m clock cur c row evs q) {trace : List Event} (h : Bounded trace) :
    Bounded (evs ++ trace) := by
  cases he <;> exact h

theorem Ends.settled (he : Ends m clock cur c row evs q) (hb : Backed many s m (.txn c)) {trace : List Event}
    (h : Settled trace) : Settled (evs ++ trace) := by
  intro node msg hmem hmax
  refine (mem_append.mp hmem).elim (fun hmem => ?_) fun hmem => h node msg hmem hmax
  cases he with
  | committed | ended | deferred =>
    obtain ⟨-, base, hout, -⟩ := hb
    cases mem_singleton.mp hmem
    exact hout.exhausted (by rw [← hout.attempts, ← hout.maxAttempts]; exact hmax)
  | _ => simp at hmem

/-- What a transaction leaves in its row fits to the count. -/
theorem Ends.attempts {r : Message} (he : Ends m clock cur c (some r) evs q)
    (hg : Good s) (hb : Backed many s m (.txn c)) (hrow : s.row c.id = some cur) (h : Counted s)
    (hun : ∀ id now, c = .claim id now → cur.state = .active → cur.attempts < cur.maxAttempts) :
    (r.attempts ≤ r.maxAttempts ∧ since c.id (evs ++ s.trace) ≤ r.attempts) ∧
      (r.state ≠ .active → isTerminal r.state = false → r.attempts < r.maxAttempts) := by
  have hid : cur.id = c.id := (hg.filed _ _ hrow).1
  obtain ⟨hmax, hsince⟩ := h.attempts _ _ hrow
  have hle := (he.since_le c.id s.trace).trans hsince
  have hwait := h.waiting _ _ hrow
  cases he with
  | kept => exact ⟨⟨hmax, hle⟩, hwait⟩
  | @claimed id now hterm =>
    have hlt : cur.attempts < cur.maxAttempts := by
      by_cases hact : cur.state = .active
      · exact hun id now rfl hact
      · exact hwait hact hterm
    exact ⟨⟨hlt, hle.trans (Nat.le_succ _)⟩, fun hact => absurd rfl hact⟩
  | @committed out _ hf | @ended out hf | @deferred out hf =>
    obtain ⟨msg, hout, rfl, -⟩ := claimed_of_fence hb hrow hf
    have hatt : out.attempts = msg.attempts := hout.attempts
    have hmx : out.maxAttempts = msg.maxAttempts := hout.maxAttempts
    refine ⟨⟨?_, ?_⟩, fun _ hterm => ?_⟩
    · change out.attempts ≤ out.maxAttempts
      rw [hatt, hmx]
      exact hmax
    · change _ ≤ out.attempts
      rw [hatt]
      exact hle
    · change out.attempts < out.maxAttempts
      rw [hatt, hmx]
      -- an outcome that is not terminal was put off
      rcases hout.ended with hs | hs | hs
      · simp [Message.json, hs, isTerminal] at hterm
      · simp [Message.json, hs, isTerminal] at hterm
      · exact hout.retried hs
  | retried hact hterm =>
    refine ⟨⟨Nat.zero_le _, ?_⟩, fun _ _ => Nat.lt_of_le_of_lt (Nat.zero_le _) (hwait hact hterm)⟩
    change (if cur.id = _ then 0 else _) ≤ 0
    rw [if_pos hid]

theorem Phase.Idle.due {p : Phase} (h : p.Idle) : Due s m p := by
  cases h <;> trivial

theorem Ends.due (he : Ends m clock cur c row evs q) (hid : cur.id = c.id) (hrow : s'.row c.id = row)
    (htrace : s'.trace = evs ++ s.trace) (hsince : since c.id s.trace ≤ cur.attempts) : Due s' m q := by
  cases he with
  | kept hidle | committed _ _ hidle | cancelled _ hidle | pruned _ hidle => exact hidle.due
  | claimed =>
    intro cur' (hcur' : s'.row cur.id = some cur') _
    rw [hid, hrow] at hcur'
    cases hcur'
    change since cur.id s'.trace < cur.attempts + 1
    rw [htrace, hid]
    exact Nat.lt_succ_of_le hsince
  | _ => trivial

end Transactions

/-- A save keeps the counts when what it writes fits to them. -/
theorem Counted.saved {j : Nat} {clock oldDue : Int} {msg : Message} {e : Event} (h : Counted s)
    (he : ∀ id trace, since id (e :: trace) = since id trace) (hb : Bounded (e :: s.trace))
    (hse : Settled (e :: s.trace)) (hmax : msg.attempts < msg.maxAttempts) (hsince : since j s.trace ≤ msg.attempts) :
    Counted (s.commit j ⟨saveOps clock msg oldDue, [e], .finished⟩) := by
  refine ⟨fun id r hr => ?_, fun id r hr => ?_, fun id hlt => ?_, hb, hse⟩
  · change _ ∧ since id (e :: s.trace) ≤ _
    rw [he]
    rcases row_save hr with hr | ⟨rfl, rfl⟩
    · exact h.attempts id r hr
    · exact ⟨hmax.le, hsince⟩
  · rcases row_save hr with hr | ⟨rfl, rfl⟩
    · exact h.waiting id r hr
    · exact fun _ _ => hmax
  · rw [counter_commit] at hlt
    exact (he id s.trace).trans (h.fresh id hlt)

/-- A step keeps the counts when deliveries are fenced and only unspent claims are stolen. -/
theorem Change.counted (hc : Change s m p s') (hg : Good s) (hb : Backed many s m p) (hd : Due s m p)
    (h : Counted s) (hsave : Saves s p)
    (hfen : ∀ msg body, p = .handing msg body → ∃ cur, s.row msg.id = some cur ∧ fence m.nodeID cur = true)
    (hun : ∀ c cur id now, (p = .txn c ∨ ∃ seen clk, p = .flush c seen clk) → s.row c.id = some cur →
      c = .claim id now → cur.state = .active → cur.attempts < cur.maxAttempts) : Counted s' := by
  cases hc with
  | quiet hrow htrace _ hcount =>
    refine ⟨fun id r hr => ?_, fun id r hr => ?_, fun id hlt => ?_, htrace ▸ h.bounded, htrace ▸ h.settled⟩
    · rw [htrace]
      exact h.attempts id r (hrow id ▸ hr)
    · exact h.waiting id r (hrow id ▸ hr)
    · rw [htrace]
      exact h.fresh id (Nat.lt_of_le_of_lt hcount hlt)
  | @handed msg body =>
    obtain ⟨cur, hcur, hf⟩ := hfen msg body rfl
    have hlt := hd cur hcur hf
    obtain ⟨hmax, -⟩ := h.attempts _ _ hcur
    have hid : msg.id ≤ s.table.counter := (hg.filed _ _ hcur).2
    have hlim : cur.maxAttempts = msg.maxAttempts := by
      rcases hb.2 with ⟨hmsg, -, -⟩ | ⟨-, -, hlost⟩
      · rw [hmsg] at hcur
        cases hcur
        rfl
      · rw [hlost cur hcur] at hf
        cases hf
    refine ⟨fun id r hr => ?_, h.waiting, fun id hlt' => ?_, ⟨?_, h.bounded⟩, ?_⟩
    · obtain ⟨hmax', hsince⟩ := h.attempts id r hr
      refine ⟨hmax', ?_⟩
      change (if msg.id = id then 1 else 0) + since id s.trace ≤ r.attempts
      by_cases he : msg.id = id
      · subst he
        obtain rfl : cur = r := Option.mem_unique hcur hr
        rw [if_pos rfl]
        omega
      · rw [if_neg he]
        omega
    · change (if msg.id = id then 1 else 0) + since id s.trace = 0
      have hne : msg.id ≠ id := fun he => by subst he; exact absurd hlt' (Nat.not_lt.mpr hid)
      rw [if_neg hne, h.fresh id hlt']
    · rw [← hlim]
      exact Nat.lt_of_lt_of_le hlt hmax
    · intro node out hmem
      rcases mem_cons.mp hmem with hmem | hmem
      · cases hmem
      · exact h.settled node out hmem
  | @submitted j sub now =>
    refine h.saved (fun _ _ => rfl) h.bounded (fun node out hmem => ?_) m.maxAttempts_pos (le_of_eq hd)
    exact h.settled node out ((mem_cons.mp hmem).resolve_left (by simp))
  | @warned msg =>
    obtain ⟨r, hrow, hr⟩ := row_of_agrees (hsave msg rfl)
    have hatt : r.attempts = msg.attempts := by rw [hr]; rfl
    have hmax : r.maxAttempts = msg.maxAttempts := by rw [hr]; rfl
    have hstate : r.state = .deferred := by rw [hr]; exact hb
    have hwait := h.waiting _ _ hrow (by simp [hstate]) (by simp [hstate, isTerminal])
    refine h.saved (fun _ _ => rfl) h.bounded (fun node out hmem => ?_) (hatt ▸ hmax ▸ hwait) ?_
    · exact h.settled node out ((mem_cons.mp hmem).resolve_left (by simp))
    · exact hatt ▸ (h.attempts _ _ hrow).2
  | transacted hp hrow he =>
    have hend := he.ends
    have hun := fun id now => hun _ _ id now hp hrow
    refine ⟨fun id r hr => ?_, fun id r hr => ?_, fun id hlt => ?_, hend.bounded h.bounded,
      hend.settled (hb.txn_of hp) h.settled⟩
    · rcases row_transact hrow hr with hold | ⟨rfl, hnew⟩
      · exact (h.attempts id r hold).imp_right (hend.since_le id s.trace).trans
      · exact (Ends.attempts (hnew ▸ hend) hg (hb.txn_of hp) hrow h hun).1
    · rcases row_transact hrow hr with hold | ⟨rfl, hnew⟩
      · exact h.waiting id r hold
      · exact (Ends.attempts (hnew ▸ hend) hg (hb.txn_of hp) hrow h hun).2
    · rw [counter_commit] at hlt
      exact Nat.le_zero.mp ((hend.since_le id s.trace).trans (h.fresh id hlt).le)

/-- The record of a step: at most one call of the deliverer more, and only for its own message. -/
theorem Change.since_le (hc : Change s m p s') {id : Nat} (h : ∀ msg body, p = .handing msg body → msg.id ≠ id) :
    since id s'.trace ≤ since id s.trace := by
  cases hc with
  | quiet _ htrace => rw [htrace]
  | @handed msg body =>
    change (if msg.id = id then 1 else 0) + since id s.trace ≤ _
    rw [if_neg (h msg body rfl), Nat.zero_add]
  | submitted | warned => exact le_rfl
  | transacted _ _ he => exact he.ends.since_le id s.trace

/-- A step of another thread leaves a worker counted. -/
theorem Change.due (hc : Change s m p s') (hb : Backed many s m p) (hsave : Saves s p) {u : Thread}
    (hap : Apart many ⟨m, p⟩ u) (hu : Backed many s u.mgr u.phase) (hd : Due s u.mgr u.phase)
    (hfen : ∀ msg body, p = .handing msg body → ∃ cur, s.row msg.id = some cur ∧ fence m.nodeID cur = true) :
    Due s' u.mgr u.phase := by
  have hwork : ∀ msg : Message, u.phase.working = some msg.id →
      (∀ cur, s.row msg.id = some cur → fence u.mgr.nodeID cur = true → since msg.id s.trace < cur.attempts) →
      ∀ cur, s'.row msg.id = some cur → fence u.mgr.nodeID cur = true →
        since msg.id s'.trace < cur.attempts := by
    intro msg hid hold cur hcur hf
    -- a row that still passes the fence is the old one
    have hsame : s'.row msg.id = s.row msg.id := by
      rcases hc.yields hb hsave hap hid with h | ⟨h, -⟩
      · exact h
      · rw [h cur hcur] at hf
        cases hf
    rw [hsame] at hcur
    refine Nat.lt_of_le_of_lt (hc.since_le fun msg' body hp he => ?_) (hold cur hcur hf)
    -- and then nobody else delivers the message
    subst hp
    obtain ⟨cur', hcur', hf'⟩ := hfen msg' body rfl
    rw [he, hcur] at hcur'
    cases hcur'
    obtain ⟨-, hne⟩ := hap.workers msg.id (congrArg some he) hid
    have h₁ : cur.owner = m.nodeID := by simpa using (Bool.and_eq_true_iff.mp hf').2
    have h₂ : cur.owner = u.mgr.nodeID := by simpa using (Bool.and_eq_true_iff.mp hf).2
    exact hne (h₁.symm.trans h₂)
  have hsub : ∀ id, u.phase.submitting = some id → since id s.trace = 0 → since id s'.trace = 0 := by
    intro id hid hz
    refine Nat.le_zero.mp ((hc.since_le fun msg body hp he => ?_).trans hz.le)
    obtain ⟨cur, hcur, -⟩ := hfen msg body hp
    rw [he, row_none_of_submitting hu hid] at hcur
    cases hcur
  rcases u with ⟨mu, pu⟩
  cases pu with
  | reading msg | handing msg body => exact hwork msg rfl hd
  | spooling id sub | queueing id sub now => exact hsub id rfl hd
  | _ => trivial

/-- The thread that moves is counted when it has claimed a message. -/
theorem Leads.counted {env : Env} {p' : Phase} (hl : Leads env s m p s' p') (hg : Good s) (hd : Due s m p) (h : Counted s)
    (hsees : Sees s p) : Due s' m p' := by
  cases hl with
  | rests hidle | erased hidle => exact hidle.due
  | named => exact h.fresh _ (Nat.lt_succ_self _)
  | spooled | opened => exact hd
  | transacted _ hrow he =>
    have hrow := hrow hsees
    exact he.ends.due (hg.filed _ _ hrow).1 (by rw [row_commit, hrow]) rfl (h.attempts _ _ hrow).2
  | _ => trivial

end Changes

/-! ### Runs -/

/-- The rules under which attempts are bounded. -/
def sparing (w : World) (a : Action) : Bool := careful true w a && fenced w a && unspent w a

/-- The invariant: claims are kept and calls of the deliverer are counted. -/
def Tallied : World → Prop :=
  System.Inv (fun s => Good s ∧ Counted s)
    (fun s t => Backed true s t.mgr t.phase ∧ Due s t.mgr t.phase) (Apart true)

theorem tallied_idle (clock : Int) : Tallied (idle clock) := by
  refine .init ⟨(kept_idle true clock).shared, ?_⟩
  refine ⟨fun id r h => ?_, fun id r h => ?_, fun _ _ => rfl, trivial, fun node msg h => by cases h⟩
  · simp [Shared.row] at h
  · simp [Shared.row] at h

variable {w : World}

theorem Tallied.kept (h : Tallied w) : Kept true w :=
  ⟨h.shared.1, fun i t ht => (h.each i t ht).1, h.apart⟩

theorem fence_of_fenced {i : Nat} {env : Env} {t : Thread} {msg : Message} {body : Str}
    (h : fenced w (.advance i env) = true) (ht : w.threads[i]? = some t) (hp : t.phase = .handing msg body) :
    ∃ cur, w.shared.row msg.id = some cur ∧ fence t.mgr.nodeID cur = true := by
  rcases t with ⟨m, p⟩
  subst hp
  simp only [fenced, ht] at h
  cases hrow : w.shared.row msg.id with
  | none => simp [hrow] at h
  | some cur => exact ⟨cur, rfl, by simpa [hrow] using h⟩

theorem spare_of_unspent {i : Nat} {env : Env} {t : Thread} {c : Call} {cur : Message} {id : Nat}
    {now : Int} (h : unspent w (.advance i env) = true) (ht : w.threads[i]? = some t)
    (hp : t.phase = .txn c ∨ ∃ seen clk, t.phase = .flush c seen clk) (hrow : w.shared.row c.id = some cur)
    (hc : c = .claim id now) (hact : cur.state = .active) : cur.attempts < cur.maxAttempts := by
  subst hc
  have hrow : w.shared.row id = some cur := hrow
  rcases t with ⟨m, p⟩
  rcases hp with rfl | ⟨seen, clk, rfl⟩ <;> simpa [unspent, ht, hrow, hact] using h

/-- TALLIED: a sparing step keeps the count. -/
theorem tallied_step (mode : Mode) (w : World) (a : Action) (h : Tallied w) (hok : sparing w a = true) :
    Tallied (step mode w a) := by
  simp only [sparing, Bool.and_eq_true] at hok
  obtain ⟨⟨hcare, hfen⟩, hun⟩ := hok
  have hk := kept_step mode w a h.kept hcare
  cases a with
  | tick d =>
    have hdue : ∀ t : Thread, Due w.shared t.mgr t.phase →
        Due { w.shared with clock := w.shared.clock + d } t.mgr t.phase := by
      rintro ⟨m, p⟩ hd
      cases p <;> exact hd
    have hcount := h.shared.2
    exact ⟨⟨hk.shared, ⟨hcount.attempts, hcount.waiting, hcount.fresh, hcount.bounded, hcount.settled⟩⟩,
      fun i t ht => ⟨hk.each i t ht, hdue t (h.each i t ht).2⟩, hk.apart⟩
  | start m job =>
    have hdue : ∀ t ∈ w.threads ++ [⟨m, job.phase⟩], Due w.shared t.mgr t.phase := by
      intro t ht
      rcases mem_append.mp ht with ht | ht
      · obtain ⟨i, hi⟩ := mem_iff_getElem?.mp ht
        exact (h.each i t hi).2
      · rw [mem_singleton.mp ht]
        cases job with
        | submit sub =>
          simp only [Job.phase]
          split <;> trivial
        | _ => trivial
    exact ⟨⟨hk.shared, h.shared.2⟩,
      fun i t ht => ⟨hk.each i t ht, hdue t (mem_of_getElem? ht)⟩, hk.apart⟩
  | advance i env =>
    refine System.Inv.move h ?_
    rintro t ht ⟨hg, hcount⟩ ⟨hb, hd⟩
    have hsave := saves_of_careful hcare ht
    have hsees := sees_of_undisturbed (undisturbed_of_careful hcare) ht
    have hhand : ∀ msg body, t.phase = .handing msg body →
        ∃ cur, w.shared.row msg.id = some cur ∧ fence t.mgr.nodeID cur = true :=
      fun msg body hp => fence_of_fenced hfen ht hp
    have hl := leads_advance mode env w.shared t.mgr t.phase
    have hm := hl.move hg hb hsave hsees
    have hc := hl.change hsees
    refine ⟨⟨hm.good, ?_⟩, ⟨hm.backed, hl.counted hg hd hcount hsees⟩, fun u hap hap' hu => ?_⟩
    · exact hc.counted hg hb hd hcount hsave hhand fun c cur id now hp hrow hcl hact =>
        spare_of_unspent hun ht hp hrow hcl hact
    · exact ⟨⟨hc.others hb hsave hap hu.1, hc.due hb hsave hap hu.1 hu.2 hhand⟩,
        Apart.of_move hm hap hap' hu.1⟩
  | halt i =>
    rw [step]
    refine System.Inv.move h ?_
    rintro t ht ⟨hg, hcount⟩ -
    refine ⟨⟨hg, hcount⟩, ⟨trivial, trivial⟩, fun u hap hap' hu => ⟨hu, ?_⟩⟩
    have hm : Move true w.shared t.mgr t.phase w.shared .finished := .idle hg .finished
    exact Apart.of_move hm hap hap' hu.1

/-- BOUNDED: in every careful run whose workers deliver only under their claim and steal only claims
    with attempts left, the deliverer is called at most as often as a message may be tried between two
    retries by hand; a round that used up the attempts ends in a final state, bounced unless it
    delivered the rest; and no message that waits has used them up. -/
theorem deliveries_bounded (clock : Int) (acts : List Action)
    (h : steady (step .native) sparing (idle clock) acts = true) :
    let w := run .native (idle clock) acts
    Bounded w.shared.trace ∧ Settled w.shared.trace ∧
      ∀ id r, w.shared.row id = some r → r.state = .queued ∨ r.state = .deferred →
        r.attempts < r.maxAttempts := by
  have ht := runs_invariant (fun w a => tallied_step .native w a) acts _ (tallied_idle clock) h
  refine ⟨ht.shared.2.bounded, ht.shared.2.settled, fun id r hr hstate => ?_⟩
  refine ht.shared.2.waiting id r hr ?_ ?_ <;> rcases hstate with hs | hs <;> rw [hs] <;> decide

/-! ### A worker that crashes in its last attempt -/

/-- A manager that tries once or twice. -/
def brief (name : String) (attempts : Nat) : Manager :=
  new (ascii name) { defaultOptions with maxAttempts := attempts } false

/-- A worker crashes after its call of the deliverer; when its claim has run out, another node takes
    the message and calls the deliverer again. -/
def crashed (attempts : Nat) : List Action :=
  List.flatten [[.start (brief "n1" attempts) (.submit letter)], turns 0 3, [.tick (10 ^ 9)],
    [.start (brief "n1" attempts) (.process 1)], turns 1 4, [.halt 1, .tick (600 * 10 ^ 9)],
    [.start (brief "n2" attempts) (.process 1)], turns 2 4]

/-- With two attempts the second call is the last, and the message bounces. -/
theorem deliveries_bounded_crash :
    let acts := List.flatten [crashed 2, turns 2 2]
    let w := run .native (idle 0) acts
    steady (step .native) sparing (idle 0) acts = true ∧ since 1 w.shared.trace = 2 ∧
      (w.shared.row 1).map (·.state) = some .bounced ∧ Bounded w.shared.trace := by
  refine ⟨by decide +kernel, by decide +kernel, by decide +kernel, ?_⟩
  exact (deliveries_bounded 0 _ (by decide +kernel)).1

/-- With one attempt the deliverer is called twice. -/
theorem crash_exceeds_attempts :
    let w := run .native (idle 0) (crashed 1)
    (w.shared.row 1).map (·.maxAttempts) = some 1 ∧ since 1 w.shared.trace = 2 := by
  decide +kernel

end Mailezine.Queue
