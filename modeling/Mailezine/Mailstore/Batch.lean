import Mailezine.Store.Txn
import Mathlib.Data.List.Nodup
import Mathlib.Data.Fintype.Basic

/-! The delivery batcher of `internal/mailstore/kv.go`.

    Calls of `runBatch` for one account meet in a queue and a flag. The call that finds the flag down
    raises it and leads: it commits its own request with what is queued, sends every request of the
    batch its result, and goes on with what was queued meanwhile until it finds the queue empty. A
    commit that fails ends the loop: the batch and everything queued is failed, and the leader
    resigns. Every access of the queue under its lock, every commit and every send is a step of its
    own, and the steps of the calls come in any order. -/

namespace Mailezine.Mailstore.Batch
open Store

/-! ### The queue -/

variable {ι : Type}

/-- `perAccountBatch`; a request is named by the call that staged it. -/
structure PerAccountBatch (ι : Type) where
  queue : List ι := []
  active : Bool := false

/-- `submit`: false when the caller becomes the leader. -/
def PerAccountBatch.submit (b : PerAccountBatch ι) (req : ι) : PerAccountBatch ι × Bool :=
  if b.active then ({ b with queue := b.queue ++ [req] }, true) else ({ b with active := true }, false)

/-- `take`. -/
def PerAccountBatch.take (b : PerAccountBatch ι) (limit : Nat) : PerAccountBatch ι × List ι :=
  ({ b with queue := b.queue.drop limit }, b.queue.take limit)

/-- `resignIfEmpty`: true when the leadership ended. -/
def PerAccountBatch.resignIfEmpty (b : PerAccountBatch ι) : PerAccountBatch ι × Bool :=
  if b.queue.isEmpty then ({ b with active := false }, true) else (b, false)

section
variable {b : PerAccountBatch ι}

theorem submit_active (h : b.active = true) (req : ι) : b.submit req = (⟨b.queue ++ [req], true⟩, true) := by
  simp [PerAccountBatch.submit, h]

theorem submit_idle (h : b.active = false) (req : ι) : b.submit req = (⟨b.queue, true⟩, false) := by
  simp [PerAccountBatch.submit, h]

theorem resignIfEmpty_empty (h : b.queue = []) : b.resignIfEmpty = (⟨[], false⟩, true) := by
  simp [PerAccountBatch.resignIfEmpty, h]

theorem resignIfEmpty_busy (h : b.queue ≠ []) : b.resignIfEmpty = (b, false) := by
  simp [PerAccountBatch.resignIfEmpty, h]

end

/-! ### The calls -/

/-- `deliverResult`, and what `runBatch` returns. -/
inductive Outcome where
  | uid (n : Nat)
  | failed
  deriving DecidableEq

/-- Where a call of `runBatch` stands. -/
inductive PC (ι : Type) where
  | submit
  | waiting
  /-- The leader's first `take`. -/
  | join
  | commit (first : Bool) (batch : List ι)
  | send (results : List (ι × Nat))
  | resign
  | take
  /-- The error goes to the rest of a batch, then to whatever is queued (`failAll`). -/
  | fail (batch : List ι)
  | failAll
  /-- The `resignIfEmpty` behind `failAll`. -/
  | quit
  | returned (r : Outcome)
  deriving DecidableEq

/-- The call is inside its leader loop. -/
def PC.leads : PC ι → Bool
  | .submit | .waiting | .returned _ => false
  | _ => true

/-- The calls `ι` of one account. `sent` and `committed` are the history: the results each request
    was sent, and the requests that were committed with what the commit gave them. -/
structure System (ι : Type) where
  kv : KV := {}
  batch : PerAccountBatch ι := {}
  pc : ι → PC ι := fun _ => .submit
  /-- `myUID`. -/
  myUID : ι → Nat := fun _ => 0
  /-- The content of the request's channel, which holds one result. -/
  done : ι → List Outcome := fun _ => []
  sent : ι → List Outcome := fun _ => []
  committed : List (ι × DeliverResult) := []

section
variable [DecidableEq ι]

/-- Move a call on. -/
@[simps] def System.goto (σ : System ι) (i : ι) (pc : PC ι) : System ι :=
  { σ with pc := Function.update σ.pc i pc }

/-- Replace the queue. -/
@[simps] def System.withBatch (σ : System ι) (b : PerAccountBatch ι) : System ι := { σ with batch := b }

/-- Take the result out of a call's own channel. -/
@[simps] def System.receive (σ : System ι) (i : ι) (rest : List Outcome) : System ι :=
  { σ with done := Function.update σ.done i rest }

/-- Put a result into a request's channel. -/
@[simps] def System.put (σ : System ι) (req : ι) (r : Outcome) : System ι :=
  { σ with
    done := Function.update σ.done req (σ.done req ++ [r])
    sent := Function.update σ.sent req (σ.sent req ++ [r]) }

/-- Send a result and go on; the sender blocks while the channel is full. -/
def System.sendTo (σ : System ι) (i req : ι) (r : Outcome) (pc : PC ι) : System ι :=
  if (σ.done req).isEmpty then (σ.put req r).goto i pc else σ

/-- What a commit of the batch gives back, request by request. -/
def System.results (reqs : ι → DeliverRequest) (a : Nat) (σ : System ι) (batch : List ι) :
    List (ι × DeliverResult) :=
  batch.zip (deliverEmailBatch a (batch.map reqs) σ.kv).2

/-- The commit of a batch; the first batch starts with the leader's own request. -/
@[simps] def System.commit (reqs : ι → DeliverRequest) (a : Nat) (σ : System ι) (i : ι) (first : Bool)
    (batch : List ι) : System ι :=
  let out := σ.results reqs a batch
  { σ with
    kv := (deliverEmailBatch a (batch.map reqs) σ.kv).1
    myUID := if first then
        Function.update σ.myUID i (u32 ((out.head?.map (·.2.uid)).getD 0)) else σ.myUID
    committed := σ.committed ++ out
    pc := Function.update σ.pc i (.send (out.map fun r => (r.1, u32 r.2.uid))) }

attribute [grind =] System.goto_pc System.goto_batch System.goto_myUID System.goto_done
  System.goto_sent System.goto_committed System.withBatch_pc System.withBatch_batch
  System.withBatch_myUID System.withBatch_done System.withBatch_sent System.withBatch_committed
  System.receive_pc System.receive_batch System.receive_myUID System.receive_done System.receive_sent
  System.receive_committed System.put_pc System.put_batch System.put_myUID System.put_done
  System.put_sent System.put_committed System.commit_pc System.commit_batch System.commit_myUID
  System.commit_done System.commit_sent System.commit_committed

/-- `failAll` takes this many at a time. -/
def failLimit : Nat := 2 ^ 30

/-- One step of call `i`; `fails` says whether a commit, if this is one, fails. -/
def System.step (reqs : ι → DeliverRequest) (a limit : Nat) (σ : System ι) (i : ι) (fails : Bool) : System ι :=
  match σ.pc i with
  | .submit =>
    let r := σ.batch.submit i
    (σ.withBatch r.1).goto i (if r.2 then .waiting else .join)
  | .waiting =>
    match σ.done i with
    | [] => σ
    | r :: rest => (σ.receive i rest).goto i (.returned r)
  | .join =>
    let r := σ.batch.take limit
    (σ.withBatch r.1).goto i (.commit true (i :: r.2))
  | .commit first batch => if fails then σ.goto i (.fail batch) else σ.commit reqs a i first batch
  | .send ((req, uid) :: rest) => σ.sendTo i req (.uid uid) (.send rest)
  | .send [] => σ.goto i .resign
  | .resign =>
    let r := σ.batch.resignIfEmpty
    (σ.withBatch r.1).goto i (if r.2 then .returned (.uid (σ.myUID i)) else .take)
  | .take =>
    let r := σ.batch.take limit
    (σ.withBatch r.1).goto i (.commit false r.2)
  | .fail (req :: rest) => σ.sendTo i req .failed (.fail rest)
  | .fail [] => σ.goto i .failAll
  | .failAll =>
    let r := σ.batch.take failLimit
    (σ.withBatch r.1).goto i (if r.2.isEmpty then .quit else .fail r.2)
  | .quit => (σ.withBatch σ.batch.resignIfEmpty.1).goto i (.returned .failed)
  | .returned _ => σ

/-- A run: which call steps, and whether its commit fails. -/
def System.run (reqs : ι → DeliverRequest) (a limit : Nat) (σ : System ι) (acts : List (ι × Bool)) : System ι :=
  acts.foldl (fun σ act => σ.step reqs a limit act.1 act.2) σ

end

/-! ### Leadership -/

/-- A queue that is not empty or a raised flag has a leader, and there is never more than one. -/
def System.led (σ : System ι) : Prop :=
  (σ.batch.queue ≠ [] ∨ σ.batch.active = true → ∃ i, (σ.pc i).leads = true) ∧
    ∀ i j, (σ.pc i).leads = true → (σ.pc j).leads = true → i = j

/-- The step keeps out of the gap of the failure path: no request is submitted while the leader
    stands between the last, empty take of `failAll` and its `resignIfEmpty`. -/
def System.allows (σ : System ι) (i : ι) : Prop := σ.pc i = .submit → ∀ j, σ.pc j ≠ .quit

/-- Every step of the run keeps out of the gap. -/
def System.steady [DecidableEq ι] (reqs : ι → DeliverRequest) (a limit : Nat) :
    System ι → List (ι × Bool) → Prop
  | _, [] => True
  | σ, act :: acts => σ.allows act.1 ∧ (σ.step reqs a limit act.1 act.2).steady reqs a limit acts

instance decidableSteady [DecidableEq ι] [Fintype ι] (reqs : ι → DeliverRequest) (a limit : Nat) :
    (acts : List (ι × Bool)) → (σ : System ι) → Decidable (σ.steady reqs a limit acts)
  | [], _ => inferInstanceAs (Decidable True)
  | act :: acts, σ =>
    have : Decidable (σ.allows act.1) := inferInstanceAs (Decidable (_ → _))
    have := decidableSteady reqs a limit acts (σ.step reqs a limit act.1 act.2)
    inferInstanceAs (Decidable (_ ∧ _))

/-- The invariant of the leadership: the flag is up while there is a leader, the queue is only used
    then, and it is empty when the leader is about to quit. -/
structure System.Led (σ : System ι) : Prop where
  one : ∀ i j, (σ.pc i).leads = true → (σ.pc j).leads = true → i = j
  active : σ.batch.active = true ↔ ∃ i, (σ.pc i).leads = true
  queue : σ.batch.queue ≠ [] → σ.batch.active = true
  quit : ∀ i, σ.pc i = .quit → σ.batch.queue = []

theorem System.Led.initial (kv : KV) : ({ kv } : System ι).Led :=
  ⟨fun _ _ hi => absurd hi (by simp [PC.leads]), by simp [PC.leads], fun h => absurd rfl h,
    fun _ _ => rfl⟩

theorem System.Led.led {σ : System ι} (h : σ.Led) : σ.led :=
  ⟨fun hq => h.active.mp (hq.elim h.queue id), h.one⟩

section
variable [DecidableEq ι] {σ σ' : System ι} {i : ι} {p : PC ι}

theorem leads_update (σ : System ι) (i j : ι) (p : PC ι) :
    (Function.update σ.pc i p j).leads = if j = i then p.leads else (σ.pc j).leads := by
  rw [Function.update_apply]
  split_ifs <;> rfl

/-- The leader goes on within its loop. -/
theorem System.Led.lead {q : PC ι} (h : σ.Led) (hi : σ.pc i = q) (hl : q.leads = true) (hp : p.leads = true)
    (hpc : σ'.pc = Function.update σ.pc i p) (ha : σ'.batch.active = σ.batch.active)
    (hq : p = .quit → σ'.batch.queue = []) : σ'.Led := by
  subst hi
  have hact : σ'.batch.active = true := ha.trans (h.active.mpr ⟨i, hl⟩)
  -- whoever leads afterwards is the leader there was
  have hlead : ∀ j, (σ'.pc j).leads = true → j = i := by
    intro j hj
    rw [hpc, leads_update] at hj
    split_ifs at hj with hji
    · exact hji
    · exact h.one j i hj hl
  refine ⟨fun j k hj hk => (hlead j hj).trans (hlead k hk).symm, ?_, fun _ => hact, fun j hj => ?_⟩
  · exact iff_of_true hact ⟨i, by rw [hpc, leads_update, if_pos rfl]; exact hp⟩
  · have hji := hlead j (by rw [hj]; rfl)
    subst hji
    rw [hpc, Function.update_self] at hj
    exact hq hj

/-- The leader leaves with the queue empty and the flag down. -/
theorem System.Led.leave (h : σ.Led) (hi : (σ.pc i).leads = true) (hp : p.leads = false)
    (hpc : σ'.pc = Function.update σ.pc i p) (ha : σ'.batch.active = false)
    (hq : σ'.batch.queue = []) : σ'.Led := by
  have hlead : ∀ j, (σ'.pc j).leads = false := by
    intro j
    rw [hpc, leads_update]
    split_ifs with hji
    · exact hp
    · by_contra hj
      exact hji (h.one j i (by simpa using hj) hi)
  refine ⟨fun j k hj => ?_, ?_, fun hne => absurd hq hne, fun _ _ => hq⟩
  · rw [hlead] at hj
    cases hj
  · simp [ha, hlead]

/-- A call outside the loop moves on outside it. -/
theorem System.Led.follow (h : σ.Led) (hi : (σ.pc i).leads = false) (hp : p.leads = false)
    (hpc : σ'.pc = Function.update σ.pc i p) (ha : σ'.batch.active = σ.batch.active)
    (hq : σ'.batch.queue ≠ [] → σ.batch.active = true)
    (hquit : ∀ j, σ.pc j = .quit → σ'.batch.queue = []) : σ'.Led := by
  have hlead : ∀ j, (σ'.pc j).leads = (σ.pc j).leads := by
    intro j
    rw [hpc, leads_update]
    split_ifs with hji
    · rw [hp, hji, hi]
    · rfl
  refine ⟨fun j k => ?_, ?_, fun hne => ha.trans (hq hne), fun j hj => hquit j ?_⟩
  · rw [hlead, hlead]; exact h.one j k
  · simp only [ha, hlead]; exact h.active
  · rw [hpc, Function.update_apply] at hj
    split_ifs at hj with hji
    · rw [hj] at hp
      exact absurd hp (by simp [PC.leads])
    · exact hj

/-- The step lemma. -/
theorem System.Led.step (h : σ.Led) (ha : σ.allows i) (reqs : ι → DeliverRequest) (a limit : Nat)
    (fails : Bool) : (σ.step reqs a limit i fails).Led := by
  have hsend : ∀ (req : ι) (r : Outcome) (p : PC ι), (σ.pc i).leads = true → p.leads = true →
      p ≠ .quit → (σ.sendTo i req r p).Led := by
    intro req r p hi hp hq
    unfold System.sendTo
    split_ifs
    · exact h.lead rfl hi hp rfl rfl fun he => absurd he hq
    · exact h
  unfold System.step
  cases hpc : σ.pc i with
  | submit =>
    simp only
    cases hact : σ.batch.active with
    | true =>
      rw [submit_active hact]
      refine h.follow (by rw [hpc]; rfl) (p := .waiting) rfl rfl hact.symm (fun _ => hact) ?_
      exact fun j hj => absurd hj (ha hpc j)
    | false =>
      rw [submit_idle hact]
      -- nobody leads, so the caller is the only leader and the queue is empty
      have hnone : ∀ j, (σ.pc j).leads = false := by
        intro j
        by_contra hj
        exact absurd (h.active.mpr ⟨j, by simpa using hj⟩) (by simp [hact])
      have hq : σ.batch.queue = [] := by
        by_contra hne
        exact absurd (h.queue hne) (by simp [hact])
      have hlead : ∀ j, (Function.update σ.pc i .join j).leads = true ↔ j = i := by
        intro j
        rw [leads_update]
        split_ifs with hji
        · simp [hji, PC.leads]
        · simp [hji, hnone]
      refine ⟨fun j k hj hk => ((hlead j).mp hj).trans ((hlead k).mp hk).symm, ?_, ?_, fun _ _ => hq⟩
      · exact iff_of_true rfl ⟨i, (hlead i).mpr rfl⟩
      · exact fun hne => absurd hq hne
  | waiting =>
    simp only
    cases σ.done i with
    | nil => exact h
    | cons r rest =>
      exact h.follow (by rw [hpc]; rfl) (p := .returned r) rfl rfl rfl h.queue h.quit
  | join => exact h.lead hpc rfl (p := .commit true _) rfl rfl rfl (by simp)
  | commit first batch =>
    simp only
    split_ifs
    · exact h.lead hpc rfl (p := .fail batch) rfl rfl rfl (by simp)
    · exact h.lead hpc rfl (p := .send _) rfl rfl rfl (by simp)
  | send results =>
    cases results with
    | nil => exact h.lead hpc rfl (p := .resign) rfl rfl rfl (by simp)
    | cons r rest => exact hsend r.1 (.uid r.2) (.send rest) (by rw [hpc]; rfl) rfl (by simp)
  | resign =>
    simp only
    by_cases hq : σ.batch.queue = []
    · rw [resignIfEmpty_empty hq]
      exact h.leave (by rw [hpc]; rfl) (p := .returned (.uid (σ.myUID i))) rfl rfl rfl rfl
    · rw [resignIfEmpty_busy hq]
      exact h.lead hpc rfl (p := .take) rfl rfl rfl (by simp)
  | take => exact h.lead hpc rfl (p := .commit false _) rfl rfl rfl (by simp)
  | fail batch =>
    cases batch with
    | nil => exact h.lead hpc rfl (p := .failAll) rfl rfl rfl (by simp)
    | cons req rest => exact hsend req .failed (.fail rest) (by rw [hpc]; rfl) rfl (by simp)
  | failAll =>
    simp only
    by_cases hq : (σ.batch.take failLimit).2.isEmpty = true
    · -- a take that finds nothing leaves nothing
      rw [if_pos hq]
      refine h.lead hpc rfl (p := .quit) rfl rfl rfl fun _ => ?_
      have hnil : σ.batch.queue = [] := by
        rcases List.take_eq_nil_iff.mp (List.isEmpty_iff.mp hq) with h0 | hnil
        · exact absurd h0 (by decide)
        · exact hnil
      change σ.batch.queue.drop failLimit = []
      rw [hnil, List.drop_nil]
    · rw [if_neg hq]
      exact h.lead hpc rfl (p := .fail _) rfl rfl rfl (by simp)
  | quit =>
    simp only
    rw [resignIfEmpty_empty (h.quit i hpc)]
    exact h.leave (by rw [hpc]; rfl) (p := .returned .failed) rfl rfl rfl rfl
  | returned r => exact h

/-- The run lemma. -/
theorem System.Led.run (reqs : ι → DeliverRequest) (a limit : Nat) :
    ∀ (acts : List (ι × Bool)) {σ : System ι}, σ.Led → σ.steady reqs a limit acts →
    (σ.run reqs a limit acts).Led
  | [], _, h, _ => h
  | act :: acts, _, h, hs =>
    System.Led.run reqs a limit acts (h.step hs.1 reqs a limit act.2) hs.2

/-- LED: in every steady interleaving of any number of calls, whatever commits fail, no request is
    queued and no flag is up without a leader, and there is one leader at most. -/
theorem batch_led (reqs : ι → DeliverRequest) (a limit : Nat) (kv : KV) (acts : List (ι × Bool))
    (h : ({ kv } : System ι).steady reqs a limit acts) : (({ kv } : System ι).run reqs a limit acts).led :=
  (System.Led.run reqs a limit acts (System.Led.initial kv) h).led

end

/-- A request for mailbox 1. -/
def sample : DeliverRequest := { mailboxID := 1, fields := {}, blobID := ascii "sha256-0", size := 2 }

/-- A commit fails with a second call queued, which is failed along and leaves the queue empty. -/
theorem batch_led_failed :
    let acts : List (Fin 2 × Bool) := [(0, false), (1, false), (0, false), (0, true)] ++
      List.replicate 9 (0, false)
    (({} : System (Fin 2)).steady (fun _ => sample) 1 256 acts) ∧
      (({} : System (Fin 2)).run (fun _ => sample) 1 256 acts).led :=
  ⟨by decide +kernel, batch_led (fun _ => sample) 1 256 {} _ (by decide +kernel)⟩

/-- A commit fails, `failAll` finds the queue empty, a second call submits its request, and the
    leader, which cannot resign now, leaves all the same. -/
theorem batch_unled_in_gap :
    let acts : List (Fin 2 × Bool) := [(0, false), (0, false), (0, true), (0, false), (0, false),
      (0, false), (1, false), (0, false)]
    ¬(({} : System (Fin 2)).run (fun _ => sample) 1 256 acts).led := by
  intro acts h
  have hq : (({} : System (Fin 2)).run (fun _ => sample) 1 256 acts).batch.queue ≠ [] := by
    decide +kernel
  obtain ⟨i, hi⟩ := h.1 (Or.inl hq)
  have hnone : ∀ i, ((({} : System (Fin 2)).run (fun _ => sample) 1 256 acts).pc i).leads = false := by
    decide +kernel
  rw [hnone] at hi
  cases hi

end Mailezine.Mailstore.Batch
