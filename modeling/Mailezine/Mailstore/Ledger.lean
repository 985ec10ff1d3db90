import Mailezine.Mailstore.Batch

/-! The results of the delivery batcher.

    Every request is at one place at a time: not submitted, queued, in the batch of a leader, stored by
    a leader that has not told it yet, or answered. `Matches` ties this abstract ledger to the queue,
    the leaders' batches, the channels and the commits; what a call returns is then the place its
    request ended at. -/

namespace Mailezine.Mailstore.Batch
open Store List

variable {ι : Type}

/-- Where a request is. -/
inductive Place (ι : Type) where
  | fresh
  | queued
  | staged (leader : ι)
  | stored (leader : ι) (uid : Nat)
  | answered (r : Outcome)

/-- The results a request was sent. -/
@[grind] def Place.results : Place ι → List Outcome
  | .answered r => [r]
  | _ => []

/-- The UID a request was committed with. -/
@[grind] def Place.uid : Place ι → Option Nat
  | .stored _ u => some u
  | .answered (.uid u) => some u
  | _ => none

/-- The requests that call `i` holds and has not committed. -/
@[grind] def PC.staged (i : ι) : PC ι → List ι
  | .join => [i]
  | .commit _ batch => batch
  | .fail batch => batch
  | _ => []

/-- The requests that a call has committed and not told yet, with their UIDs. -/
@[grind] def PC.stored : PC ι → List (ι × Nat)
  | .send results => results
  | _ => []

/-- What the program counter of call `i` says about its own request. -/
@[grind] def System.own (σ : System ι) (i : ι) (place : Place ι) : Prop :=
  match σ.pc i with
  | .submit | .waiting => True
  | .join => place = .staged i
  | .commit true batch => batch.head? = some i
  | .commit false _ | .send _ | .resign | .take => place.uid = some (σ.myUID i)
  | .fail _ | .failAll | .quit => place = .staged i ∨ place = .answered .failed
  | .returned r => place = .answered r

/-- The requests are where the ledger says. -/
structure System.Matches (σ : System ι) (place : ι → Place ι) : Prop where
  fresh : ∀ i, place i = .fresh ↔ σ.pc i = .submit
  queue_nodup : σ.batch.queue.Nodup
  queue : ∀ i, i ∈ σ.batch.queue ↔ place i = .queued
  staged_nodup : ∀ ℓ, ((σ.pc ℓ).staged ℓ).Nodup
  staged : ∀ ℓ i, i ∈ (σ.pc ℓ).staged ℓ ↔ place i = .staged ℓ
  stored_nodup : ∀ ℓ, ((σ.pc ℓ).stored.map (·.1)).Nodup
  stored : ∀ ℓ i u, (i, u) ∈ (σ.pc ℓ).stored ↔ place i = .stored ℓ u
  sent : ∀ i, σ.sent i = (place i).results
  committed_nodup : (σ.committed.map (·.1)).Nodup
  committed : ∀ i u, (∃ d, (i, d) ∈ σ.committed ∧ u32 d.uid = u) ↔ (place i).uid = some u
  waiting_queued : ∀ i, place i = .queued → σ.pc i = .waiting
  waiting_staged : ∀ i ℓ, place i = .staged ℓ → i ≠ ℓ → σ.pc i = .waiting
  waiting_stored : ∀ i ℓ u, place i = .stored ℓ u → i ≠ ℓ → σ.pc i = .waiting
  channel : ∀ i, σ.pc i = .waiting → σ.done i = σ.sent i
  channel_free : ∀ i, (place i).results = [] → σ.done i = []
  own : ∀ i, σ.own i (place i)

theorem own_congr (σ σ' : System ι) {j : ι} {q : Place ι} (hpc : σ'.pc j = σ.pc j)
    (hmy : σ'.myUID j = σ.myUID j) : σ'.own j q ↔ σ.own j q := by
  unfold System.own
  rw [hpc, hmy]

theorem own_goto [DecidableEq ι] (σ : System ι) (i : ι) (p : PC ι) (q : Place ι) :
    (σ.goto i p).own i q = ({ σ with pc := fun _ => p } : System ι).own i q := by
  simp only [System.own, System.goto_pc, System.goto_myUID, Function.update_self]

theorem PC.ne_of_leads {p : PC ι} (h : p.leads = true) : p ≠ .submit ∧ p ≠ .waiting := by
  constructor <;> rintro rfl <;> cases h

/-- A leader that holds nothing has its own request answered. -/
theorem System.Matches.answered_of_leads {σ : System ι} {place : ι → Place ι} {i : ι}
    (h : σ.Matches place) (hled : σ.Led) {p : PC ι} (hpc : σ.pc i = p) (hi : p.leads = true)
    (hst : p.staged i = []) (hso : p.stored = []) : ∃ r, place i = .answered r := by
  subst hpc
  have hne := PC.ne_of_leads hi
  -- whoever holds the request leads, so it is this call
  have hself : ∀ ℓ, (σ.pc ℓ).staged ℓ ≠ [] ∨ (σ.pc ℓ).stored ≠ [] → ℓ = i := by
    intro ℓ hℓ
    refine hled.one ℓ i ?_ hi
    cases hpc : σ.pc ℓ <;> simp [hpc, PC.staged, PC.stored, PC.leads] at hℓ ⊢
  cases hp : place i with
  | fresh => exact absurd ((h.fresh i).mp hp) hne.1
  | queued => exact absurd (h.waiting_queued i hp) hne.2
  | staged ℓ =>
    have hmem := (h.staged ℓ i).mpr hp
    obtain rfl := hself ℓ (Or.inl (ne_nil_of_mem hmem))
    rw [hst] at hmem
    cases hmem
  | stored ℓ u =>
    have hmem := (h.stored ℓ i u).mpr hp
    obtain rfl := hself ℓ (Or.inr (ne_nil_of_mem hmem))
    rw [hso] at hmem
    cases hmem
  | answered r => exact ⟨r, rfl⟩

theorem length_deliverEmailBatch (a : Nat) : ∀ (rs : List DeliverRequest) (kv : KV),
    (deliverEmailBatch a rs kv).2.length = rs.length
  | [], _ => rfl
  | r :: rs, kv => by
    rw [deliverEmailBatch, length_cons, length_cons, length_deliverEmailBatch a rs]

/-- The results of a commit are those of the batch, in its order. -/
theorem map_results (reqs : ι → DeliverRequest) (a : Nat) (σ : System ι) (batch : List ι) :
    (σ.results reqs a batch).map (·.1) = batch := by
  unfold System.results
  exact map_fst_zip (by rw [length_deliverEmailBatch, length_map])

section
variable [DecidableEq ι] {σ : System ι} {place : ι → Place ι} {i : ι}

section
variable (h : σ.Matches place)
include h

/-! ### The steps -/

/-- A request joins the queue of an active leader. -/
theorem System.Matches.enqueue (hi : σ.pc i = .submit) :
    ((σ.withBatch ⟨σ.batch.queue ++ [i], true⟩).goto i .waiting).Matches (Function.update place i .queued) := by
  have hfresh : place i = .fresh := (h.fresh i).mpr hi
  have hnot : i ∉ σ.batch.queue := by simp [h.queue, hfresh]
  cases h
  constructor <;> grind

/-- A call becomes the leader and stages its own request. -/
theorem System.Matches.lead (hi : σ.pc i = .submit) :
    ((σ.withBatch ⟨σ.batch.queue, true⟩).goto i .join).Matches (Function.update place i (.staged i)) := by
  have hfresh : place i = .fresh := (h.fresh i).mpr hi
  cases h
  constructor <;> grind

/-- The leader takes queued requests into its batch; its own request stays where it is. -/
theorem System.Matches.take {q p : PC ι} (hpc : σ.pc i = q) (limit : Nat)
    (hi : q.leads = true) (hp : p.leads = true) (hst : p.staged i = q.staged i ++ σ.batch.queue.take limit)
    (hso : p.stored = []) (hso' : q.stored = [])
    (hown : ((σ.withBatch (σ.batch.take limit).1).goto i p).own i (place i)) :
    ((σ.withBatch (σ.batch.take limit).1).goto i p).Matches
      (fun j => if j ∈ σ.batch.queue.take limit then .staged i else place j) := by
  subst hpc
  have hdrop : ∀ j, j ∈ σ.batch.queue.drop limit ↔ j ∈ σ.batch.queue ∧ j ∉ σ.batch.queue.take limit := by
    intro j
    have hnd := h.queue_nodup
    rw [← take_append_drop limit σ.batch.queue, nodup_append] at hnd
    constructor
    · intro hj
      exact ⟨mem_of_mem_drop hj, fun ht => hnd.2.2 j ht j hj rfl⟩
    · rintro ⟨hj, hn⟩
      rw [← take_append_drop limit σ.batch.queue, mem_append] at hj
      exact hj.resolve_left hn
  have hqd : (σ.batch.queue.drop limit).Nodup := h.queue_nodup.sublist (drop_sublist _ _)
  have hqt : (σ.batch.queue.take limit).Nodup := h.queue_nodup.sublist (take_sublist _ _)
  have htake : ∀ j ∈ σ.batch.queue.take limit, place j = .queued := fun j hj =>
    (h.queue j).mp (mem_of_mem_take hj)
  have hself : i ∉ σ.batch.queue.take limit := fun hmem =>
    (PC.ne_of_leads hi).2 (h.waiting_queued i (htake i hmem))
  have hbatch : (σ.batch.take limit).1.queue = σ.batch.queue.drop limit := rfl
  have hstd : ((σ.pc i).staged i ++ σ.batch.queue.take limit).Nodup := by
    refine nodup_append.mpr ⟨h.staged_nodup i, hqt, ?_⟩
    rintro j hj k hk rfl
    rw [h.staged, htake j hk] at hj
    cases hj
  obtain ⟨h₁, h₂, h₃, h₄, h₅, h₆, h₇, h₈, h₉, h₁₀, h₁₁, h₁₂, h₁₃, h₁₄, h₁₅, h₁₆⟩ := h
  have hown' : ∀ j, ((σ.withBatch (σ.batch.take limit).1).goto i p).own j
      (if j ∈ σ.batch.queue.take limit then .staged i else place j) := by
    intro j
    by_cases hji : j = i
    · subst hji; rw [if_neg hself]; exact hown
    · refine (own_congr σ ((σ.withBatch (σ.batch.take limit).1).goto i p)
        (Function.update_of_ne hji _ _) rfl).mpr ?_
      split_ifs with hj
      · rw [System.own, h₁₁ j (htake j hj)]; trivial
      · exact h₁₆ j
  refine ⟨?_, hqd, ?_, ?_, ?_, ?_, ?_, ?_, h₉, ?_, ?_, ?_, ?_, ?_, ?_, hown'⟩ <;> grind [PC.leads]

/-- A call moves on and no request changes its place. -/
theorem System.Matches.move {σ' : System ι} {p : PC ι}
    (hpc : σ'.pc = Function.update σ.pc i p) (hq : σ'.batch.queue = σ.batch.queue)
    (hd : ∀ j ≠ i, σ'.done j = σ.done j) (hs : σ'.sent = σ.sent) (hc : σ'.committed = σ.committed)
    (hmy : σ'.myUID = σ.myUID) (hsub : σ.pc i ≠ .submit) (hsub' : p ≠ .submit) (hwait : p ≠ .waiting)
    (hst : p.staged i = (σ.pc i).staged i) (hso : p.stored = (σ.pc i).stored)
    (hfree : σ'.done i = σ.done i ∨ ∃ r, place i = .answered r)
    (hplace : σ.pc i = .waiting → ∃ r, place i = .answered r)
    (hown : σ'.own i (place i)) : σ'.Matches place := by
  have hpc' : ∀ j ≠ i, σ'.pc j = σ.pc j := fun j hj => by rw [hpc, Function.update_of_ne hj]
  have hpci : σ'.pc i = p := by rw [hpc, Function.update_self]
  have hstaged : ∀ ℓ, (σ'.pc ℓ).staged ℓ = (σ.pc ℓ).staged ℓ := by
    intro ℓ
    by_cases hℓ : ℓ = i
    · subst hℓ; rw [hpci, hst]
    · rw [hpc' ℓ hℓ]
  have hstored : ∀ ℓ, (σ'.pc ℓ).stored = (σ.pc ℓ).stored := by
    intro ℓ
    by_cases hℓ : ℓ = i
    · subst hℓ; rw [hpci, hso]
    · rw [hpc' ℓ hℓ]
  -- a call that waits for its result still does, unless its request is answered
  have hw : ∀ j, σ.pc j = .waiting → (∀ r, place j ≠ .answered r) → σ'.pc j = .waiting := by
    intro j hj hne
    by_cases hji : j = i
    · subst hji
      obtain ⟨r, hr⟩ := hplace hj
      exact absurd hr (hne r)
    · rw [hpc' j hji, hj]
  refine ⟨fun j => ?_, hq ▸ h.queue_nodup, fun j => by rw [hq, h.queue],
    fun ℓ => hstaged ℓ ▸ h.staged_nodup ℓ, fun ℓ j => by rw [hstaged, h.staged],
    fun ℓ => hstored ℓ ▸ h.stored_nodup ℓ, fun ℓ j u => by rw [hstored, h.stored],
    fun j => by rw [hs, h.sent], hc ▸ h.committed_nodup, fun j u => by rw [hc, h.committed],
    fun j hj => hw j (h.waiting_queued j hj) (by simp [hj]),
    fun j ℓ hj hne => hw j (h.waiting_staged j ℓ hj hne) (by simp [hj]),
    fun j ℓ u hj hne => hw j (h.waiting_stored j ℓ u hj hne) (by simp [hj]),
    fun j hj => ?_, fun j hj => ?_, fun j => ?_⟩
  · by_cases hji : j = i
    · subst hji
      rw [hpci, h.fresh]
      simp [hsub, hsub']
    · rw [hpc' j hji, h.fresh]
  · have hji : j ≠ i := by
      rintro rfl
      exact hwait (hpci.symm.trans hj)
    rw [hd j hji, hs]
    exact h.channel j (by rw [← hpc' j hji]; exact hj)
  · by_cases hji : j = i
    · subst hji
      rcases hfree with hd | ⟨r, hr⟩
      · rw [hd]; exact h.channel_free j hj
      · exact absurd hj (by simp [hr, Place.results])
    · rw [hd j hji]; exact h.channel_free j hj
  · by_cases hji : j = i
    · subst hji; exact hown
    · exact (own_congr σ σ' (hpc' j hji) (by rw [hmy])).mpr (h.own j)

/-- The leader goes on to its next step with nothing sent, taken or stored. -/
theorem System.Matches.goto {q p : PC ι} {b : PerAccountBatch ι} (hpc : σ.pc i = q)
    (hi : q.leads = true) (hp : p ≠ .submit ∧ p ≠ .waiting) (hst : p.staged i = q.staged i)
    (hso : p.stored = q.stored)
    (hq : b.queue = σ.batch.queue) (hown : ((σ.withBatch b).goto i p).own i (place i)) :
    ((σ.withBatch b).goto i p).Matches place := by
  subst hpc
  have hne := PC.ne_of_leads hi
  exact h.move rfl hq (fun _ _ => rfl) rfl rfl rfl hne.1 hp.1 hp.2 hst hso (Or.inl rfl)
    (fun he => absurd he hne.2) hown

/-- A waiting call takes its result and returns it. -/
theorem System.Matches.receive (hi : σ.pc i = .waiting) {r : Outcome}
    {rest : List Outcome} (hd : σ.done i = r :: rest) :
    ((σ.receive i rest).goto i (.returned r)).Matches place := by
  have hr : place i = .answered r := by
    have hs := (h.channel i hi).symm.trans hd
    rw [h.sent] at hs
    cases hp : place i with
    | answered r' =>
      rw [hp] at hs
      rw [(cons.inj hs).1]
    | fresh | queued | staged | stored =>
      rw [hp] at hs
      exact absurd hs (by simp [Place.results])
  refine h.move rfl rfl (fun j hj => Function.update_of_ne hj _ _) rfl rfl rfl (by simp [hi])
    (by simp) (by simp) (by simp [hi, PC.staged]) (by simp [hi, PC.stored]) (Or.inr ⟨r, hr⟩)
    (fun _ => ⟨r, hr⟩) ?_
  rw [own_goto]
  exact hr

end

variable {out : List (ι × DeliverResult)}

/-- The result of a request of the batch. -/
theorem find_results (hnd : (out.map (·.1)).Nodup)
    {r : ι × DeliverResult} (hr : r ∈ out) : out.find? (·.1 = r.1) = some r := by
  induction out with
  | nil => cases hr
  | cons q out ih =>
    rw [map_cons, nodup_cons] at hnd
    rcases mem_cons.mp hr with rfl | hr
    · simp
    · have hne : q.1 ≠ r.1 := fun he => hnd.1 (he ▸ List.mem_map_of_mem hr)
      rw [find?_cons_of_neg (by simpa using hne), ih hnd.2 hr]

/-- The place of a request after a commit with these results. -/
def storedAt (out : List (ι × DeliverResult)) (i : ι) (place : ι → Place ι) (j : ι) : Place ι :=
  match out.find? (·.1 = j) with
  | some r => .stored i (u32 r.2.uid)
  | none => place j

theorem storedAt_mem (hnd : (out.map (·.1)).Nodup)
    {r : ι × DeliverResult} (hr : r ∈ out) (place : ι → Place ι) :
    storedAt out i place r.1 = .stored i (u32 r.2.uid) := by
  simp only [storedAt, find_results hnd hr]

theorem storedAt_of_notMem {j : ι} (hj : j ∉ out.map (·.1))
    (place : ι → Place ι) : storedAt out i place j = place j := by
  have hnone : out.find? (·.1 = j) = none := by
    rw [find?_eq_none]
    intro r hr he
    exact hj (by rw [← of_decide_eq_true he]; exact List.mem_map_of_mem hr)
  simp only [storedAt, hnone]

/-- A commit stores the whole batch. -/
theorem System.Matches.commit (h : σ.Matches place) {first : Bool} {batch : List ι}
    (hi : σ.pc i = .commit first batch) (reqs : ι → DeliverRequest) (a : Nat) :
    (σ.commit reqs a i first batch).Matches (storedAt (σ.results reqs a batch) i place) := by
  have hfst := map_results reqs a σ batch
  have hcommit := σ.commit_committed reqs a i first batch
  have hmy := σ.commit_myUID reqs a i first batch
  have hpc := σ.commit_pc reqs a i first batch
  generalize σ.results reqs a batch = out at *
  have hnd : (out.map (·.1)).Nodup := by
    rw [hfst]
    simpa [hi, PC.staged] using h.staged_nodup i
  have hin : ∀ r ∈ out, storedAt out i place r.1 = .stored i (u32 r.2.uid) := fun r hr =>
    storedAt_mem hnd hr place
  have hstaged : ∀ j, j ∈ out.map (·.1) ↔ place j = .staged i := by
    intro j
    rw [hfst, ← h.staged, hi, PC.staged]
  have hout : ∀ j, place j ≠ .staged i → storedAt out i place j = place j := fun j hj =>
    storedAt_of_notMem (fun hm => hj ((hstaged j).mp hm)) place
  have hbatch : ∀ j, place j = .staged i → ∃ d, (j, d) ∈ out := by
    intro j hj
    obtain ⟨r, hr, rfl⟩ := List.mem_map.mp ((hstaged j).mpr hj)
    exact ⟨r.2, hr⟩
  have hof : ∀ j d, (j, d) ∈ out → place j = .staged i := fun j d hd =>
    (hstaged j).mp (List.mem_map_of_mem hd)
  have hdone : (σ.commit reqs a i first batch).done = σ.done := rfl
  have hsent : (σ.commit reqs a i first batch).sent = σ.sent := rfl
  have hq : (σ.commit reqs a i first batch).batch = σ.batch := rfl
  have hsto : (PC.stored (.send (out.map fun r => (r.1, u32 r.2.uid)))).map (·.1) = out.map (·.1) := by
    simp [PC.stored, Function.comp_def]
  have hhead : first = true → ∃ d rest, out = (i, d) :: rest := by
    rintro rfl
    have hown := h.own i
    simp only [System.own, hi, ← hfst, head?_map] at hown
    cases out with
    | nil => cases hown
    | cons r rest => exact ⟨r.2, rest, by rw [← Option.some.inj hown]⟩
  generalize σ.commit reqs a i first batch = σ' at *
  generalize storedAt out i place = place' at *
  have hstored : ∀ j u, place' j = .stored i u ↔ ∃ d, (j, d) ∈ out ∧ u32 d.uid = u := by
    intro j u
    by_cases hj : place j = .staged i
    · obtain ⟨d, hd⟩ := hbatch j hj
      have huniq : ∀ d', (j, d') ∈ out → u32 d'.uid = u32 d.uid := by
        intro d' hd'
        have heq : place' j = .stored i (u32 d'.uid) := hin (j, d') hd'
        rw [hin (j, d) hd] at heq
        exact (Place.stored.inj heq).2.symm
      rw [hin _ hd, Place.stored.injEq]
      exact ⟨fun he => ⟨d, hd, he.2⟩, fun ⟨d', hd', hu⟩ => ⟨rfl, (huniq d' hd').symm.trans hu⟩⟩
    · rw [hout j hj, ← h.stored, hi]
      exact ⟨fun hm => absurd hm (by simp [PC.stored]), fun ⟨d, hd, _⟩ => absurd (hof j d hd) hj⟩
  have hdisj : ∀ j d d', (j, d) ∈ σ.committed → (j, d') ∉ out := by
    intro j d d' hc hd'
    have := (h.committed j (u32 d.uid)).mp ⟨d, hc, rfl⟩
    rw [hof j d' hd'] at this
    exact absurd this (by simp [Place.uid])
  have hown : ∀ j, σ'.own j (place' j) := by
    intro j
    by_cases hji : j = i
    · subst hji
      simp only [System.own, hpc, Function.update_self]
      cases first with
      | true =>
        obtain ⟨d, rest, rfl⟩ := hhead rfl
        rw [(hstored j (u32 d.uid)).mpr ⟨d, by simp, rfl⟩, hmy]
        simp [Place.uid]
      | false =>
        have hown := h.own j
        simp only [System.own, hi] at hown
        rw [hout j fun he => by simp [he, Place.uid] at hown, hmy]
        exact hown
    · refine (own_congr σ σ' (by rw [hpc, Function.update_of_ne hji]) ?_).mpr ?_
      · rw [hmy]
        split_ifs
        · rw [Function.update_of_ne hji]
        · rfl
      · by_cases hj : place j = .staged i
        · rw [System.own, h.waiting_staged j i hj hji]; trivial
        · rw [hout j hj]; exact h.own j
  obtain ⟨h₁, h₂, h₃, h₄, h₅, h₆, h₇, h₈, h₉, h₁₀, h₁₁, h₁₂, h₁₃, h₁₄, h₁₅, h₁₆⟩ := h
  refine ⟨?_, ?_, ?_, ?_, ?_, ?_, fun ℓ j u => ?_, ?_, ?_, fun j u => ?_, ?_, ?_, ?_, ?_, ?_, hown⟩
  case refine_7 =>
    by_cases hℓ : ℓ = i
    · subst hℓ
      rw [hstored, hpc, Function.update_self]
      simp [PC.stored, Prod.ext_iff]
    · grind
  case refine_9 =>
    rw [hcommit, map_append, nodup_append]
    refine ⟨h₉, hnd, ?_⟩
    rintro j hj k hk rfl
    obtain ⟨r, hr, rfl⟩ := List.mem_map.mp hj
    obtain ⟨q, hq', hqr⟩ := List.mem_map.mp hk
    exact hdisj r.1 r.2 q.2 hr (by rw [← hqr]; exact hq')
  case refine_10 =>
    rw [hcommit]
    by_cases hj : place j = .staged i
    · obtain ⟨d, hd⟩ := hbatch j hj
      grind
    · have := h₁₀ j u
      grind
  all_goals grind

/-- The error is sent to a request of the batch. -/
theorem System.Matches.answer_failed (h : σ.Matches place) {req : ι} {rest : List ι}
    (hi : σ.pc i = .fail (req :: rest)) : ((σ.put req .failed).goto i (.fail rest)).Matches
      (Function.update place req (.answered .failed)) := by
  have hreq : place req = .staged i := (h.staged i req).mp (by simp [hi, PC.staged])
  cases h
  constructor <;> grind

/-- A UID is sent to a request of the batch. -/
theorem System.Matches.answer_uid (h : σ.Matches place) {req : ι} {uid : Nat}
    {rest : List (ι × Nat)} (hi : σ.pc i = .send ((req, uid) :: rest)) :
    ((σ.put req (.uid uid)).goto i (.send rest)).Matches
      (Function.update place req (.answered (.uid uid))) := by
  have hreq : place req = .stored i uid := (h.stored i req uid).mp (by simp [hi, PC.stored])
  cases h
  constructor <;> grind

/-! ### Runs -/

/-- A commit that is not the leader's first. -/
def PC.later : PC ι → Bool
  | .commit false _ => true
  | _ => false

/-- The step keeps out of the gap of the failure path, and no commit after the leader's first
    fails. -/
def System.permits (σ : System ι) (i : ι) (fails : Bool) : Prop :=
  σ.allows i ∧ ((σ.pc i).later = true → fails = false)

/-- Every step of the run is permitted. -/
def System.smooth (reqs : ι → DeliverRequest) (a limit : Nat) : System ι → List (ι × Bool) → Prop
  | _, [] => True
  | σ, act :: acts => σ.permits act.1 act.2 ∧ (σ.step reqs a limit act.1 act.2).smooth reqs a limit acts

instance decidableSmooth [Fintype ι] (reqs : ι → DeliverRequest) (a limit : Nat) :
    (acts : List (ι × Bool)) → (σ : System ι) → Decidable (σ.smooth reqs a limit acts)
  | [], _ => inferInstanceAs (Decidable True)
  | act :: acts, σ =>
    have : Decidable (σ.allows act.1) := inferInstanceAs (Decidable (_ → _))
    have : Decidable (σ.permits act.1 act.2) := inferInstanceAs (Decidable (_ ∧ _))
    have := decidableSmooth reqs a limit acts (σ.step reqs a limit act.1 act.2)
    inferInstanceAs (Decidable (_ ∧ _))

/-- The step lemma. -/
theorem System.Matches.step (h : σ.Matches place) (hled : σ.Led) (fails : Bool)
    (hper : σ.permits i fails) (reqs : ι → DeliverRequest) (a limit : Nat) :
    ∃ place', (σ.step reqs a limit i fails).Matches place' := by
  have hfree : ∀ req, (place req).results = [] → (σ.done req).isEmpty = true := fun req hr => by
    simp [h.channel_free req hr]
  have hown := h.own i
  unfold System.step
  cases hpc : σ.pc i with
  | submit =>
    simp only
    cases hact : σ.batch.active with
    | true => rw [submit_active hact]; exact ⟨_, h.enqueue hpc⟩
    | false => rw [submit_idle hact]; exact ⟨_, h.lead hpc⟩
  | waiting =>
    simp only
    cases hd : σ.done i with
    | nil => exact ⟨place, h⟩
    | cons r rest => exact ⟨place, h.receive hpc hd⟩
  | join =>
    refine ⟨_, h.take (p := .commit true (i :: (σ.batch.take limit).2)) hpc limit rfl rfl rfl rfl rfl ?_⟩
    rw [own_goto]; rfl
  | commit first batch =>
    simp only
    cases hf : fails with
    | false => exact ⟨_, h.commit hpc reqs a⟩
    | true =>
      -- only a first commit fails, and its batch starts with the leader's own request
      have hfirst : first = true := by
        cases first with
        | true => rfl
        | false => exact absurd (hper.2 (by rw [hpc]; rfl)) (by simp [hf])
      subst hfirst
      rw [System.own, hpc] at hown
      have hstaged : place i = .staged i :=
        (h.staged i i).mp (by rw [hpc]; exact mem_of_head? hown)
      refine ⟨place, h.goto (b := σ.batch) (p := .fail batch) hpc rfl (by simp) rfl rfl rfl ?_⟩
      rw [own_goto]
      exact Or.inl hstaged
  | send results =>
    cases results with
    | nil =>
      refine ⟨place, h.goto (b := σ.batch) (p := .resign) hpc rfl (by simp) rfl rfl rfl ?_⟩
      rw [own_goto]
      rw [System.own, hpc] at hown
      exact hown
    | cons r rest =>
      have hreq : place r.1 = .stored i r.2 := (h.stored i r.1 r.2).mp (by simp [hpc, PC.stored])
      simp only [System.sendTo, hfree r.1 (by rw [hreq]; rfl), if_true]
      exact ⟨_, h.answer_uid hpc⟩
  | resign =>
    simp only
    rw [System.own, hpc] at hown
    by_cases hq : σ.batch.queue = []
    · obtain ⟨r, hr⟩ := h.answered_of_leads hled hpc rfl rfl rfl
      rw [resignIfEmpty_empty hq]
      refine ⟨place, h.goto (p := .returned (.uid (σ.myUID i))) hpc rfl (by simp) rfl rfl hq.symm ?_⟩
      cases r with
      | uid u =>
        rw [hr] at hown
        rw [own_goto, hr, Option.some.inj hown]
        rfl
      | failed =>
        rw [hr] at hown
        exact absurd hown (by simp [Place.uid])
    · rw [resignIfEmpty_busy hq]
      refine ⟨place, h.goto (p := .take) hpc rfl (by simp) rfl rfl rfl ?_⟩
      rw [own_goto]
      exact hown
  | take =>
    rw [System.own, hpc] at hown
    refine ⟨_, h.take (p := .commit false (σ.batch.take limit).2) hpc limit rfl rfl rfl rfl rfl ?_⟩
    rw [own_goto]; exact hown
  | fail batch =>
    rw [System.own, hpc] at hown
    cases batch with
    | nil =>
      refine ⟨place, h.goto (b := σ.batch) (p := .failAll) hpc rfl (by simp) rfl rfl rfl ?_⟩
      rw [own_goto]
      exact hown
    | cons req rest =>
      have hreq : place req = .staged i := (h.staged i req).mp (by simp [hpc, PC.staged])
      simp only [System.sendTo, hfree req (by rw [hreq]; rfl), if_true]
      exact ⟨_, h.answer_failed hpc⟩
  | failAll =>
    rw [System.own, hpc] at hown
    simp only
    by_cases hq : (σ.batch.take failLimit).2.isEmpty = true
    · rw [if_pos hq]
      refine ⟨_, h.take (p := .quit) hpc failLimit rfl rfl (List.isEmpty_iff.mp hq).symm rfl rfl ?_⟩
      rw [own_goto]; exact hown
    · rw [if_neg hq]
      refine ⟨_, h.take (p := .fail (σ.batch.take failLimit).2) hpc failLimit rfl rfl rfl rfl rfl ?_⟩
      rw [own_goto]; exact hown
  | quit =>
    rw [System.own, hpc] at hown
    simp only
    obtain ⟨r, hr⟩ := h.answered_of_leads hled hpc rfl rfl rfl
    have hq := hled.quit i hpc
    rw [resignIfEmpty_empty hq]
    refine ⟨place, h.goto (p := .returned .failed) hpc rfl (by simp) rfl rfl hq.symm ?_⟩
    rw [own_goto]
    exact hown.resolve_left (by simp [hr])
  | returned r => exact ⟨place, h⟩

/-- The run lemma. -/
theorem System.Matches.run (reqs : ι → DeliverRequest) (a limit : Nat) :
    ∀ (acts : List (ι × Bool)) {σ : System ι} {place : ι → Place ι}, σ.Matches place → σ.Led →
    σ.smooth reqs a limit acts →
    (σ.run reqs a limit acts).Led ∧ ∃ place', (σ.run reqs a limit acts).Matches place'
  | [], _, place, h, hled, _ => ⟨hled, place, h⟩
  | act :: acts, _, _, h, hled, hs => by
    obtain ⟨place', h'⟩ := h.step hled act.2 hs.1 reqs a limit
    exact System.Matches.run reqs a limit acts h' (hled.step hs.1.1 reqs a limit act.2) hs.2

end

theorem System.Matches.initial (kv : KV) : ({ kv } : System ι).Matches fun _ => .fresh := by
  constructor <;> simp [PC.staged, PC.stored, Place.results, Place.uid, System.own]

/-- No request is committed twice or sent two results; a call that returned was sent one, and so was
    every submitted request once nobody leads; and a call returns a UID if and only if its request was
    committed with it. -/
structure System.Truthful (σ : System ι) : Prop where
  committed : (σ.committed.map (·.1)).Nodup
  sent : ∀ i, (σ.sent i).length ≤ 1
  answered : ∀ i, (∃ r, σ.pc i = .returned r) ∨ (σ.pc i ≠ .submit ∧ ∀ ℓ, (σ.pc ℓ).leads = false) →
    (σ.sent i).length = 1
  returned : ∀ i r, σ.pc i = .returned r →
    ∀ u, r = .uid u ↔ ∃ d, (i, d) ∈ σ.committed ∧ u32 d.uid = u

theorem Place.results_length (p : Place ι) : p.results.length ≤ 1 := by
  cases p <;> simp [Place.results]

theorem System.Matches.truthful {σ : System ι} {place : ι → Place ι} (h : σ.Matches place)
    (hled : σ.Led) : σ.Truthful := by
  have hret : ∀ i r, σ.pc i = .returned r → place i = .answered r := by
    intro i r hr
    have hown := h.own i
    rwa [System.own, hr] at hown
  refine ⟨h.committed_nodup, fun i => h.sent i ▸ (place i).results_length, fun i hi => ?_, ?_⟩
  · rw [h.sent]
    rcases hi with ⟨r, hr⟩ | ⟨hsub, hnone⟩
    · rw [hret i r hr]; rfl
    · -- nobody leads: nothing is queued and nobody holds anything
      have hq : σ.batch.queue = [] := by
        by_contra hne
        obtain ⟨ℓ, hℓ⟩ := hled.active.mp (hled.queue hne)
        rw [hnone] at hℓ
        cases hℓ
      have hempty : ∀ ℓ, (σ.pc ℓ).staged ℓ = [] ∧ (σ.pc ℓ).stored = [] := by
        intro ℓ
        have := hnone ℓ
        cases hpc : σ.pc ℓ <;> simp_all [PC.leads, PC.staged, PC.stored]
      cases hp : place i with
      | fresh => exact absurd ((h.fresh i).mp hp) hsub
      | queued =>
        have := (h.queue i).mpr hp
        exact absurd this (by simp [hq])
      | staged ℓ =>
        have := (h.staged ℓ i).mpr hp
        exact absurd this (by simp [(hempty ℓ).1])
      | stored ℓ u =>
        have := (h.stored ℓ i u).mpr hp
        exact absurd this (by simp [(hempty ℓ).2])
      | answered r => rfl
  · intro i r hr u
    rw [h.committed, hret i r hr]
    cases r <;> simp [Place.uid]

/-- TRUTHFUL: in every smooth interleaving of any number of calls, every request is committed at most
    once and answered once, and its caller is told the UID of its commit if and only if there was
    one. -/
theorem batch_truthful [DecidableEq ι] (reqs : ι → DeliverRequest) (a limit : Nat) (kv : KV)
    (acts : List (ι × Bool)) (h : ({ kv } : System ι).smooth reqs a limit acts) :
    (({ kv } : System ι).run reqs a limit acts).Truthful := by
  obtain ⟨hled, place, hm⟩ := System.Matches.run reqs a limit acts (System.Matches.initial kv)
    (System.Led.initial kv) h
  exact hm.truthful hled

/-- Two calls whose requests are committed one after the other by the same leader. -/
theorem batch_truthful_two :
    let acts : List (Fin 2 × Bool) := [(0, false), (0, false), (1, false)] ++
      List.replicate 8 (0, false) ++ [(1, false)]
    (({} : System (Fin 2)).smooth (fun _ => sample) 1 256 acts) ∧
      (({} : System (Fin 2)).run (fun _ => sample) 1 256 acts).Truthful :=
  ⟨by decide +kernel, batch_truthful (fun _ => sample) 1 256 {} _ (by decide +kernel)⟩

/-- The leader's own request is committed, a second one is queued meanwhile, and the commit of that
    one fails: the leader returns the error for its own. -/
theorem batch_leader_told_error :
    let acts : List (Fin 2 × Bool) := [(0, false), (0, false), (1, false)] ++
      List.replicate 5 (0, false) ++ [(0, true)] ++ List.replicate 4 (0, false)
    ¬(({} : System (Fin 2)).run (fun _ => sample) 1 256 acts).Truthful := by
  intro acts h
  have hret : (({} : System (Fin 2)).run (fun _ => sample) 1 256 acts).pc 0 = .returned .failed := by
    decide +kernel
  have hmem : (0, ⟨1, 1, 1⟩) ∈ (({} : System (Fin 2)).run (fun _ => sample) 1 256 acts).committed := by
    decide +kernel
  exact absurd ((h.returned 0 .failed hret 1).mpr ⟨⟨1, 1, 1⟩, hmem, by decide⟩) (by simp)

end Mailezine.Mailstore.Batch
