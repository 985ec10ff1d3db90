import Mailezine.Mailstore.Upkeep

/-! Documents that no index reaches.

    Field and modseq writes are upserts that are keyed by IDs resolved in earlier steps. A write that
    lands after the delete of its document brings part of it back, and a check that a mailbox is not
    there is no promise for the commits that follow. Here any number of calls run at once, one step at
    a time. SWEPT: whenever no call is under way, nothing is left over, in every run in which mailboxes
    are created and deleted by calls that run alone and no messages are taken out of a mailbox while
    their flags are being written. -/

namespace Mailezine.Mailstore.Calls
open Gostd Schemes Store List

/-! ### Calls at work -/

/-- A call of the mailstore. -/
inductive Call where
  | mail (op : MailOp)
  | createMailbox (account mailbox : Str)
  | deleteMailbox (account mailbox : Str)

/-- The program of a call. -/
def Call.prog (cfg : Config) : Call → Op Unit
  | .mail op => op.prog cfg
  | .createMailbox account mailbox => effect (Mailstore.createMailbox account mailbox)
  | .deleteMailbox account mailbox => Mailstore.deleteMailbox account mailbox

/-- A call and what is left of it. -/
structure Thread where
  call : Call
  prog : Op Unit

/-- The call is under way. -/
def Thread.busy (t : Thread) : Bool :=
  match t.prog with
  | .done _ => false
  | .act _ _ => true

/-- The node and the calls that were made so far. -/
structure System where
  node : Node := {}
  threads : List Thread := []

/-- What happens next: time passes, a call is made, a call takes a step. -/
inductive Action where
  | tick (now : Nat)
  | start (call : Call)
  | advance (i : Nat)

/-- Let call `i` take a step. -/
def System.advance (σ : System) (i : Nat) : System :=
  match σ.threads[i]? with
  | some t => ⟨(t.prog.step σ.node).1, σ.threads.set i { t with prog := (t.prog.step σ.node).2 }⟩
  | none => σ

/-- One action. -/
def System.step (cfg : Config) (σ : System) : Action → System
  | .tick now => { σ with node := σ.node.setClock now }
  | .start call => { σ with threads := σ.threads ++ [⟨call, call.prog cfg⟩] }
  | .advance i => σ.advance i

/-- A run. -/
def System.run (cfg : Config) (σ : System) (acts : List Action) : System := acts.foldl (·.step cfg) σ

/-- No call is under way. -/
def System.resting (σ : System) : Bool := σ.threads.all fun t => !t.busy

/-- Nothing is left over: every mailbox document has a name, which no other has, and its sentinel, and
    every Email document has its sentinel and a row in the index of a mailbox that is there. -/
structure Swept (x : Account) : Prop where
  mailbox : ∀ (id : Nat) (md : MailboxDoc), x.mailboxes[id]? = some md →
    md.name.isSome ∧ md.sentinel = true
  unique : ∀ (id id' : Nat) (md md' : MailboxDoc), x.mailboxes[id]? = some md →
    x.mailboxes[id']? = some md' → md.name = md'.name → id = id'
  email : ∀ (id : Nat) (d : EmailDoc), x.emails[id]? = some d → d.sentinel = true ∧
    ∃ (mb uid : Nat) (md : MailboxDoc), x.mailboxes[mb]? = some md ∧ x.row mb uid = some id

/-! ### The condition -/

/-- One call writes flags in the mailbox that the other takes messages out of. -/
def clash (o o' : MailOp) : Bool :=
  (o.flagged.isSome && o.flagged = o'.drained) || (o'.flagged.isSome && o'.flagged = o.drained)

/-- The two calls may be under way at once. -/
def Call.fits : Call → Call → Bool
  | .mail o, .mail o' => !clash o o'
  | _, _ => false

/-- A call is made only while every call under way fits it. -/
def System.allows (σ : System) : Action → Bool
  | .start call => σ.threads.all fun t => !t.busy || t.call.fits call
  | _ => true

/-- Every action of the run is allowed. -/
def System.steady (cfg : Config) : System → List Action → Bool
  | _, [] => true
  | σ, act :: acts => σ.allows act && (σ.step cfg act).steady cfg acts

/-! ### The threads -/

section
variable {cfg : Config} {n n' : Node} {σ : System} {t u : Thread} {o o' : MailOp}

theorem spares_of_fits (h : clash o o' = false) (hup : Upkeep (fun name => ¬o.drained = some name) n n') :
    Spares (o'.flagged = some ·) n n' := by
  refine hup.toSpares.mono fun name hf hd => ?_
  simp [clash, hf, hd] at h

theorem clash_comm (o o' : MailOp) : clash o o' = clash o' o := by
  unfold clash
  exact Bool.or_comm _ _

/-- A call on messages that is on its way, among calls that spare what it writes flags to. -/
def Sound (o : MailOp) (p : Op Unit) (n : Node) : Prop :=
  ∃ g : Bumped, Prog.Safe (Spares (o.flagged = some ·))
    (fun _ n n' _ => Upkeep (fun name => ¬o.drained = some name) n n') (fun _ _ _ => True) g p n

theorem Sound.rely {p : Op Unit} (h : Sound o p n) (hs : Spares (o.flagged = some ·) n n') : Sound o p n' := by
  obtain ⟨g, hsafe⟩ := h
  exact ⟨g, hsafe.rely (fun u hu => hs.trans hu) fun _ _ _ => trivial⟩

/-- A call that runs alone. -/
abbrev Solo (p : Op Unit) (n : Node) : Prop :=
  Prog.Safe Idle (fun (_ : Unit) n t _ => Issues n t) (fun _ _ t => t.Tidy) () p n

theorem done_of_idle (h : t.busy = false) : ∃ r, t.prog = .done r := by
  unfold Thread.busy at h
  cases hp : t.prog with
  | done r => exact ⟨r, rfl⟩
  | act f k => simp [hp] at h

/-- The calls under way are all on messages, and fit each other two by two. -/
structure Shared (σ : System) : Prop where
  tidy : σ.node.Tidy
  sound : ∀ t ∈ σ.threads, t.busy = true → ∃ o, t.call = .mail o ∧ Sound o t.prog σ.node
  fits : ∀ (i j : Nat) (t u : Thread), i ≠ j → σ.threads[i]? = some t → σ.threads[j]? = some u →
    t.busy = true → u.busy = true → t.call.fits u.call = true

/-- One call runs alone; it is not on messages. -/
def Alone (σ : System) : Prop :=
  ∃ (i : Nat) (t : Thread), σ.threads[i]? = some t ∧ (∀ call, t.call.fits call = false) ∧
    Solo t.prog σ.node ∧ ∀ (j : Nat) (u : Thread), j ≠ i → σ.threads[j]? = some u → u.busy = false

/-- The invariant of a steady run. -/
def Inv (σ : System) : Prop := Shared σ ∨ Alone σ

theorem Shared.of_resting (htidy : σ.node.Tidy) (h : ∀ t ∈ σ.threads, t.busy = false) : Shared σ := by
  refine ⟨htidy, fun t ht hb => ?_, fun i j t u _ hi _ hb _ => ?_⟩
  · rw [h t ht] at hb
    cases hb
  · rw [h t (mem_of_getElem? hi)] at hb
    cases hb

/-- A node at rest is tidy, whoever ran last. -/
theorem Inv.tidy (h : Inv σ) (hrest : ∀ t ∈ σ.threads, t.busy = false) : σ.node.Tidy := by
  rcases h with h | ⟨i, t, hi, -, hsolo, -⟩
  · exact h.tidy
  · obtain ⟨r, hr⟩ := done_of_idle (hrest t (mem_of_getElem? hi))
    rw [hr] at hsolo
    exact hsolo

/-! ### The actions -/

theorem getElem?_concat {l : List Thread} {i : Nat} (h : (l ++ [u])[i]? = some t) :
    l[i]? = some t ∨ (i = l.length ∧ t = u) := by
  grind

theorem Inv.tick (h : Inv σ) (now : Nat) : Inv (σ.step cfg (.tick now)) := by
  rcases h with h | ⟨i, t, hi, hx, hsolo, hrest⟩
  · have hev := Evolves.setClock h.tidy.toWf now
    refine Or.inl ⟨h.tidy.of_accounts hev fun _ => rfl, fun t ht hb => ?_, h.fits⟩
    obtain ⟨o, ho, hs⟩ := h.sound t ht hb
    exact ⟨o, ho, hs.rely (.of_accounts hev fun _ => rfl)⟩
  · refine Or.inr ⟨i, t, hi, hx, hsolo.rely ?_ ?_, hrest⟩
    · exact fun u hu => Idle.trans ⟨now, rfl⟩ hu
    · intro _ _ htidy
      exact htidy.of_accounts (Evolves.setClock htidy.toWf now) fun _ => rfl

theorem Shared.start (h : Shared σ) {o : MailOp}
    (hfit : ∀ t ∈ σ.threads, t.busy = true → t.call.fits (.mail o) = true) :
    Shared (σ.step cfg (.start (.mail o))) := by
  refine ⟨h.tidy, fun t ht hb => ?_, fun i j t u hij hi hj hbt hbu => ?_⟩
  · rcases mem_append.mp ht with ht | ht
    · exact h.sound t ht hb
    · obtain rfl := mem_singleton.mp ht
      exact ⟨o, rfl, fun _ => none, upkeep_mailOp cfg o _ h.tidy.toWf⟩
  · rcases getElem?_concat hi with hi | ⟨hi, rfl⟩
    · rcases getElem?_concat hj with hj | ⟨hj, rfl⟩
      · exact h.fits i j t u hij hi hj hbt hbu
      · exact hfit t (mem_of_getElem? hi) hbt
    · rcases getElem?_concat hj with hj | ⟨hj, rfl⟩
      · obtain ⟨o', ho', -⟩ := h.sound u (mem_of_getElem? hj) hbu
        have hfu := hfit u (mem_of_getElem? hj) hbu
        rw [ho'] at hfu ⊢
        simpa [Call.fits, clash_comm o o'] using hfu
      · omega

theorem alone_start {call : Call} (hcall : ∀ c, call.fits c = false)
    (hrest : ∀ t ∈ σ.threads, t.busy = false) (hsolo : Solo (call.prog cfg) σ.node) :
    Alone (σ.step cfg (.start call)) := by
  refine ⟨σ.threads.length, ⟨call, call.prog cfg⟩, by simp [System.step], hcall, hsolo,
    fun j u hj hu => ?_⟩
  rcases getElem?_concat hu with hu | ⟨hu, -⟩
  · exact hrest u (mem_of_getElem? hu)
  · exact absurd hu hj

theorem Inv.start (h : Inv σ) {call : Call} (ha : σ.allows (.start call) = true) :
    Inv (σ.step cfg (.start call)) := by
  have hfit : ∀ t ∈ σ.threads, t.busy = true → t.call.fits call = true := by
    intro t ht hb
    simpa [hb] using List.all_eq_true.mp ha t ht
  -- nothing but a call on messages fits a call under way
  have hrest : (∀ c : Call, c.fits call = false) → ∀ t ∈ σ.threads, t.busy = false := by
    intro hno t ht
    by_contra hb
    have := hfit t ht (by simpa using hb)
    rw [hno] at this
    cases this
  cases call with
  | mail o =>
    rcases h with h | ⟨i, t, hi, hx, hsolo, hothers⟩
    · exact Or.inl (h.start hfit)
    · have hidle : ∀ u ∈ σ.threads, u.busy = false := by
        intro u hu
        obtain ⟨j, hj⟩ := mem_iff_getElem?.mp hu
        rcases eq_or_ne j i with rfl | hne
        · rw [hi] at hj
          obtain rfl := Option.some.inj hj
          by_contra hb
          have := hfit t hu (by simpa using hb)
          rw [hx] at this
          cases this
        · exact hothers j u hne hj
      have htidy : σ.node.Tidy := Inv.tidy (Or.inr ⟨i, t, hi, hx, hsolo, hothers⟩) hidle
      exact Or.inl ((Shared.of_resting htidy hidle).start hfit)
  | createMailbox account mailbox =>
    have hidle := hrest fun c => by cases c <;> rfl
    have hsolo : Solo (effect (createMailbox account mailbox)) σ.node :=
      Prog.Safe.attempt (idle_createMailbox (h.tidy hidle) account mailbox)
    exact Or.inr (alone_start (fun _ => rfl) hidle hsolo)
  | deleteMailbox account mailbox =>
    have hidle := hrest fun c => by cases c <;> rfl
    exact Or.inr (alone_start (fun _ => rfl) hidle (idle_deleteMailbox (h.tidy hidle) account mailbox))

theorem advance_done {i : Nat} (hi : σ.threads[i]? = some t) (hdone : t.busy = false) : σ.advance i = σ := by
  obtain ⟨r, hr⟩ := done_of_idle hdone
  have hset : σ.threads.set i t = σ.threads := by
    refine ext_getElem? fun j => ?_
    grind
  obtain ⟨call, p⟩ := t
  subst hr
  simp [System.advance, hi, Prog.step, hset]

theorem getElem?_set_cases {l : List Thread} {i j : Nat} (h : (l.set i u)[j]? = some t) :
    (j = i ∧ t = u) ∨ (j ≠ i ∧ l[j]? = some t) := by
  grind

theorem act_of_busy (h : t.busy = true) : ∃ f k, t.prog = .act f k := by
  unfold Thread.busy at h
  cases hp : t.prog with
  | done r => simp [hp] at h
  | act f k => exact ⟨f, k, rfl⟩

theorem Shared.advance (h : Shared σ) {i : Nat} (hi : σ.threads[i]? = some t) (hbusy : t.busy = true) :
    Shared (σ.advance i) := by
  obtain ⟨f, k, hp⟩ := act_of_busy hbusy
  obtain ⟨o, ho, g, hsafe⟩ := h.sound t (mem_of_getElem? hi) hbusy
  rw [hp] at hsafe
  obtain ⟨g', hup, hnext⟩ := hsafe σ.node (Spares.refl h.tidy.toWf)
  have hσ : σ.advance i = ⟨f σ.node, σ.threads.set i { t with prog := k σ.node }⟩ := by
    simp [System.advance, hi, hp, Prog.step]
  rw [hσ]
  refine ⟨hup.tidy h.tidy, fun u hu hbu => ?_, fun j l u v hjl hj hl hbu hbv => ?_⟩
  · obtain ⟨j, hj⟩ := mem_iff_getElem?.mp hu
    rcases getElem?_set_cases hj with ⟨-, rfl⟩ | ⟨hne, hj⟩
    · exact ⟨o, ho, g', hnext⟩
    · obtain ⟨o', ho', hsound⟩ := h.sound u (mem_of_getElem? hj) hbu
      have hfit := h.fits i j t u hne.symm hi hj hbusy hbu
      rw [ho, ho'] at hfit
      exact ⟨o', ho', hsound.rely (spares_of_fits (by simpa [Call.fits] using hfit) hup)⟩
  · rcases getElem?_set_cases hj with ⟨rfl, rfl⟩ | ⟨-, hj'⟩
    · rcases getElem?_set_cases hl with ⟨rfl, -⟩ | ⟨-, hl'⟩
      · exact absurd rfl hjl
      · exact h.fits j l t v hjl hi hl' hbusy hbv
    · rcases getElem?_set_cases hl with ⟨rfl, rfl⟩ | ⟨-, hl'⟩
      · exact h.fits j l u t hjl hj' hi hbu hbusy
      · exact h.fits j l u v hjl hj' hl' hbu hbv

theorem Alone.advance (h : Alone σ) {i : Nat} (hi : σ.threads[i]? = some t) (hbusy : t.busy = true) :
    Alone (σ.advance i) := by
  obtain ⟨j, u, hj, hx, hsolo, hothers⟩ := h
  obtain rfl : i = j := by
    by_contra hne
    rw [hothers i t hne hi] at hbusy
    cases hbusy
  rw [hi] at hj
  obtain rfl := Option.some.inj hj
  obtain ⟨f, k, hp⟩ := act_of_busy hbusy
  rw [hp] at hsolo
  obtain ⟨_, -, hnext⟩ := hsolo σ.node (Idle.refl _)
  refine ⟨i, { t with prog := k σ.node }, ?_, hx, ?_, fun l v hl hv => ?_⟩
  · simp only [System.advance, hi, hp, Prog.step]
    grind
  · simpa [System.advance, hi, hp, Prog.step] using hnext
  · simp only [System.advance, hi] at hv
    rcases getElem?_set_cases hv with ⟨rfl, -⟩ | ⟨-, hv⟩
    · exact absurd rfl hl
    · exact hothers l v hl hv

theorem Inv.advance (h : Inv σ) (i : Nat) : Inv (σ.advance i) := by
  cases hi : σ.threads[i]? with
  | none => simpa [System.advance, hi] using h
  | some t =>
    cases hbusy : t.busy with
    | false =>
      rw [advance_done hi hbusy]
      exact h
    | true => exact h.imp (fun h => h.advance hi hbusy) fun h => h.advance hi hbusy

theorem Inv.step {act : Action} (h : Inv σ) (ha : σ.allows act = true) : Inv (σ.step cfg act) := by
  cases act with
  | tick now => exact h.tick now
  | start call => exact h.start ha
  | advance i => exact h.advance i

theorem Inv.run {acts : List Action} (h : Inv σ) (hs : σ.steady cfg acts = true) : Inv (σ.run cfg acts) := by
  induction acts generalizing σ with
  | nil => exact h
  | cons act acts ih =>
    obtain ⟨ha, hs⟩ := Bool.and_eq_true_iff.mp hs
    exact ih (h.step ha) hs

theorem inv_init : Inv {} :=
  Or.inl (.of_resting tidy_node_empty fun t ht => absurd ht (by simp))

end

/-! ### Nothing is left over -/

theorem swept_of_tidy {x : Account} (h : x.Tidy) : Swept x where
  mailbox id md hm := by
    obtain ⟨-, name, hname, -⟩ := h.mailbox_name id md hm
    exact ⟨by simp [hname], h.sentinel id md hm⟩
  unique _ _ _ _ := h.toWf.name_inj
  email id d hd := by
    obtain ⟨mb, uid, hr⟩ := h.reached id d hd
    obtain ⟨e, he, hs, -⟩ := h.row_doc mb uid id hr
    obtain ⟨md, -, hmd, -⟩ := h.home mb uid id hr
    rw [he] at hd
    obtain rfl := Option.some.inj hd
    exact ⟨hs, mb, uid, md, hmd, hr⟩

/-- SWEPT: a steady run that comes to rest leaves nothing over, in any account. -/
theorem swept (cfg : Config) (acts : List Action) (hs : System.steady cfg {} acts = true)
    (hrest : (System.run cfg {} acts).resting = true) (a : Nat) :
    Swept ((System.run cfg {} acts).node.kv.account a) := by
  have hinv : Inv (System.run cfg {} acts) := inv_init.run hs
  refine swept_of_tidy ((hinv.tidy fun t ht => ?_).tidy a)
  simpa using List.all_eq_true.mp hrest t ht

/-- Call `i` takes `k` steps. -/
def turns (i k : Nat) : List Action := List.replicate k (.advance i)

/-- Two deliveries at once, then a flag write while a message is moved into the mailbox, then an
    `Expunge`. -/
def fittingRun : List Action :=
  List.flatten [[.start (.createMailbox [1] [2])], turns 0 9, [.start (.mail (.deliver [1] [2] {})),
      .start (.mail (.deliver [1] [3] {}))], turns 1 12, turns 2 12,
    [.start (.mail (.setFlags [1] [2] 1 [flagDeleted])), .start (.mail (.move [1] [3] [2] [1]))],
    turns 4 20, turns 3 8, [.start (.mail (.expunge [1] [2] []))], turns 5 9]

theorem swept_fittingRun : Swept ((System.run Config.plain {} fittingRun).node.kv.account 1) :=
  swept Config.plain fittingRun (by decide +kernel) (by decide +kernel) 1

/-- The writer of a flag has found its message; before it writes, the message is expunged. -/
def lateFlag : List Action :=
  List.flatten [[.start (.mail (.deliver [1] [2] {}))], turns 0 11,
    [.start (.mail (.setFlags [1] [2] 1 [flagDeleted]))], turns 1 7,
    [.start (.mail (.setFlags [1] [2] 1 []))], turns 2 6,
    [.start (.mail (.expunge [1] [2] []))], turns 3 8, turns 2 1]

/-- The late write is an upsert: it leaves an Email document with flags and a modseq, but with no
    sentinel and no row. -/
theorem lateFlag_leaves_a_document : (System.run Config.plain {} lateFlag).resting = true ∧
    ¬Swept ((System.run Config.plain {} lateFlag).node.kv.account 1) := by
  refine ⟨by decide +kernel, fun h => ?_⟩
  have hdoc : ((System.run Config.plain {} lateFlag).node.kv.account 1).emails[1]? =
      some { flags := some [], keywords := some [], modSeq := some 3 } := by decide +kernel
  exact absurd (h.email 1 _ hdoc).1 (by decide)

end Mailezine.Mailstore.Calls
