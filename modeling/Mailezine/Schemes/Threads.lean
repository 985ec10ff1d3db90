import Mathlib.Data.List.Perm.Basic

/-! Threads over a shared state.

    A thread has a state of its own; a move of one thread changes that and the shared state. An
    invariant of such a system is a fact about the shared state, a fact about every thread that the
    other threads leave alone, and a relation that keeps the threads apart. -/

namespace Mailezine.Schemes
open List

variable {σ τ α : Type}

/-! ### Runs -/

/-- A run of actions. -/
def runs (step : σ → α → σ) (s : σ) (acts : List α) : σ := acts.foldl step s

/-- Every action of a run is one that `ok` allows in its state. -/
def steady (step : σ → α → σ) (ok : σ → α → Bool) : σ → List α → Bool
  | _, [] => true
  | s, a :: acts => ok s a && steady step ok (step s a) acts

variable {step : σ → α → σ}

/-- What every action preserves holds after every run. -/
theorem runs_always {I : σ → Prop} (hstep : ∀ s a, I s → I (step s a)) :
    ∀ (acts : List α) (s : σ), I s → I (runs step s acts)
  | [], _, hs => hs
  | a :: acts, s, hs => runs_always hstep acts (step s a) (hstep s a hs)

/-- What allowed actions preserve holds after every steady run. -/
theorem runs_invariant {ok : σ → α → Bool} {I : σ → Prop} (hstep : ∀ s a, I s → ok s a = true → I (step s a)) :
    ∀ (acts : List α) (s : σ), I s → steady step ok s acts = true → I (runs step s acts)
  | [], _, hs, _ => hs
  | a :: acts, s, hs, hok => by
    obtain ⟨ha, hrest⟩ := Bool.and_eq_true_iff.mp hok
    exact runs_invariant hstep acts (step s a) (hstep s a hs ha) hrest

theorem steady_append {ok : σ → α → Bool} {acts acts' : List α} : ∀ {s : σ},
    steady step ok s (acts ++ acts') = (steady step ok s acts && steady step ok (runs step s acts) acts') := by
  induction acts with
  | nil => intro s; rfl
  | cons a acts ih =>
    intro s
    rw [cons_append, steady, ih, steady, Bool.and_assoc]
    rfl

/-- Replace one entry of a list: what it gave goes, what the new one gives comes. -/
theorem perm_flatMap_set {β : Type} (f : α → List β) {x : α} (y : α) : ∀ {l : List α} {i : Nat}, l[i]? = some x →
    ((l.set i y).flatMap f ++ f x).Perm (l.flatMap f ++ f y)
  | a :: l, 0, h => by
    obtain rfl : a = x := Option.some.inj h
    simp only [set_cons_zero, flatMap_cons]
    refine perm_append_comm.trans ?_
    rw [append_assoc]
    exact perm_append_comm.append_left _
  | a :: l, i + 1, h => by
    simp only [set_cons_succ, flatMap_cons, append_assoc]
    exact (perm_flatMap_set f y (l := l) h).append_left _

/-! ### Systems of threads -/

/-- A shared state and the threads on it. -/
structure System (σ τ : Type) where
  shared : σ
  threads : List τ

/-- Let a thread move. -/
def System.move (w : System σ τ) (i : Nat) (f : σ → τ → σ × τ) : System σ τ :=
  match w.threads[i]? with
  | none => w
  | some t => ⟨(f w.shared t).1, w.threads.set i (f w.shared t).2⟩

/-- Start a thread. -/
def System.spawn (w : System σ τ) (t : τ) : System σ τ := { w with threads := w.threads ++ [t] }

/-- Change the shared state from outside. -/
def System.alter (w : System σ τ) (f : σ → σ) : System σ τ := { w with shared := f w.shared }

/-- `G` holds of the shared state, `T` of every thread, and `P` between any two. -/
structure System.Inv (G : σ → Prop) (T : σ → τ → Prop) (P : τ → τ → Prop) (w : System σ τ) : Prop where
  shared : G w.shared
  each : ∀ (i : Nat) (t : τ), w.threads[i]? = some t → T w.shared t
  apart : ∀ (i j : Nat) (t u : τ), i ≠ j → w.threads[i]? = some t → w.threads[j]? = some u → P t u

namespace System.Inv
variable {G : σ → Prop} {T : σ → τ → Prop} {P : τ → τ → Prop} {w : System σ τ}

theorem init {s : σ} (h : G s) : System.Inv G T P ⟨s, []⟩ :=
  ⟨h, by simp, by simp⟩

/-- A move keeps an invariant that is built on another one when the mover keeps its part, disturbs no
    thread that it is apart from, and stays apart from it. -/
theorem moveOn {K : σ → Prop} {L : σ → τ → Prop} {A : τ → τ → Prop} {f : σ → τ → σ × τ} {i : Nat}
    (hk : System.Inv K L A w) (h : System.Inv G T P w)
    (hmove : ∀ t, w.threads[i]? = some t → G w.shared → T w.shared t →
      G (f w.shared t).1 ∧ T (f w.shared t).1 (f w.shared t).2 ∧
        ∀ u, A t u → L w.shared u → P t u → P u t → T w.shared u →
          T (f w.shared t).1 u ∧ P (f w.shared t).2 u ∧ P u (f w.shared t).2) :
    System.Inv G T P (w.move i f) := by
  unfold System.move
  cases ht : w.threads[i]? with
  | none => exact h
  | some t =>
    obtain ⟨hG, hT, hothers⟩ := hmove t ht h.shared (h.each i t ht)
    have hi : i < w.threads.length := (List.getElem?_eq_some_iff.mp ht).1
    have hsame : (w.threads.set i (f w.shared t).2)[i]? = some (f w.shared t).2 := by simp [hi]
    have hother : ∀ j, i ≠ j → (w.threads.set i (f w.shared t).2)[j]? = w.threads[j]? :=
      fun j hj => getElem?_set_ne hj
    have hboth : ∀ j u, i ≠ j → w.threads[j]? = some u → T (f w.shared t).1 u ∧
        P (f w.shared t).2 u ∧ P u (f w.shared t).2 := fun j u hj hu =>
      hothers u (hk.apart i j t u hj ht hu) (hk.each j u hu) (h.apart i j t u hj ht hu)
        (h.apart j i u t hj.symm hu ht) (h.each j u hu)
    refine ⟨hG, fun j u hu => ?_, fun j k u v hjk hu hv => ?_⟩
    · by_cases hj : i = j
      · subst hj
        obtain rfl : (f w.shared t).2 = u := Option.mem_unique hsame hu
        exact hT
      · exact (hboth j u hj ((hother j hj).symm.trans hu)).1
    · by_cases hj : i = j
      · subst hj
        obtain rfl : (f w.shared t).2 = u := Option.mem_unique hsame hu
        exact (hboth k v hjk ((hother k hjk).symm.trans hv)).2.1
      · have hu := (hother j hj).symm.trans hu
        by_cases hk : i = k
        · subst hk
          obtain rfl : (f w.shared t).2 = v := Option.mem_unique hsame hv
          exact (hboth j u hj hu).2.2
        · exact h.apart j k u v hjk hu ((hother k hk).symm.trans hv)

/-- A move keeps an invariant that stands for itself. -/
theorem move {f : σ → τ → σ × τ} {i : Nat} (h : System.Inv G T P w)
    (hmove : ∀ t, w.threads[i]? = some t → G w.shared → T w.shared t →
      G (f w.shared t).1 ∧ T (f w.shared t).1 (f w.shared t).2 ∧ ∀ u, P t u → P u t → T w.shared u →
          T (f w.shared t).1 u ∧ P (f w.shared t).2 u ∧ P u (f w.shared t).2) : System.Inv G T P (w.move i f) :=
  h.moveOn h fun t ht hG hT =>
    have ⟨hG', hT', hothers⟩ := hmove t ht hG hT
    ⟨hG', hT', fun u _ _ => hothers u⟩

/-- A new thread keeps the invariant when it fits to the state and is apart from the others. -/
theorem spawn {t : τ} (h : System.Inv G T P w) (ht : T w.shared t)
    (hP : ∀ u ∈ w.threads, P t u ∧ P u t) : System.Inv G T P (w.spawn t) := by
  have hcases : ∀ (i : Nat) (u : τ), (w.threads ++ [t])[i]? = some u →
      w.threads[i]? = some u ∨ i = w.threads.length ∧ u = t := by
    intro i u hu
    rcases Nat.lt_trichotomy i w.threads.length with hi | hi | hi
    · exact .inl (by rwa [getElem?_append_left hi] at hu)
    · subst hi
      exact .inr ⟨rfl, by simpa using hu.symm⟩
    · rw [getElem?_append_right (Nat.le_of_lt hi), getElem?_eq_none (by simp; omega)] at hu
      cases hu
  refine ⟨h.shared, fun i u hu => ?_, fun i j u v hij hu hv => ?_⟩
  · rcases hcases i u hu with hu | ⟨-, rfl⟩
    · exact h.each i u hu
    · exact ht
  · rcases hcases i u hu with hu' | ⟨hi, rfl⟩ <;> rcases hcases j v hv with hv' | ⟨hj, rfl⟩
    · exact h.apart i j u v hij hu' hv'
    · exact (hP u (mem_of_getElem? hu')).2
    · exact (hP v (mem_of_getElem? hv')).1
    · exact absurd (hi.trans hj.symm) hij

theorem alter {f : σ → σ} (h : System.Inv G T P w) (hG : G w.shared → G (f w.shared))
    (hT : ∀ t, T w.shared t → T (f w.shared) t) : System.Inv G T P (w.alter f) :=
  ⟨hG h.shared, fun i t ht => hT t (h.each i t ht), h.apart⟩

end System.Inv

/-! ### Moves that do a whole job -/

/-- If every allowed move leaves the shared state and the job of its thread, or does the whole job of its
    thread at once, then the shared state is that of the jobs done, one after another as they ended. -/
theorem System.serial {κ : Type} {f : σ → τ → σ × τ} {exec : σ → κ → σ} {jobs : τ → List κ}
    {ok : System σ τ → Nat → Bool} (hmove : ∀ w i t, ok w i = true → w.threads[i]? = some t →
      ((f w.shared t).1 = w.shared ∧ jobs (f w.shared t).2 = jobs t) ∨
        ∃ c, jobs t = [c] ∧ jobs (f w.shared t).2 = [] ∧ (f w.shared t).1 = exec w.shared c)
    (w₀ : System σ τ) (acts : List Nat) (h : steady (fun w i => System.move w i f) ok w₀ acts = true) :
    let w := runs (fun w i => System.move w i f) w₀ acts
    ∃ done, w.shared = done.foldl exec w₀.shared ∧
      (done ++ w.threads.flatMap jobs).Perm (w₀.threads.flatMap jobs) := by
  refine runs_invariant (I := fun w => ∃ done, w.shared = done.foldl exec w₀.shared ∧
    (done ++ w.threads.flatMap jobs).Perm (w₀.threads.flatMap jobs)) ?_ acts w₀ ⟨[], rfl, .refl _⟩ h
  rintro w i ⟨done, hshared, hperm⟩ hok
  unfold System.move
  cases ht : w.threads[i]? with
  | none => exact ⟨done, hshared, hperm⟩
  | some t =>
    have hset := perm_flatMap_set jobs (f w.shared t).2 ht
    rcases hmove w i t hok ht with ⟨hsame, hjobs⟩ | ⟨c, hjob, hnone, hexec⟩
    · rw [hjobs] at hset
      exact ⟨done, hsame.trans hshared, (((perm_append_right_iff _).mp hset).append_left done).trans hperm⟩
    · rw [hjob, hnone, append_nil] at hset
      refine ⟨done ++ [c], by rw [foldl_concat, ← hshared]; exact hexec, ?_⟩
      rw [append_assoc]
      exact ((perm_append_comm.trans hset).append_left done).trans hperm

end Mailezine.Schemes
