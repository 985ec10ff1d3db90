import Mathlib.Data.List.Basic
import Mathlib.Logic.Relation

/-! Programs made of atomic steps over a shared state.

    A server operation that issues several transactions is not one function of the store: other
    operations commit between two of its transactions. `Prog` keeps the operation as the tree of its
    atomic steps, so that one definition has both readings: `exec` runs it alone to its end (the
    sequential reading) and `step` advances it by one atomic step (the interleaved reading).

    `Safe` is the rely/guarantee rule for both: from a state `s`, whatever the environment does within
    the rely `R`, every step of the program meets the guarantee `G`, and its result meets `Q`. `G` also
    moves a ghost value along, which records what the program itself has done so far. -/

namespace Mailezine.Schemes

/-- A program over the shared state `σ`: finished, or one atomic step `f` and the rest, which is
    chosen by the state the step saw. -/
inductive Prog (σ ε α : Type) where
  | done (r : Except ε α)
  | act (f : σ → σ) (k : σ → Prog σ ε α)

namespace Prog

variable {σ τ ε α β : Type}

/-- Go on with `k` on the result of `p`, be it a value or an error. -/
def attempt : Prog σ ε α → (Except ε α → Prog σ ε β) → Prog σ ε β
  | .done r, k => k r
  | .act f c, k => .act f fun s => (c s).attempt k

/-- Sequencing: an error of `p` is the error of the whole. -/
def bind (p : Prog σ ε α) (k : α → Prog σ ε β) : Prog σ ε β :=
  p.attempt fun
    | .ok a => k a
    | .error e => .done (.error e)

instance : Monad (Prog σ ε) where
  pure a := .done (.ok a)
  bind := bind

/-- Stop with an error. -/
def fail (e : ε) : Prog σ ε α := .done (.error e)

/-- One transaction: read and write the state at once. -/
def atomic (g : σ → σ × Except ε α) : Prog σ ε α := .act (fun s => (g s).1) fun s => .done (g s).2

/-- One read. -/
def read (g : σ → Except ε α) : Prog σ ε α := .act id fun s => .done (g s)

/-- One write that cannot fail. -/
def write (f : σ → σ) : Prog σ ε Unit := .act f fun _ => .done (.ok ())

/-- Run `p` for every element of a list, in order. -/
def forEach (p : α → Prog σ ε Unit) : List α → Prog σ ε Unit
  | [] => .done (.ok ())
  | a :: as => (p a).bind fun _ => forEach p as

/-- A program over one component of a larger state. -/
def zoom (get : σ → τ) (set : τ → σ → σ) : Prog τ ε α → Prog σ ε α
  | .done r => .done r
  | .act f k => .act (fun s => set (f (get s)) s) fun s => zoom get set (k (get s))

/-! ### The sequential reading -/

/-- Run the program to its end with nothing in between. -/
def exec : Prog σ ε α → σ → σ × Except ε α
  | .done r, s => (s, r)
  | .act f k, s => (k s).exec (f s)

@[simp] theorem exec_done (r : Except ε α) (s : σ) : (done r).exec s = (s, r) := rfl

@[simp] theorem exec_pure (a : α) (s : σ) : (pure a : Prog σ ε α).exec s = (s, .ok a) := rfl

@[simp] theorem exec_read (g : σ → Except ε α) (s : σ) : (read g).exec s = (s, g s) := rfl

@[simp] theorem exec_write (f : σ → σ) (s : σ) : (write f : Prog σ ε Unit).exec s = (f s, .ok ()) := rfl

theorem exec_attempt (p : Prog σ ε α) (k : Except ε α → Prog σ ε β) (s : σ) :
    (p.attempt k).exec s = (k (p.exec s).2).exec (p.exec s).1 := by
  induction p generalizing s with
  | done r => rfl
  | act f c ih => simp only [attempt, exec]; exact ih s (f s)

theorem exec_bind_ok {p : Prog σ ε α} {k : α → Prog σ ε β} {s t : σ} {a : α}
    (h : p.exec s = (t, .ok a)) : (p >>= k).exec s = (k a).exec t := by
  show (p.attempt _).exec s = _
  rw [exec_attempt, h]

theorem exec_bind_error {p : Prog σ ε α} {k : α → Prog σ ε β} {s t : σ} {e : ε}
    (h : p.exec s = (t, .error e)) : (p >>= k).exec s = (t, .error e) := by
  show (p.attempt _).exec s = _
  rw [exec_attempt, h]; rfl

/-- Sequencing, whatever the first program does. -/
theorem exec_bind (p : Prog σ ε α) (k : α → Prog σ ε β) (s : σ) : (p >>= k).exec s = match p.exec s with
      | (t, .ok a) => (k a).exec t
      | (t, .error e) => (t, .error e) := by
  rcases h : p.exec s with ⟨t, _ | a⟩
  · exact exec_bind_error h
  · exact exec_bind_ok h

/-- Work on the result alone leaves the state as the program left it. -/
theorem exec_bind_pure (p : Prog σ ε α) (f : α → β) (s : σ) :
    (p >>= fun a => pure (f a)).exec s = ((p.exec s).1, (p.exec s).2.map f) := by
  rw [exec_bind]
  rcases p.exec s with ⟨t, _ | _⟩ <;> rfl

/-- A zoomed program changes its component as the program does, and nothing else. -/
theorem exec_zoom {get : σ → τ} {set : τ → σ → σ} (hgs : ∀ t s, get (set t s) = t)
    (hss : ∀ t t' s, set t (set t' s) = set t s) (hsg : ∀ s, set (get s) s = s) (p : Prog τ ε α) (s : σ) :
    (p.zoom get set).exec s = (set (p.exec (get s)).1 s, (p.exec (get s)).2) := by
  induction p generalizing s with
  | done r => simp [zoom, exec, hsg]
  | act f k ih =>
    simp only [zoom, exec]
    rw [ih, hgs, hss]

/-! ### Runs that are cut short -/

/-- The number of steps of the program when it runs alone. -/
def steps : Prog σ ε α → σ → Nat
  | .done _, _ => 0
  | .act f k, s => (k s).steps (f s) + 1

/-- The state after the first steps of a program that runs alone. -/
def cut : Nat → Prog σ ε α → σ → σ
  | 0, _, s => s
  | _ + 1, .done _, s => s
  | i + 1, .act f k, s => cut i (k s) (f s)

theorem steps_attempt (p : Prog σ ε α) (k : Except ε α → Prog σ ε β) (s : σ) :
    (p.attempt k).steps s = p.steps s + (k (p.exec s).2).steps (p.exec s).1 := by
  induction p generalizing s with
  | done r => exact (Nat.zero_add _).symm
  | act f c ih =>
    simp only [attempt, steps, exec]
    rw [ih s (f s)]
    omega

/-- A run cut within its first part, or behind it. -/
theorem cut_attempt (i : Nat) (p : Prog σ ε α) (k : Except ε α → Prog σ ε β) (s : σ) :
    (p.attempt k).cut i s = if i < p.steps s then p.cut i s
      else (k (p.exec s).2).cut (i - p.steps s) (p.exec s).1 := by
  induction p generalizing i s with
  | done r => rfl
  | act f c ih =>
    cases i with
    | zero => rfl
    | succ i =>
      simp only [attempt, cut, steps, exec]
      rw [ih s i (f s)]
      simp only [Nat.add_lt_add_iff_right, Nat.add_sub_add_right]

theorem bind_assoc {γ : Type} (p : Prog σ ε α) (k : α → Prog σ ε β) (l : β → Prog σ ε γ) :
    p >>= k >>= l = p >>= fun a => k a >>= l := by
  show (p.attempt _).attempt _ = p.attempt _
  induction p with
  | done r => cases r <;> rfl
  | act f c ih =>
    simp only [attempt]
    congr 1
    funext s
    exact ih s

/-! ### The interleaved reading -/

/-- One atomic step; a finished program stays as it is. -/
def step : Prog σ ε α → σ → σ × Prog σ ε α
  | .done r, s => (s, .done r)
  | .act f k, s => (f s, k s)

/-- Rely/guarantee: from `s` and the ghost value `g`, whatever the environment does within `R` between
    the steps, each step meets `G` and the result meets `Q`. -/
def Safe {γ : Type} (R : σ → σ → Prop) (G : γ → σ → σ → γ → Prop)
    (Q : γ → Except ε α → σ → Prop) : γ → Prog σ ε α → σ → Prop
  | g, .done r, s => Q g r s
  | g, .act f k, s => ∀ t, R s t → ∃ g', G g t (f t) g' ∧ Safe R G Q g' (k t) (f t)

section Safe
variable {γ : Type} {R : σ → σ → Prop} {G : γ → σ → σ → γ → Prop} {g : γ}

variable {Q : γ → Except ε α → σ → Prop} {p : Prog σ ε α} {s : σ}

theorem Safe.mono {Q' : γ → Except ε α → σ → Prop} (hQ : ∀ g r s, Q g r s → Q' g r s)
    (h : Safe R G Q g p s) : Safe R G Q' g p s := by
  induction p generalizing s g with
  | done r => exact hQ g r s h
  | act f k ih =>
    intro t ht
    obtain ⟨g', hg, hk⟩ := h t ht
    exact ⟨g', hg, ih t hk⟩

theorem Safe.attempt {Q : γ → Except ε β → σ → Prop} {k : Except ε α → Prog σ ε β}
    (h : Safe R G (fun g r t => Safe R G Q g (k r) t) g p s) : Safe R G Q g (p.attempt k) s := by
  induction p generalizing s g with
  | done r => exact h
  | act f c ih =>
    intro t ht
    obtain ⟨g', hg, hc⟩ := h t ht
    exact ⟨g', hg, ih t hc⟩

/-- The sequencing rule: the rest is safe wherever the first program ends. -/
theorem Safe.bind {Q : γ → Except ε β → σ → Prop} {k : α → Prog σ ε β} (h : Safe R G (fun g r t => match r with
      | .ok a => Safe R G Q g (k a) t
      | .error e => Q g (.error e) t) g p s) : Safe R G Q g (p >>= k) s := by
  refine Safe.attempt (h.mono ?_)
  rintro g (e | a) t ht <;> exact ht

/-- The program keeps `I`, whatever it returns. -/
def Upholds (R : σ → σ → Prop) (G : γ → σ → σ → γ → Prop) (I : γ → σ → Prop) (p : Prog σ ε α) : Prop :=
  ∀ g s, I g s → Safe R G (fun g _ t => I g t) g p s

theorem Upholds.done {I : γ → σ → Prop} (r : Except ε α) : Upholds R G I (.done r) := fun _ _ h => h

theorem Upholds.attempt {I : γ → σ → Prop} {k : Except ε α → Prog σ ε β} (hp : Upholds R G I p)
    (hk : ∀ r, Upholds R G I (k r)) : Upholds R G I (p.attempt k) :=
  fun g s h => Safe.attempt ((hp g s h).mono fun g r t ht => hk r g t ht)

theorem Upholds.bind {I : γ → σ → Prop} {k : α → Prog σ ε β} (hp : Upholds R G I p)
    (hk : ∀ a, Upholds R G I (k a)) : Upholds R G I (p >>= k) := by
  refine hp.attempt ?_
  rintro (e | a)
  · exact .done _
  · exact hk a

theorem Upholds.forEach {I : γ → σ → Prop} {f : α → Prog σ ε Unit} : ∀ {l : List α},
    (∀ a ∈ l, Upholds R G I (f a)) → Upholds R G I (forEach f l)
  | [], _ => .done _
  | _ :: _, h => (h _ List.mem_cons_self).bind fun _ => forEach fun b hb => h b (List.mem_cons_of_mem _ hb)

/-- A step of a safe program meets the guarantee and leaves a safe program. -/
theorem Safe.step {t : σ} (h : Safe R G Q g p s) (hst : R s t) : (∃ r, p = .done r ∧ Q g r s) ∨
      ∃ g', G g t (p.step t).1 g' ∧ Safe R G Q g' (p.step t).2 (p.step t).1 := by
  cases p with
  | done r => exact Or.inl ⟨r, rfl, h⟩
  | act f k => exact Or.inr (h t hst)

/-- Environment steps within the rely keep a program safe. -/
theorem Safe.rely {t : σ} (hR : ∀ u, R t u → R s u) (hQ : ∀ g r, Q g r s → Q g r t) (h : Safe R G Q g p s) :
    Safe R G Q g p t := by
  cases p with
  | done r => exact hQ g r h
  | act f k => exact fun u hu => h u (hR u hu)

/-- A safe program stays safe among fewer steps of others, with a weaker guarantee. -/
theorem Safe.weaken {R' : σ → σ → Prop} {G' : γ → σ → σ → γ → Prop} (hR : ∀ s t, R' s t → R s t)
    (hG : ∀ g s t g', G g s t g' → G' g s t g') (h : Safe R G Q g p s) : Safe R' G' Q g p s := by
  induction p generalizing s g with
  | done r => exact h
  | act f k ih =>
    intro t ht
    obtain ⟨g', hg, hk⟩ := h t (hR s t ht)
    exact ⟨g', hG g t (f t) g' hg, ih t hk⟩

/-- A rely may assume what every step of the program establishes. -/
theorem Safe.assuming {P : σ → Prop} (hG : ∀ g s t g', G g s t g' → P t) (hs : P s)
    (h : Safe (fun s t => P s ∧ R s t) G Q g p s) : Safe R G Q g p s := by
  induction p generalizing s g with
  | done r => exact h
  | act f k ih =>
    intro t ht
    obtain ⟨g', hg, hk⟩ := h t ⟨hs, ht⟩
    exact ⟨g', hg, ih t (hG g t (f t) g' hg) hk⟩

/-- A safe program that runs alone: an invariant of its steps holds at its end, with `Q`. -/
theorem Safe.exec {I : γ → σ → Prop} (hR : ∀ g s, I g s → R s s) (hI : ∀ g s t g', I g s → G g s t g' → I g' t)
    (h : Safe R G Q g p s) (hs : I g s) : ∃ g', I g' (p.exec s).1 ∧ Q g' (p.exec s).2 (p.exec s).1 := by
  induction p generalizing s g with
  | done r => exact ⟨g, hs, h⟩
  | act f k ih =>
    obtain ⟨g', hg, hk⟩ := h s (hR g s hs)
    exact ih s hk (hI g s (f s) g' hs hg)

/-- A safe program that is cut short: an invariant of its steps holds where it was cut. -/
theorem Safe.cut {I : σ → Prop} (hR : ∀ s, I s → R s s)
    (hI : ∀ g s t g', I s → G g s t g' → I t) (h : Safe R G Q g p s) (hs : I s) (i : Nat) : I (p.cut i s) := by
  induction p generalizing s g i with
  | done r =>
    cases i with
    | zero => exact hs
    | succ i => exact hs
  | act f k ih =>
    cases i with
    | zero => exact hs
    | succ i =>
      obtain ⟨g', hg, hk⟩ := h s (hR s hs)
      exact ih s hk (hI g s (f s) g' hs hg) i

end Safe

/-! ### What every step does -/

/-- Every step of the program, from whatever state it is made, meets `P`. -/
def Each (P : σ → σ → Prop) : Prog σ ε α → Prop
  | .done _ => True
  | .act f k => (∀ s, P s (f s)) ∧ ∀ s, Each P (k s)

section Each
variable {P : σ → σ → Prop}

variable {p : Prog σ ε α}

theorem Each.attempt {k : Except ε α → Prog σ ε β} (hp : p.Each P)
    (hk : ∀ r, (k r).Each P) : (p.attempt k).Each P := by
  induction p with
  | done r => exact hk r
  | act f c ih => exact ⟨hp.1, fun s => ih s (hp.2 s)⟩

theorem Each.bind {k : α → Prog σ ε β} (hp : p.Each P) (hk : ∀ a, (k a).Each P) : (p >>= k).Each P := by
  refine hp.attempt ?_
  rintro (e | a)
  · exact trivial
  · exact hk a

theorem Each.forEach {p : α → Prog σ ε Unit} (hp : ∀ a, (p a).Each P) : ∀ l : List α, (Prog.forEach p l).Each P
  | [] => trivial
  | a :: l => (hp a).bind fun _ => Each.forEach hp l

/-- The steps of a safe program also do what every step of it does. -/
theorem Safe.each {γ : Type} {R : σ → σ → Prop} {G : γ → σ → σ → γ → Prop} {g : γ}
    {Q : γ → Except ε α → σ → Prop} {s : σ} (h : Safe R G Q g p s) (hp : p.Each P) :
    Safe R (fun g s t g' => G g s t g' ∧ P s t) Q g p s := by
  induction p generalizing s g with
  | done r => exact h
  | act f k ih =>
    intro t ht
    obtain ⟨g', hg, hk⟩ := h t ht
    exact ⟨g', ⟨hg, hp.1 t⟩, ih t hk (hp.2 t)⟩

/-- What every step preserves holds at the end. -/
theorem Each.exec {I : σ → Prop} (hI : ∀ s t, I s → P s t → I t) (hp : p.Each P) {s : σ}
    (hs : I s) : I (p.exec s).1 := by
  induction p generalizing s with
  | done r => exact hs
  | act f k ih => exact ih s (hp.2 s) (hI s (f s) hs (hp.1 s))

end Each

end Prog

end Mailezine.Schemes
