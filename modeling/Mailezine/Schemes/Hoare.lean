import Mathlib.Data.List.Basic

/-! Pre- and postconditions for programs that keep a state or fail, for one run and for two.

    A program that fails leaves no state behind, so a triple says nothing about it. -/

namespace Mailezine.Schemes

variable {σ ε α β : Type}

/-- From a state in `P`, a run of `m` that does not fail ends with a value and a state in `Q`. -/
def Triple (P : σ → Prop) (m : StateT σ (Except ε) α) (Q : α → σ → Prop) : Prop :=
  ∀ s x t, P s → m s = .ok (x, t) → Q x t

namespace Triple
variable {P : σ → Prop} {Q : α → σ → Prop} {R : β → σ → Prop}

theorem pure {x : α} (h : ∀ s, P s → Q x s) : Triple P (Pure.pure x : StateT σ (Except ε) α) Q := by
  intro s y t hs hrun
  cases hrun
  exact h s hs

theorem throw (e : ε) : Triple P (MonadExcept.throw e : StateT σ (Except ε) α) Q := by
  intro s x t _ hrun
  cases hrun

theorem get {Q : σ → σ → Prop} (h : ∀ s, P s → Q s s) :
    Triple P (MonadState.get : StateT σ (Except ε) σ) Q := by
  intro s x t hs hrun
  cases hrun
  exact h s hs

theorem modify {f : σ → σ} {Q : PUnit → σ → Prop} (h : ∀ s, P s → Q ⟨⟩ (f s)) :
    Triple P (MonadState.modifyGet (fun s => (PUnit.unit, f s)) : StateT σ (Except ε) PUnit) Q := by
  intro s x t hs hrun
  cases hrun
  exact h s hs

theorem bind {m : StateT σ (Except ε) α} {f : α → StateT σ (Except ε) β} (hm : Triple P m Q)
    (hf : ∀ x, Triple (Q x) (f x) R) : Triple P (m >>= f) R := by
  intro s y u hs hrun
  have hrun : (m s >>= fun r => f r.1 r.2) = Except.ok (y, u) := hrun
  cases hmid : m s with
  | error e => rw [hmid] at hrun; cases hrun
  | ok r =>
    rw [hmid] at hrun
    exact hf r.1 r.2 y u (hm s r.1 r.2 hs hmid) hrun

theorem mono {P' : σ → Prop} {Q' : α → σ → Prop} {m : StateT σ (Except ε) α} (h : Triple P m Q)
    (hP : ∀ s, P' s → P s) (hQ : ∀ x s, Q x s → Q' x s) : Triple P' m Q' :=
  fun s x t hs hrun => hQ x t (h s x t (hP s hs) hrun)

end Triple

/-! ### Two runs -/

/-- From related states `m` and `n` fail alike, or return the same value and related states. -/
def Twin (R : σ → σ → Prop) (m n : StateT σ (Except ε) α) : Prop :=
  ∀ s t, R s t → (∃ e, m s = .error e ∧ n t = .error e) ∨
    ∃ x s' t', m s = .ok (x, s') ∧ n t = .ok (x, t') ∧ R s' t'

namespace Twin
variable {R : σ → σ → Prop}

theorem pure (x : α) : Twin R (Pure.pure x : StateT σ (Except ε) α) (Pure.pure x) :=
  fun s t h => .inr ⟨x, s, t, rfl, rfl, h⟩

theorem throw (e : ε) : Twin R (MonadExcept.throw e : StateT σ (Except ε) α) (MonadExcept.throw e) :=
  fun _ _ _ => .inl ⟨e, rfl, rfl⟩

theorem bind {m n : StateT σ (Except ε) α} {f g : α → StateT σ (Except ε) β} (hm : Twin R m n)
    (hf : ∀ x, Twin R (f x) (g x)) : Twin R (m >>= f) (n >>= g) := by
  intro s t h
  show (∃ e, (m s >>= fun r => f r.1 r.2) = .error e ∧ (n t >>= fun r => g r.1 r.2) = .error e) ∨
    ∃ x s' t', (m s >>= fun r => f r.1 r.2) = .ok (x, s') ∧
      (n t >>= fun r => g r.1 r.2) = .ok (x, t') ∧ R s' t'
  obtain ⟨e, hs, ht⟩ | ⟨x, s', t', hs, ht, h'⟩ := hm s t h
  · exact .inl ⟨e, by rw [hs]; rfl, by rw [ht]; rfl⟩
  · rw [hs, ht]
    exact hf x s' t' h'

/-- From related states `m` and `n` both return `v`. -/
def Yields (R : σ → σ → Prop) (v : α) (m n : StateT σ (Except ε) α) : Prop :=
  ∀ s t, R s t → ∃ s' t', m s = .ok (v, s') ∧ n t = .ok (v, t') ∧ R s' t'

theorem bind_yields {m n : StateT σ (Except ε) α} {f g : α → StateT σ (Except ε) β} {v : α}
    (hm : Yields R v m n) (hf : Twin R (f v) (g v)) : Twin R (m >>= f) (n >>= g) := by
  intro s t h
  obtain ⟨s', t', hs, ht, h'⟩ := hm s t h
  show (∃ e, (m s >>= fun r => f r.1 r.2) = .error e ∧ (n t >>= fun r => g r.1 r.2) = .error e) ∨
    ∃ x s' t', (m s >>= fun r => f r.1 r.2) = .ok (x, s') ∧
      (n t >>= fun r => g r.1 r.2) = .ok (x, t') ∧ R s' t'
  rw [hs, ht]
  exact hf s' t' h'

/-- What two runs answer from related states. -/
theorem answer {m n : StateT σ (Except ε) α} (h : Twin R m n) {s t : σ} (hR : R s t) :
    (m s).map (·.1) = (n t).map (·.1) := by
  obtain ⟨e, hs, ht⟩ | ⟨x, s', t', hs, ht, -⟩ := h s t hR
  · rw [hs, ht]
  · rw [hs, ht]
    rfl

end Twin

end Mailezine.Schemes
