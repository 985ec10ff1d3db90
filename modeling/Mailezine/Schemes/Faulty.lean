import Mathlib.Data.List.Basic

/-! Programs that work on a store access by access, where any access can fail.

    What a program wrote before an error stays. A specification says what holds of the result and of the
    store, whichever accesses fail; a strict one only speaks of runs without failing accesses. -/

namespace Mailezine.Schemes

/-- A store, and which of the next accesses to it fail. -/
structure Plant (σ : Type) where
  faults : List Bool := []
  store : σ

/-- A program on a store. -/
abbrev Program (σ ε α : Type) := ExceptT ε (StateM (Plant σ)) α

namespace Program
variable {σ ε α β : Type}

/-- The result and what is left. -/
def exec (m : Program σ ε α) (p : Plant σ) : Except ε α × Plant σ := m.run p

/-- One access. -/
def access (fault : ε) (f : σ → α × σ) : Program σ ε α := ExceptT.mk fun p =>
  match p.faults with
  | true :: rest => (.error fault, ⟨rest, p.store⟩)
  | false :: rest => (.ok (f p.store).1, ⟨rest, (f p.store).2⟩)
  | [] => (.ok (f p.store).1, ⟨[], (f p.store).2⟩)

/-- Go on after an error. -/
def rescue (m : Program σ ε α) (h : ε → Program σ ε α) : Program σ ε α := ExceptT.mk fun p =>
  match m.exec p with
  | (.ok v, p') => (.ok v, p')
  | (.error e, p') => (h e).exec p'

section Exec
variable {m : Program σ ε α} {p p' : Plant σ}

theorem exec_bind_ok {v : α} (h : m.exec p = (.ok v, p')) (f : α → Program σ ε β) :
    exec (m >>= f) p = (f v).exec p' := by
  change (ExceptT.bindCont f (m.exec p).1).run (m.exec p).2 = _
  rw [h]
  rfl

theorem exec_bind_error {e : ε} (h : m.exec p = (.error e, p')) (f : α → Program σ ε β) :
    exec (m >>= f) p = (.error e, p') := by
  change (ExceptT.bindCont f (m.exec p).1).run (m.exec p).2 = _
  rw [h]
  rfl

theorem exec_rescue_ok {v : α} (h : m.exec p = (.ok v, p')) (f : ε → Program σ ε α) :
    (m.rescue f).exec p = (.ok v, p') := by
  unfold rescue exec at *
  simp only [ExceptT.run_mk, h]

theorem exec_rescue_error {e : ε} (h : m.exec p = (.error e, p')) (f : ε → Program σ ε α) :
    (m.rescue f).exec p = (f e).exec p' := by
  unfold rescue exec at *
  simp only [ExceptT.run_mk, h]

end Exec

/-! ### Specifications -/

/-- Whichever accesses fail (none, when it is strict), the program goes from `P` to `Q`. -/
def Ends (strict : Bool) (P : σ → Prop) (m : Program σ ε α) (Q : Except ε α → σ → Prop) : Prop :=
  ∀ p, P p.store → (strict = true → true ∉ p.faults) →
    Q (m.exec p).1 (m.exec p).2.store ∧ (strict = true → true ∉ (m.exec p).2.faults)

namespace Ends
variable {strict : Bool} {P : σ → Prop} {m : Program σ ε α} {Q : Except ε α → σ → Prop}

theorem pure {v : α} (h : ∀ s, P s → Q (.ok v) s) : Ends strict P (Pure.pure v : Program σ ε α) Q :=
  fun p hp hf => ⟨h p.store hp, hf⟩

theorem throw {e : ε} (h : ∀ s, P s → Q (.error e) s) : Ends strict P (MonadExcept.throw e : Program σ ε α) Q :=
  fun p hp hf => ⟨h p.store hp, hf⟩

theorem access {fault : ε} {f : σ → α × σ} (hok : ∀ s, P s → Q (.ok (f s).1) (f s).2)
    (herr : strict = false → ∀ s, P s → Q (.error fault) s) : Ends strict P (Program.access fault f) Q := by
  rintro ⟨faults, s⟩ hp hf
  rcases faults with _ | ⟨_ | _, rest⟩
  · exact ⟨hok s hp, hf⟩
  · exact ⟨hok s hp, fun h => fun hmem => hf h (List.mem_cons_of_mem _ hmem)⟩
  · cases strict with
    | false => exact ⟨herr rfl s hp, by simp⟩
    | true => exact absurd List.mem_cons_self (hf rfl)

theorem bind {R : Except ε β → σ → Prop} {f : α → Program σ ε β} (hm : Ends strict P m Q)
    (hf : ∀ v, Ends strict (Q (.ok v)) (f v) R) (herr : ∀ e s, Q (.error e) s → R (.error e) s) :
    Ends strict P (m >>= f) R := by
  intro p hp hfaults
  obtain ⟨hQ, hfaults'⟩ := hm p hp hfaults
  rcases hexec : m.exec p with ⟨e | v, p'⟩ <;> rw [hexec] at hQ hfaults'
  · rw [exec_bind_error hexec]
    exact ⟨herr e p'.store hQ, hfaults'⟩
  · rw [exec_bind_ok hexec]
    exact hf v p' hQ hfaults'

theorem rescue {R : Except ε α → σ → Prop} {h : ε → Program σ ε α} (hm : Ends strict P m Q)
    (hok : ∀ v s, Q (.ok v) s → R (.ok v) s) (hh : ∀ e, Ends strict (Q (.error e)) (h e) R) :
    Ends strict P (m.rescue h) R := by
  intro p hp hfaults
  obtain ⟨hQ, hfaults'⟩ := hm p hp hfaults
  rcases hexec : m.exec p with ⟨e | v, p'⟩ <;> rw [hexec] at hQ hfaults'
  · rw [exec_rescue_error hexec]
    exact hh e p' hQ hfaults'
  · rw [exec_rescue_ok hexec]
    exact ⟨hok v p'.store hQ, hfaults'⟩

theorem mono {P' : σ → Prop} {Q' : Except ε α → σ → Prop} (h : Ends strict P m Q) (hP : ∀ s, P' s → P s)
    (hQ : ∀ r s, Q r s → Q' r s) : Ends strict P' m Q' :=
  fun p hp hf => ⟨hQ _ _ (h p (hP _ hp) hf).1, (h p (hP _ hp) hf).2⟩

end Ends

end Program

end Mailezine.Schemes
