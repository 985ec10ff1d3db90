import Mathlib.Data.List.Basic

/-! Programs over an interface, and the implementations behind it.

    A script calls the interface, goes on with the answer and ends in a result. A handler is an
    implementation of the interface. Two handlers whose states stay related while they give the same
    answers run every script alike. -/

namespace Mailezine.Schemes

variable {C : Type} {A : C → Type} {σ τ ρ : Type}

/-- A program that calls an interface with the calls `C` and the answers `A`. -/
inductive Script (C : Type) (A : C → Type) (ρ : Type) where
  | done (r : ρ)
  | call (c : C) (next : A c → Script C A ρ)

/-- An implementation: what a call answers, and the state it leaves. -/
abbrev Handler (C : Type) (A : C → Type) (σ : Type) := (c : C) → σ → A c × σ

/-- A call with its answer. -/
abbrev Exchange (C : Type) (A : C → Type) := (c : C) × A c

/-- What a run leaves: the calls with their answers, the result and the last state. -/
structure Outcome (C : Type) (A : C → Type) (ρ σ : Type) where
  log : List (Exchange C A)
  result : ρ
  state : σ

/-- Run a script against a handler. -/
def Script.run (h : Handler C A σ) : Script C A ρ → σ → Outcome C A ρ σ
  | .done r, s => ⟨[], r, s⟩
  | .call c next, s =>
    let o := (next (h c s).1).run h (h c s).2
    { o with log := ⟨c, (h c s).1⟩ :: o.log }

/-- The state that a list of calls leads to. -/
def Handler.after (h : Handler C A σ) (s : σ) (log : List (Exchange C A)) : σ :=
  log.foldl (fun s e => (h e.1 s).2) s

/-- A run ends in the state that its calls lead to. -/
theorem Script.run_state (h : Handler C A σ) : ∀ (p : Script C A ρ) (s : σ),
    (p.run h s).state = h.after s (p.run h s).log
  | .done _, _ => rfl
  | .call c next, s => Script.run_state h (next (h c s).1) (h c s).2

/-- Every answer of a run is the handler's answer in the state that the calls before it lead to. -/
theorem Script.run_answer (h : Handler C A σ) {c : C} {a : A c} {post : List (Exchange C A)} :
    ∀ (pre : List (Exchange C A)) (p : Script C A ρ) (s : σ),
      (p.run h s).log = pre ++ ⟨c, a⟩ :: post → a = (h c (h.after s pre)).1
  | [], .call c' next, s, hlog => by
    obtain ⟨he, -⟩ := List.cons.inj hlog
    cases he
    rfl
  | e :: pre, .call c' next, s, hlog => by
    obtain ⟨he, hrest⟩ := List.cons.inj hlog
    subst he
    exact Script.run_answer h pre _ _ hrest
  | [], .done _, _, hlog => by cases hlog
  | _ :: _, .done _, _, hlog => by cases hlog

/-- Handlers that agree from related states, and keep them related, run a script alike. -/
theorem Script.run_simulates {h : Handler C A σ} {g : Handler C A τ} {R : σ → τ → Prop}
    (hR : ∀ c s t, R s t → (h c s).1 = (g c t).1 ∧ R (h c s).2 (g c t).2) :
    ∀ (p : Script C A ρ) (s : σ) (t : τ), R s t →
      (p.run h s).log = (p.run g t).log ∧ (p.run h s).result = (p.run g t).result ∧
        R (p.run h s).state (p.run g t).state
  | .done _, _, _, hst => ⟨rfl, rfl, hst⟩
  | .call c next, s, t, hst => by
    obtain ⟨ha, hst'⟩ := hR c s t hst
    obtain ⟨hlog, hres, hlast⟩ := Script.run_simulates hR (next (h c s).1) _ _ hst'
    simp only [Script.run]
    rw [← ha]
    exact ⟨by rw [hlog], hres, hlast⟩

end Mailezine.Schemes
