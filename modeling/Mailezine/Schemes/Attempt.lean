import Mathlib.Data.List.Flatten

/-! Computations that leave something behind before they can fail.

    An attempt records the events it caused, in order, and ends in a result or an error; what it caused
    before the error stays. It is all or nothing when it fails, if it does, before it has caused
    anything. -/

namespace Mailezine.Schemes
open List

/-- What a computation caused, and how it ended. -/
structure Attempt (ω ε α : Type) where
  events : List ω
  result : Except ε α

namespace Attempt
variable {ω ε ε' α β : Type}

/-- Go on with the result, unless it is an error. -/
def bind (a : Attempt ω ε α) (f : α → Attempt ω ε β) : Attempt ω ε β :=
  match a.result with
  | .ok v => ⟨a.events ++ (f v).events, (f v).result⟩
  | .error e => ⟨a.events, .error e⟩

instance : Monad (Attempt ω ε) where
  pure v := ⟨[], .ok v⟩
  bind := bind

/-- Cause events. -/
def emit (l : List ω) : Attempt ω ε Unit := ⟨l, .ok ()⟩

/-- A step that causes nothing. -/
def lift (r : Except ε α) : Attempt ω ε α := ⟨[], r⟩

/-- A step that causes an event when it succeeds, and also when it fails late. -/
def call (event : ω) (late : Bool) (r : Except ε Unit) : Attempt ω ε Unit :=
  match r with
  | .ok _ => ⟨[event], .ok ()⟩
  | .error e => ⟨if late then [event] else [], .error e⟩

/-- Report errors in another way. -/
def mapError (f : ε → ε') (a : Attempt ω ε α) : Attempt ω ε' α := ⟨a.events, a.result.mapError f⟩

/-- One after the other until one fails. -/
def each (f : β → Attempt ω ε Unit) : List β → Attempt ω ε Unit
  | [] => pure ()
  | b :: l => f b >>= fun _ => each f l

/-- Whether it ended in an error. -/
def failed (a : Attempt ω ε α) : Bool :=
  match a.result with
  | .ok _ => false
  | .error _ => true

variable {a : Attempt ω ε α} {v : α} {f : α → Attempt ω ε β}

theorem failed_of_ok (h : a.result = .ok v) : a.failed = false := by
  simp only [failed, h]

theorem failed_mapError (f : ε → ε') (a : Attempt ω ε α) : (a.mapError f).failed = a.failed := by
  unfold Attempt.mapError Attempt.failed
  cases a.result <;> rfl

theorem bind_ok (h : a.result = .ok v) (f : α → Attempt ω ε β) :
    a >>= f = ⟨a.events ++ (f v).events, (f v).result⟩ := by
  change a.bind f = _
  simp only [bind, h]

theorem bind_error {e : ε} (h : a.result = .error e) (f : α → Attempt ω ε β) :
    a >>= f = ⟨a.events, .error e⟩ := by
  change a.bind f = _
  simp only [bind, h]

theorem lift_bind_ok {r : Except ε α} (h : r = .ok v) (f : α → Attempt ω ε β) :
    (lift r >>= f : Attempt ω ε β) = f v := by
  subst h
  rfl

theorem lift_bind_error {r : Except ε α} {e : ε} (h : r = .error e) (f : α → Attempt ω ε β) :
    (lift r >>= f : Attempt ω ε β) = ⟨[], .error e⟩ := by
  subst h
  rfl

theorem result_bind_ok {v : β} : (a >>= f).result = .ok v ↔ ∃ x, a.result = .ok x ∧ (f x).result = .ok v := by
  cases hr : a.result with
  | error e => simp [bind_error hr]
  | ok x => simp [bind_ok hr]

theorem result_mapError_ok {f : ε → ε'} : (a.mapError f).result = .ok v ↔ a.result = .ok v := by
  cases hr : a.result <;> simp [Attempt.mapError, hr, Except.mapError]

/-- An event of an attempt is one of its first part, or of the rest after the first part succeeded. -/
theorem mem_events_bind {e : ω} (he : e ∈ (a >>= f).events) :
    e ∈ a.events ∨ ∃ v, a.result = .ok v ∧ e ∈ (f v).events := by
  cases hr : a.result with
  | error err =>
    rw [bind_error hr] at he
    exact .inl he
  | ok v =>
    rw [bind_ok hr] at he
    exact (mem_append.mp he).imp_right fun he => ⟨v, rfl, he⟩

/-- What both parts of an attempt only cause, the whole only causes. -/
theorem forall_events_bind {φ : ω → Prop} (ha : ∀ e ∈ a.events, φ e)
    (hf : ∀ v, ∀ e ∈ (f v).events, φ e) : ∀ e ∈ (a >>= f).events, φ e := by
  intro e he
  rcases mem_events_bind he with he | ⟨v, -, he⟩
  · exact ha e he
  · exact hf v e he

theorem forall_events_each {φ : ω → Prop} {f : β → Attempt ω ε Unit} : ∀ {l : List β},
    (∀ b ∈ l, ∀ e ∈ (f b).events, φ e) → ∀ e ∈ (each f l).events, φ e
  | [], _ => fun _ he => nomatch he
  | b :: l, h =>
    forall_events_bind (h b (by simp)) fun _ => forall_events_each fun c hc => h c (by simp [hc])

theorem mem_events_each {f : β → Attempt ω ε Unit} {l : List β} {e : ω} (he : e ∈ (each f l).events) :
    ∃ b ∈ l, e ∈ (f b).events :=
  forall_events_each (φ := fun e => ∃ b ∈ l, e ∈ (f b).events) (fun b hb _ he => ⟨b, hb, he⟩) e he

/-! ### All or nothing -/

/-- It has caused nothing when it fails. -/
def AllOrNothing (a : Attempt ω ε α) : Prop := a.failed = true → a.events = []

theorem AllOrNothing.mapError (h : AllOrNothing a) (f : ε → ε') : AllOrNothing (a.mapError f) :=
  fun hf => h ((failed_mapError f a).symm.trans hf)

/-- A last part that does not fail keeps it. -/
theorem AllOrNothing.bind (h : AllOrNothing a) (hf : ∀ v, a.result = .ok v → (f v).failed = false) :
    AllOrNothing (a >>= f) := by
  intro hfail
  cases hr : a.result with
  | error e =>
    rw [bind_error hr]
    exact h (by simp only [failed, hr])
  | ok v =>
    have hv : (f v).failed = true := by
      rw [bind_ok hr] at hfail
      exact hfail
    exact absurd (hv.symm.trans (hf v hr)) (by simp)

/-- So does a first part that causes nothing. -/
theorem AllOrNothing.after (h : a.events = []) (hf : ∀ v, a.result = .ok v → AllOrNothing (f v)) :
    AllOrNothing (a >>= f) := by
  intro hfail
  cases hr : a.result with
  | error e =>
    rw [bind_error hr]
    exact h
  | ok v =>
    rw [bind_ok hr] at hfail ⊢
    change a.events ++ (f v).events = []
    rw [h, nil_append]
    exact hf v hr hfail

/-! ### Attempts that do not fail -/

theorem ok_of_bind {f : α → Attempt ω ε β} (h : (a >>= f).failed = false) :
    ∃ v, a.result = .ok v ∧ (f v).failed = false ∧ (a >>= f).events = a.events ++ (f v).events := by
  cases hr : a.result with
  | error e =>
    rw [bind_error hr] at h
    cases h
  | ok v =>
    rw [bind_ok hr] at h ⊢
    exact ⟨v, rfl, h, rfl⟩

theorem ok_of_lift_bind {r : Except ε α} (h : (lift r >>= f : Attempt ω ε β).failed = false) :
    ∃ v, r = .ok v ∧ (f v).failed = false ∧ (lift r >>= f : Attempt ω ε β).events = (f v).events :=
  ok_of_bind h

theorem failed_bind {b : Bool} (hf : ∀ v, a.result = .ok v → (f v).failed = b) :
    (a >>= f).failed = (a.failed || b) := by
  cases hr : a.result with
  | error e => simp [bind_error hr, failed, hr]
  | ok v =>
    rw [bind_ok hr, failed_of_ok hr, Bool.false_or]
    exact hf v hr

theorem failed_each (f : β → Attempt ω ε Unit) : ∀ l : List β, (each f l).failed = l.any fun b => (f b).failed
  | [] => rfl
  | _ :: l => failed_bind fun _ _ => failed_each f l

theorem failed_lift (r : Except ε α) : (lift r : Attempt ω ε α).failed = !r.isOk := by
  cases r <;> rfl

theorem failed_call (event : ω) (late : Bool) (r : Except ε Unit) : (call event late r).failed = !r.isOk := by
  cases r <;> rfl

theorem eq_of_mem_call {e event : ω} {late : Bool} {r : Except ε Unit} (h : e ∈ (call event late r).events) :
    e = event := by
  cases r with
  | error err => exact mem_singleton.mp (mem_ite_nil_right.mp h).2
  | ok _ => exact mem_singleton.mp h

theorem events_call {event : ω} {late : Bool} {r : Except ε Unit} (h : (call event late r).failed = false) :
    (call event late r).events = [event] := by
  cases r with
  | error e => cases h
  | ok v => rfl

/-- What a row of attempts causes when none fails. -/
theorem events_each {f : β → Attempt ω ε Unit} : ∀ {l : List β}, (each f l).failed = false →
    (each f l).events = l.flatMap (fun b => (f b).events) ∧ ∀ b ∈ l, (f b).failed = false
  | [], _ => ⟨rfl, by simp⟩
  | b :: l, h => by
    obtain ⟨v, hr, hl, hev⟩ := ok_of_bind (a := f b) (f := fun _ => each f l) h
    obtain ⟨hevl, hall⟩ := events_each (f := f) (l := l) hl
    refine ⟨hev.trans (by rw [flatMap_cons, hevl]), ?_⟩
    rintro c hc
    rcases mem_cons.mp hc with rfl | hc
    · exact failed_of_ok hr
    · exact hall c hc

/-- The error of a row of attempts is the error of one of them. -/
theorem error_of_each {f : β → Attempt ω ε Unit} {e : ε} : ∀ {l : List β},
    (each f l).result = .error e → ∃ b ∈ l, (f b).result = .error e
  | [], h => by cases h
  | b :: l, h => by
    have h : (f b >>= fun _ => each f l).result = .error e := h
    cases hr : (f b).result with
    | error e' =>
      rw [bind_error hr] at h
      exact ⟨b, by simp, hr.trans h⟩
    | ok v =>
      rw [bind_ok hr] at h
      obtain ⟨c, hc, he⟩ := error_of_each h
      exact ⟨c, by simp [hc], he⟩

/-- Calls one after the other cause the events of the first of them. -/
theorem events_each_call (event : β → ω) (late : β → Bool) (r : β → Except ε Unit) : ∀ l : List β,
    ∃ m, m ≤ l.length ∧ (each (fun b => call (event b) (late b) (r b)) l).events = (l.take m).map event
  | [] => ⟨0, Nat.le_refl 0, rfl⟩
  | b :: l => by
    obtain ⟨m, hm, hev⟩ := events_each_call event late r l
    have hstep : each (fun b => call (event b) (late b) (r b)) (b :: l) =
      call (event b) (late b) (r b) >>= fun _ => each (fun b => call (event b) (late b) (r b)) l := rfl
    rw [hstep]
    cases hr : r b with
    | error e =>
      cases late b with
      | false => exact ⟨0, Nat.zero_le _, rfl⟩
      | true => exact ⟨1, Nat.succ_pos _, rfl⟩
    | ok v => exact ⟨m + 1, Nat.succ_le_succ hm, congrArg (event b :: ·) hev⟩

end Attempt

/-! ### Lists of events -/

theorem filterMap_sublist_map {α β : Type} {f : α → Option β} {g : α → β} :
    ∀ {l : List α}, (∀ x ∈ l, f x = none ∨ f x = some (g x)) → (l.filterMap f).Sublist (l.map g)
  | [], _ => .slnil
  | x :: l, h => by
    have hl := filterMap_sublist_map fun y hy => h y (mem_cons_of_mem _ hy)
    rw [filterMap_cons, map_cons]
    rcases h x (by simp) with hx | hx <;> rw [hx]
    · exact hl.cons _
    · exact hl.cons_cons _

end Mailezine.Schemes
