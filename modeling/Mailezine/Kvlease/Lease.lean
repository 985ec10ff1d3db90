import Mailezine.Gostd.Strings
import Mathlib.Order.Basic

/-! Named leases of `internal/kvlease`: an owner and an expiry under one key, renewed on every use and
    stolen after expiry.

    Acquire and Release are one transaction each, so on a store that serializes them they are functions
    of the value under the key. That value is kept here as `json.Unmarshal` gives it back: `encoding/json`
    replaces the bytes of an owner that are not UTF-8. Times are nanoseconds. -/

namespace Mailezine.Kvlease
open Gostd

/-- `record`. -/
structure Record where
  owner : Str
  untilTime : Int
  deriving DecidableEq

/-- The value under the lease key. -/
inductive Value where
  | garbled
  | record (r : Record)
  deriving DecidableEq

/-- `Lease`, its key apart: all leases here have one name. -/
structure Lease where
  owner : Str
  ttl : Int
  ttl_pos : 0 < ttl

/-- `time.Minute`. -/
def minute : Int := 60 * 10 ^ 9

/-- `New`: a ttl that is not positive becomes a minute. -/
def new (owner : Str) (ttl : Int) : Lease :=
  if h : ttl ≤ 0 then ⟨owner, minute, by decide⟩ else ⟨owner, ttl, Int.not_le.mp h⟩

/-- Failures of the closures. -/
inductive Err where
  | unmarshal
  | marshal
  deriving DecidableEq

section Calls
variable (fits : Int → Bool)

/-- What a marshalled record is read back as; `fits` says which times `time.Time` can marshal. -/
def marshal (r : Record) : Except Err Value :=
  if fits r.untilTime then .ok (.record { r with owner := coerceUTF8 r.owner }) else .error .marshal

/-- The part of `Acquire` that claims, steals or renews. -/
def claim (l : Lease) (now : Int) (cur : Option Value) : Except Err Bool × Option Value :=
  match marshal fits ⟨l.owner, now + l.ttl⟩ with
  | .ok data => (.ok true, some data)
  | .error e => (.error e, cur)

/-- `Acquire`. -/
def acquire (l : Lease) (now : Int) (cur : Option Value) : Except Err Bool × Option Value :=
  match cur with
  | none => claim fits l now cur
  | some .garbled => (.error .unmarshal, cur)
  | some (.record r) =>
    -- a live foreign holder
    if r.owner ≠ l.owner ∧ now < r.untilTime then (.ok false, cur)
    else claim fits l now cur

/-- `Release`. -/
def release (l : Lease) (cur : Option Value) : Except Err Unit × Option Value :=
  match cur with
  | none => (.ok (), cur)
  | some .garbled => (.error .unmarshal, cur)
  | some (.record r) => if r.owner ≠ l.owner then (.ok (), cur) else (.ok (), none)

/-! ### Many owners -/

variable {ι : Type} (leases : ι → Lease)

/-- The value under the key and the clock that all owners read. -/
structure State where
  cur : Option Value
  clock : Int
  deriving DecidableEq

/-- What can happen: time passes, or an owner calls. -/
inductive Action (ι : Type) where
  | tick (d : Nat)
  | acquire (i : ι)
  | release (i : ι)
  deriving DecidableEq

/-- One step. -/
def step (s : State) : Action ι → State
  | .tick d => { s with clock := s.clock + d }
  | .acquire i => { s with cur := (acquire fits (leases i) s.clock s.cur).2 }
  | .release i => { s with cur := (release (leases i) s.cur).2 }

/-- A run. -/
def run (s : State) (acts : List (Action ι)) : State := acts.foldl (step fits leases) s

/-- `Acquire` of `i` would return true. -/
def Wins (s : State) (i : ι) : Prop := (acquire fits (leases i) s.clock s.cur).1 = .ok true

instance (s : State) (i : ι) : Decidable (Wins fits leases s i) := inferInstanceAs (Decidable (_ = _))

/-- The key holds the lease of `i`, up to `t` or longer. -/
def Holds (i : ι) (t : Int) (s : State) : Prop :=
  ∃ r, s.cur = some (.record r) ∧ r.owner = coerceUTF8 (leases i).owner ∧ t ≤ r.untilTime

/-- No owner is taken for another once both went through `encoding/json`. -/
def Distinct : Prop := ∀ i j, i ≠ j → coerceUTF8 (leases i).owner ≠ (leases j).owner

variable {fits leases} {i j : ι} {s : State} {t : Int}

/-! ### Steps -/

theorem claim_ok {l : Lease} {now : Int} {cur : Option Value} (h : (claim fits l now cur).1 = .ok true) :
    (claim fits l now cur).2 = some (.record ⟨coerceUTF8 l.owner, now + l.ttl⟩) := by
  unfold claim marshal at h ⊢
  cases hfit : fits (now + l.ttl) <;> simp_all

/-- An Acquire leaves the value alone or claims. -/
theorem acquire_cases (fits : Int → Bool) (l : Lease) (now : Int) (cur : Option Value) :
    (acquire fits l now cur).2 = cur ∨ (acquire fits l now cur).1 = .ok true ∧
        (acquire fits l now cur).2 = some (.record ⟨coerceUTF8 l.owner, now + l.ttl⟩) := by
  have hclaim : (claim fits l now cur).2 = cur ∨ (claim fits l now cur).1 = .ok true ∧
      (claim fits l now cur).2 = some (.record ⟨coerceUTF8 l.owner, now + l.ttl⟩) := by
    unfold claim marshal
    cases fits (now + l.ttl) <;> simp
  rcases cur with _ | _ | r
  · exact hclaim
  · exact .inl rfl
  · simp only [acquire]
    split
    · exact .inl rfl
    · exact hclaim

/-- Who wins holds the lease from then on for a whole ttl. -/
theorem holds_of_wins (h : Wins fits leases s i) :
    Holds leases i (s.clock + (leases i).ttl) (step fits leases s (.acquire i)) := by
  refine ⟨⟨coerceUTF8 (leases i).owner, s.clock + (leases i).ttl⟩, ?_, rfl, le_refl _⟩
  rcases s with ⟨_ | _ | r, now⟩
  · exact claim_ok h
  · cases h
  · simp only [Wins, acquire, step] at h ⊢
    split at h
    · cases h
    · rw [if_neg ‹_›]
      exact claim_ok h

/-- FENCED: while a lease lasts no other owner wins. -/
theorem expired_of_wins (hd : Distinct leases) (hij : i ≠ j) (h : Holds leases i t s)
    (hwin : Wins fits leases s j) : t ≤ s.clock := by
  obtain ⟨r, hcur, howner, ht⟩ := h
  have hforeign : r.owner ≠ (leases j).owner := howner ▸ hd i j hij
  refine ht.trans (Int.not_lt.mp fun hlt => ?_)
  simp [Wins, acquire, hcur, hforeign, hlt] at hwin

/-- A Release of another owner leaves the lease as it is. -/
theorem release_foreign (hd : Distinct leases) (hij : i ≠ j) (h : Holds leases i t s) :
    (step fits leases s (.release j)).cur = s.cur := by
  obtain ⟨r, hcur, howner, -⟩ := h
  have hforeign : r.owner ≠ (leases j).owner := howner ▸ hd i j hij
  simp [step, release, hcur, hforeign]

/-- The lease of `i` up to `t` is in force or over, and a renewal would not end it earlier. -/
structure Guarded (leases : ι → Lease) (i : ι) (t : Int) (s : State) : Prop where
  renewal : t ≤ s.clock + (leases i).ttl
  held_or_over : Holds leases i t s ∨ t ≤ s.clock

theorem guarded_of_wins (h : Wins fits leases s i) :
    Guarded leases i (s.clock + (leases i).ttl) (step fits leases s (.acquire i)) :=
  ⟨le_refl _, .inl (holds_of_wins h)⟩

/-- A step of anybody keeps a lease guarded, a Release of its owner apart. -/
theorem Guarded.step (hd : Distinct leases) {a : Action ι} (ha : a ≠ .release i)
    (h : Guarded leases i t s) : Guarded leases i t (step fits leases s a) := by
  classical
  obtain ⟨hren, hheld⟩ := h
  cases a with
  | tick d =>
    refine ⟨by simp only [Kvlease.step]; omega, hheld.imp (fun h => h) fun h => ?_⟩
    simp only [Kvlease.step]
    omega
  | release j =>
    have hij : i ≠ j := fun he => ha (he ▸ rfl)
    refine ⟨hren, hheld.imp_left fun h => ?_⟩
    have hcur : (Kvlease.step fits leases s (.release j)).cur = s.cur := release_foreign hd hij h
    obtain ⟨r, hr, hrest⟩ := h
    exact ⟨r, hcur.trans hr, hrest⟩
  | acquire j =>
    refine ⟨hren, ?_⟩
    rcases acquire_cases fits (leases j) s.clock s.cur with hsame | ⟨hwin, hnew⟩
    · refine hheld.imp_left fun h => ?_
      obtain ⟨r, hr, hrest⟩ := h
      exact ⟨r, hsame.trans hr, hrest⟩
    · by_cases hij : i = j
      · subst hij
        exact .inl ⟨_, hnew, rfl, hren⟩
      · have hover : t ≤ s.clock := hheld.elim (fun h => expired_of_wins hd hij h hwin) fun h => h
        exact .inr hover

theorem Guarded.run (hd : Distinct leases) : ∀ (acts : List (Action ι)) {s : State},
    .release i ∉ acts → Guarded leases i t s → Guarded leases i t (run fits leases s acts)
  | [], _, _, h => h
  | a :: acts, s, hrel, h => by
    have ha : a ≠ .release i := fun he => hrel (by simp [he])
    have hstep : Guarded leases i t (Kvlease.step fits leases s a) := h.step hd ha
    exact Guarded.run hd acts (fun hmem => hrel (by simp [hmem])) hstep

/-- EXCLUSIVE: once Acquire of `i` returned true, and until `i` releases, Acquire of another owner
    returns true only when the ttl of `i` is over; and no Release touches the lease of another owner. -/
theorem lease_excludes (hd : Distinct leases) :
    (∀ (s : State) (acts : List (Action ι)) (i j : ι), i ≠ j → Wins fits leases s i →
      .release i ∉ acts → Wins fits leases (run fits leases s (.acquire i :: acts)) j →
        s.clock + (leases i).ttl ≤ (run fits leases s (.acquire i :: acts)).clock) ∧
    ∀ (s : State) (i j : ι) (t : Int), i ≠ j → Holds leases i t s →
      (step fits leases s (.release j)).cur = s.cur := by
  refine ⟨?_, fun s i j t hij h => release_foreign hd hij h⟩
  intro s acts i j hij hi hrel hj
  have hg : Guarded leases i (s.clock + (leases i).ttl) (run fits leases s (.acquire i :: acts)) :=
    Guarded.run hd acts hrel (guarded_of_wins hi)
  exact hg.held_or_over.elim (fun h => expired_of_wins hd hij h hj) fun h => h

end Calls

/-! ### Owners that are text, and owners that are not -/

/-- Two leases of a second each. -/
def pair (a b : Str) : Bool → Lease
  | false => new a (10 ^ 9)
  | true => new b (10 ^ 9)

/-- One owner renews half a second in; the other gets the lease when the renewed second is over. -/
theorem lease_excludes_renewed :
    let leases := pair (ascii "node-a") (ascii "node-b")
    let acts : List (Action Bool) :=
      [.tick 500000000, .acquire false, .acquire true, .tick 1000000000]
    Distinct leases ∧ Wins (fun _ => true) leases ⟨none, 0⟩ false ∧
      Wins (fun _ => true) leases (run (fun _ => true) leases ⟨none, 0⟩ (.acquire false :: acts)) true ∧
      (0 : Int) + 10 ^ 9 ≤ (run (fun _ => true) leases ⟨none, 0⟩ (.acquire false :: acts)).clock := by
  have hd : Distinct (pair (ascii "node-a") (ascii "node-b")) := by unfold Distinct; decide
  refine ⟨hd, by decide, by decide, ?_⟩
  exact (lease_excludes hd).1 ⟨none, 0⟩ _ false true (by decide) (by decide) (by decide) (by decide)

/-- Two owners that differ, one of them no text: the record of the first reads back with the second
    as its owner, who renews it at once. -/
theorem garbled_owner_is_robbed :
    let leases := pair [0xff] replacementRune
    (leases false).owner ≠ (leases true).owner ∧ Wins (fun _ => true) leases ⟨none, 0⟩ false ∧
      Wins (fun _ => true) leases (step (fun _ => true) leases ⟨none, 0⟩ (.acquire false)) true ∧
      (step (fun _ => true) leases ⟨none, 0⟩ (.acquire false)).clock < 0 + (leases false).ttl := by
  decide

end Mailezine.Kvlease
