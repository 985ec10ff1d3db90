import Mailezine.Gostd.Strings
import Mathlib.Data.List.Forall2
import Mathlib.Data.Nat.Digits.Lemmas
import Mathlib.Order.Basic

/-! Messages of the outbound queue and what a delivery round makes of them.

    Times and durations are nanoseconds; the zero `time.Time` is a time like any other. A row of the
    store is the message that `json.Unmarshal` gives back, so what is written is the message with its
    texts passed through `encoding/json`. The random factor of a backoff is a parameter. -/

namespace Mailezine.Queue
open Gostd

/-! ### Messages -/

/-- `State`. -/
inductive State where
  | submitted | queued | active | delivered | deferred | bounced | failed
  deriving DecidableEq

/-- `RecipientStatus`. -/
inductive RecipientStatus where
  | pending | delivered | bounced
  deriving DecidableEq

/-- `Recipient`. -/
structure Recipient where
  address : Str
  status : RecipientStatus
  lastError : Str
  deriving DecidableEq

/-- The zero `time.Time`, the start of year 1. -/
def zeroTime : Int := -62135596800 * 10 ^ 9

/-- `Time.Unix`. -/
def unix (t : Int) : Int := t / 10 ^ 9

/-- `Message`. -/
structure Message where
  id : Nat
  sender : Str
  recipients : List Recipient
  subject : Str
  blobID : Str
  size : Nat
  state : State
  attempts : Nat
  maxAttempts : Nat
  nextAttempt : Int
  lastError : Str := []
  createdAt : Int
  updatedAt : Int
  lastWarningAt : Int := zeroTime
  owner : Str := []
  leaseUntil : Int := zeroTime
  deriving DecidableEq

/-- `isTerminal`. -/
def isTerminal : State → Bool
  | .delivered | .bounced | .failed => true
  | .submitted | .queued | .active | .deferred => false

/-- `duePos`. -/
def duePos (msg : Message) : Int :=
  if msg.state = .active then msg.leaseUntil else msg.nextAttempt

/-- A recipient after `json.Marshal` and `json.Unmarshal`. -/
def Recipient.json (r : Recipient) : Recipient :=
  { r with address := coerceUTF8 r.address, lastError := coerceUTF8 r.lastError }

/-- A message after `json.Marshal` and `json.Unmarshal`. -/
def Message.json (msg : Message) : Message :=
  { msg with
    sender := coerceUTF8 msg.sender
    recipients := msg.recipients.map Recipient.json
    subject := coerceUTF8 msg.subject
    blobID := coerceUTF8 msg.blobID
    lastError := coerceUTF8 msg.lastError
    owner := coerceUTF8 msg.owner }

/-! ### Managers -/

/-- The `Options` that the queue logic reads. -/
structure Options where
  maxAttempts : Nat
  baseRetry : Int
  maxRetry : Int
  delayWarning : Int
  claimLease : Int
  terminalRetention : Int
  deriving DecidableEq

/-- `DefaultOptions`. -/
def defaultOptions : Options where
  maxAttempts := 10
  baseRetry := 60 * 10 ^ 9
  maxRetry := 24 * 3600 * 10 ^ 9
  delayWarning := 300 * 10 ^ 9
  claimLease := 600 * 10 ^ 9
  terminalRetention := 7 * 24 * 3600 * 10 ^ 9

/-- `Manager`; `warns` says whether a delay-warning handler is installed. -/
structure Manager where
  nodeID : Str
  opts : Options
  warns : Bool
  maxAttempts_pos : 0 < opts.maxAttempts
  lease_pos : 0 < opts.claimLease

/-- The defaults that `New` puts in place of options that are not positive. -/
def Options.filled (o : Options) : Options where
  maxAttempts := if o.maxAttempts = 0 then defaultOptions.maxAttempts else o.maxAttempts
  baseRetry := if o.baseRetry ≤ 0 then defaultOptions.baseRetry else o.baseRetry
  maxRetry := if o.maxRetry ≤ 0 then defaultOptions.maxRetry else o.maxRetry
  delayWarning := o.delayWarning
  claimLease := if o.claimLease ≤ 0 then defaultOptions.claimLease else o.claimLease
  terminalRetention :=
    if o.terminalRetention = 0 then defaultOptions.terminalRetention else o.terminalRetention

theorem Options.filled_maxAttempts_pos (o : Options) : 0 < o.filled.maxAttempts := by
  change 0 < if o.maxAttempts = 0 then 10 else o.maxAttempts
  split <;> omega

theorem Options.filled_lease_pos (o : Options) : 0 < o.filled.claimLease := by
  change 0 < if o.claimLease ≤ 0 then 600 * 10 ^ 9 else o.claimLease
  split <;> omega

/-- `New`, with the node ID that the options or `RandomNodeID` give. -/
def new (nodeID : Str) (o : Options) (warns : Bool) : Manager :=
  ⟨nodeID, o.filled, warns, o.filled_maxAttempts_pos, o.filled_lease_pos⟩

/-! ### Outcomes -/

/-- `Result` of one recipient. -/
structure Result where
  addr : Str
  ok : Bool
  permanent : Bool
  err : Option Str

/-- `resultError`. -/
def resultError (res : Result) : Str := res.err.getD (ascii "delivery failed")

/-- The delay of `backoff` before its jitter: doubled for every attempt after the first, up to a limit. -/
def backoffDelay (limit : Int) : Nat → Int → Int
  | 0, d => d
  | n + 1, d => if d < limit then backoffDelay limit n (min (2 * d) limit) else d

/-- `backoff`; `jitter` is what the random factor makes of the delay. -/
def backoff (o : Options) (jitter : Int → Int) (attempt : Nat) : Int :=
  jitter (backoffDelay o.maxRetry (attempt - 1) o.baseRetry)

/-- Bounce a recipient that is still pending. -/
def Recipient.giveUp (r : Recipient) : Recipient :=
  if r.status = .pending then { r with status := .bounced } else r

/-- Put a message off to a later attempt. -/
def defer (m : Manager) (now : Int) (jitter : Int → Int) (msg : Message) : Message :=
  { msg with state := .deferred, nextAttempt := now + backoff m.opts jitter msg.attempts }

/-- `applyTransportFailure`. -/
def applyTransportFailure (m : Manager) (now : Int) (jitter : Int → Int) (err : Str) (msg : Message) :
    Message :=
  let failed :=
    { msg with
      recipients := msg.recipients.map fun r => if r.status = .pending then { r with lastError := err } else r
      lastError := err }
  if msg.maxAttempts ≤ msg.attempts then
    { failed with recipients := failed.recipients.map Recipient.giveUp, state := .bounced }
  else defer m now jitter failed

/-- `finalizeState`. -/
def finalizeState (m : Manager) (now : Int) (jitter : Int → Int) (msg : Message) : Message :=
  let bounced := msg.recipients.any fun r => r.status = .bounced
  let pendingLeft := msg.recipients.any fun r => r.status = .pending
  if ¬ pendingLeft ∧ ¬ bounced then { msg with state := .delivered, lastError := [] }
  else if ¬ pendingLeft then { msg with state := .bounced }
  else if msg.maxAttempts ≤ msg.attempts then
    { msg with recipients := msg.recipients.map Recipient.giveUp, state := .bounced }
  else defer m now jitter msg

/-- The addresses handed to `Deliver`. -/
def pendingOf (msg : Message) : List Str :=
  (msg.recipients.filter fun r => r.status = .pending).map (·.address)

/-- The result for an address; a later result for the same address replaces an earlier one. -/
def byAddr (results : List Result) (addr : Str) : Option Result :=
  results.reverse.find? fun res => res.addr = addr

/-- Record the result of one recipient; one that the deliverer skipped stays pending. -/
def Recipient.settle (results : List Result) (r : Recipient) : Recipient :=
  if r.status ≠ .pending then r
  else match byAddr results r.address with
    | none => r
    | some res =>
      if res.ok then { r with status := .delivered }
      else { r with
        lastError := resultError res
        status := if res.permanent then .bounced else r.status }

/-- What `processMessage` makes of the answer of `Deliver`. -/
def settle (m : Manager) (now : Int) (jitter : Int → Int) (verdict : Except Str (List Result))
    (msg : Message) : Message :=
  match verdict with
  | .error err => applyTransportFailure m now jitter err msg
  | .ok results =>
    finalizeState m now jitter { msg with recipients := msg.recipients.map (Recipient.settle results) }

/-! ### What an outcome keeps -/

/-- A recipient whose fate is known keeps it. -/
def Recipient.Onward (r r' : Recipient) : Prop := r.status ≠ .pending → r'.status = r.status

/-- An outcome of a round: the recipients moved on, and the state says how the message goes on. -/
structure Outcome (msg out : Message) : Prop where
  id : out.id = msg.id
  blobID : out.blobID = msg.blobID
  attempts : out.attempts = msg.attempts
  maxAttempts : out.maxAttempts = msg.maxAttempts
  leaseUntil : out.leaseUntil = msg.leaseUntil
  onward : List.Forall₂ Recipient.Onward msg.recipients out.recipients
  ended : out.state = .delivered ∨ out.state = .bounced ∨ out.state = .deferred
  retried : out.state = .deferred → msg.attempts < msg.maxAttempts
  complete : out.state = .delivered → ∀ r ∈ out.recipients, r.status = .delivered

theorem Recipient.onward_refl (r : Recipient) : r.Onward r := fun _ => rfl

theorem Recipient.onward_giveUp (r : Recipient) : r.Onward r.giveUp := by
  intro h
  simp [Recipient.giveUp, h]

theorem Recipient.onward_settle (results : List Result) (r : Recipient) : r.Onward (r.settle results) := by
  intro h
  simp [Recipient.settle, h]

theorem Recipient.Onward.trans {a b c : Recipient} (h : a.Onward b) (h' : b.Onward c) : a.Onward c :=
  fun ha => (h' (by rw [h ha]; exact ha)).trans (h ha)

theorem forall₂_onward_map {f : Recipient → Recipient} (h : ∀ r : Recipient, r.Onward (f r)) (l : List Recipient) :
    List.Forall₂ Recipient.Onward l (l.map f) := by
  rw [List.forall₂_map_right_iff]
  exact List.forall₂_same.mpr fun r _ => h r

theorem forall₂_onward_trans {a b c : List Recipient} (h : List.Forall₂ Recipient.Onward a b)
    (h' : List.Forall₂ Recipient.Onward b c) : List.Forall₂ Recipient.Onward a c := by
  induction h generalizing c with
  | nil => cases h'; exact .nil
  | cons hab _ ih => cases h' with | cons hbc hrest => exact .cons (hab.trans hbc) (ih hrest)

/-- Recipients may move on before the outcome is decided. -/
theorem Outcome.of_recipients {msg out : Message} {rs : List Recipient} {e : Str}
    (honward : List.Forall₂ Recipient.Onward msg.recipients rs)
    (h : Outcome { msg with recipients := rs, lastError := e } out) : Outcome msg out where
  id := h.id
  blobID := h.blobID
  attempts := h.attempts
  maxAttempts := h.maxAttempts
  leaseUntil := h.leaseUntil
  onward := forall₂_onward_trans honward h.onward
  ended := h.ended
  retried := h.retried
  complete := h.complete

variable (m : Manager) (now : Int) (jitter : Int → Int)

theorem outcome_defer {msg : Message} (h : msg.attempts < msg.maxAttempts) :
    Outcome msg (defer m now jitter msg) where
  id := rfl
  blobID := rfl
  attempts := rfl
  maxAttempts := rfl
  leaseUntil := rfl
  onward := List.forall₂_same.mpr fun r _ => r.onward_refl
  ended := .inr (.inr rfl)
  retried := fun _ => h
  complete := fun hs => by cases hs

theorem outcome_giveUp (msg : Message) :
    Outcome msg { msg with recipients := msg.recipients.map Recipient.giveUp, state := .bounced } where
  id := rfl
  blobID := rfl
  attempts := rfl
  maxAttempts := rfl
  leaseUntil := rfl
  onward := forall₂_onward_map Recipient.onward_giveUp _
  ended := .inr (.inl rfl)
  retried := fun hs => by cases hs
  complete := fun hs => by cases hs

theorem outcome_applyTransportFailure (err : Str) (msg : Message) :
    Outcome msg (applyTransportFailure m now jitter err msg) := by
  have honward : List.Forall₂ Recipient.Onward msg.recipients (msg.recipients.map fun r =>
      if r.status = .pending then { r with lastError := err } else r) := by
    refine forall₂_onward_map (fun r h => ?_) _
    simp [h]
  unfold applyTransportFailure
  dsimp only
  by_cases hmax : msg.maxAttempts ≤ msg.attempts
  · rw [if_pos hmax]
    exact Outcome.of_recipients honward (outcome_giveUp _)
  · rw [if_neg hmax]
    exact Outcome.of_recipients honward (outcome_defer m now jitter (Nat.lt_of_not_le hmax))

theorem outcome_finalizeState (msg : Message) : Outcome msg (finalizeState m now jitter msg) := by
  have hsame : List.Forall₂ Recipient.Onward msg.recipients msg.recipients :=
    List.forall₂_same.mpr fun r _ => r.onward_refl
  unfold finalizeState
  dsimp only
  split
  case isTrue h =>
    refine ⟨rfl, rfl, rfl, rfl, rfl, hsame, .inl rfl, fun hs => by (cases hs), fun _ r hr => ?_⟩
    simp only [List.any_eq_true, decide_eq_true_eq, not_exists, not_and] at h
    cases hst : r.status with
    | pending => exact absurd hst (h.1 r hr)
    | delivered => rfl
    | bounced => exact absurd hst (h.2 r hr)
  case isFalse =>
    split
    · exact ⟨rfl, rfl, rfl, rfl, rfl, hsame, .inr (.inl rfl), fun hs => by (cases hs), fun hs => by (cases hs)⟩
    · split
      · exact outcome_giveUp msg
      · exact outcome_defer m now jitter (Nat.lt_of_not_le ‹_›)

/-- Whatever `Deliver` answers, the round ends in an outcome of the message. -/
theorem outcome_settle (verdict : Except Str (List Result)) (msg : Message) :
    Outcome msg (settle m now jitter verdict msg) := by
  cases verdict with
  | error err => exact outcome_applyTransportFailure m now jitter err msg
  | ok results =>
    exact Outcome.of_recipients (forall₂_onward_map (Recipient.onward_settle results) _)
      (outcome_finalizeState m now jitter _)

/-- A round that used up the attempts does not put the message off. -/
theorem Outcome.exhausted {msg out : Message} (h : Outcome msg out) (hmax : msg.maxAttempts ≤ msg.attempts) :
    out.state = .bounced ∨ out.state = .delivered ∧ ∀ r ∈ out.recipients, r.status = .delivered := by
  rcases h.ended with hs | hs | hs
  · exact .inr ⟨hs, h.complete hs⟩
  · exact .inl hs
  · exact absurd (h.retried hs) (Nat.not_lt.mpr hmax)

end Mailezine.Queue
