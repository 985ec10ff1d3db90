import Mailezine.App.Submit
import Mailezine.Delivery.Visits

/-! Whether SMTP DATA is all or nothing.

    A failure is reported to the client, who sends the message again, so it should come before anything
    was stored or queued. The order of the calls does not see to that: it is all or nothing when, from
    the first visit on, no call fails that comes after a copy, a redirect or a reply. -/

namespace Mailezine.App
open Gostd Schemes Delivery List

/-! ### Visits -/

/-- A call of a visit fails. -/
def fails (p : Pipeline) (u : Unicode) (stored raw : Str) (v : Visit) : Bool :=
  !(checkQuota v.ans.quota raw.length).isOk ||
    match decision p v.ans with
    | .discard => false
    | .reject _ => true
    | .deliver mailboxes res =>
      !(checkQuota v.ans.finalQuota ((applyHeaderEdits u stored res).length * mailboxes.length)).isOk ||
        mailboxes.zipIdx.any fun q => !(v.ans.deliver q.2).isOk

/-- A call of the local part fails: the message cannot be read, it is refused, or a lookup or a visit
    fails. -/
def localFails (p : Pipeline) (u : Unicode) (ans : SubmitAnswers) (peer : Option Str) (loc : List Str)
    (data : Str) : Bool :=
  !loc.isEmpty && (!ans.readAll.isOk ||
    match prepared p u ans.deliver peer (signed ans.sign data) with
    | .error _ => true
    | .ok stored => loc.zipIdx.any fun q => !(resolve p (ans.deliver.rcpts q.2) q.1).isOk ||
        (rcptVisits p (ans.deliver.rcpts q.2) q.1).any (fails p u stored (signed ans.sign data)))

/-- What a visit can fail with comes before its first copy; with a redirect or a reply of its script, before
    the script. -/
def FailsEarly (p : Pipeline) (u : Unicode) (stored : Str) (v : Visit) : Prop :=
  match decision p v.ans with
  | .deliver mailboxes res =>
    (∀ i < mailboxes.length, i ≠ 0 → (v.ans.deliver i).isOk = true) ∧
      if res.redirects = [] ∧ res.vacation = none then (v.ans.deliver 0).isOk = true ∨ v.ans.late 0 = false
      else (v.ans.deliver 0).isOk = true ∧
        checkQuota v.ans.finalQuota ((applyHeaderEdits u stored res).length * mailboxes.length) = .ok ()
  | _ => True

section Visits
variable {p : Pipeline} {u : Unicode} {sender stored raw : Str} {v : Visit}

theorem isOk_mapError {ε ε' α : Type} (f : ε → ε') (r : Except ε α) : (r.mapError f).isOk = r.isOk := by
  cases r <;> rfl

theorem failed_copies (ans : TargetAnswers) (target : Str) (copy : Copy) (l : List (Str × Nat)) :
    (storeLoop ans target copy l).failed = l.any fun q => !(ans.deliver q.2).isOk := by
  simp only [storeLoop, Attempt.failed_each, Attempt.failed_call, isOk_mapError]

theorem failed_deliverToTarget (v : Visit) :
    (deliverToTarget p u v.ans v.target sender v.targets stored raw).failed = fails p u stored raw v := by
  refine (Attempt.failed_bind fun _ _ => ?_).trans (congrArg (· || _) (Attempt.failed_lift _))
  cases decision p v.ans with
  | discard => rfl
  | reject reason => rfl
  | deliver mailboxes res =>
    refine (Attempt.failed_bind fun _ _ => ?_).trans (Bool.false_or _)
    exact (Attempt.failed_bind fun _ _ => failed_copies ..).trans (congrArg (· || _) (Attempt.failed_lift _))

theorem failed_deliverTo (ans : RcptAnswers) (rcpt : Str) :
    (deliverTo p u ans rcpt sender stored raw).failed =
      (!(resolve p ans rcpt).isOk || (rcptVisits p ans rcpt).any (fails p u stored raw)) := by
  unfold deliverTo rcptVisits
  cases resolve p ans rcpt with
  | error e => rfl
  | ok targets =>
    rw [Attempt.lift_bind_ok rfl, Attempt.failed_each]
    simp only [any_map]
    exact congrArg targets.zipIdx.any (funext fun q =>
      failed_deliverToTarget (⟨q.1, targets, ans.targets q.2⟩ : Visit))

theorem failed_deliverLocal (ans : SubmitAnswers) (peer : Option Str) (loc : List Str) (data : Str) :
    (deliverLocal p u ans peer sender loc data).failed = localFails p u ans peer loc data := by
  unfold deliverLocal localFails
  split_ifs with hloc
  · rw [hloc]
    rfl
  · rw [show loc.isEmpty = false by simpa using hloc]
    refine (Attempt.failed_bind fun _ _ => ?_).trans (congrArg (· || _) ?_)
    · rw [Attempt.failed_mapError, Pipeline.deliver]
      cases prepared p u ans.deliver peer (signed ans.sign data) with
      | error e => rfl
      | ok stored =>
        rw [Attempt.lift_bind_ok rfl, Attempt.failed_each]
        simp only [failed_deliverTo]
    · rw [Attempt.failed_lift, isOk_mapError]

end Visits

/-! ### Submit -/

/-- The visits for all local recipients. -/
def visits (p : Pipeline) (ans : DeliverAnswers) (loc : List Str) : List Visit :=
  loc.zipIdx.flatMap fun (rcpt, i) => rcptVisits p (ans.rcpts i) rcpt

/-- The answers with which nothing fails once something is left behind, and nothing is left out: the first
    visit fails early if at all, no lookup, visit or relay step after it fails, each local recipient
    that is found again has a target, and the queue takes all redirects. -/
structure Steady (p : Pipeline) (u : Unicode) (ans : SubmitAnswers) (loc relay : List Str) (stored raw : Str) :
    Prop where
  first : ∀ v ∈ (visits p ans.deliver loc).head?, FailsEarly p u stored v
  later : ∀ v ∈ (visits p ans.deliver loc).tail, fails p u stored raw v = false
  lookups : ∀ q ∈ loc.zipIdx.tail, (resolve p (ans.deliver.rcpts q.2) q.1).isOk = true
  relay : relay ≠ [] → ans.closeBody.isOk = true ∧
    (loc ≠ [] → ans.readSubject.isOk = true ∧ ans.openBody.isOk = true ∧ ans.submit.isOk = true)
  targets : ∀ q ∈ loc.zipIdx, resolve p (ans.deliver.rcpts q.2) q.1 ≠ .ok []
  taken : ∀ v ∈ visits p ans.deliver loc, v.taken p

section Whole
variable {p : Pipeline} {u : Unicode} {ans : SubmitAnswers} {peer : Option Str} {sender : Str}

theorem failed_spoolRelay {relay : List Str} (hrelay : relay ≠ []) (user : Str) (data : Str) :
    (spoolRelay ans user sender relay data).failed =
      (!ans.readSubject.isOk || (!ans.openBody.isOk || (!ans.submit.isOk || !ans.closeBody.isOk))) := by
  rw [spoolRelay, if_neg hrelay]
  cases ans.readSubject <;> cases ans.openBody <;> cases ans.submit <;> cases ans.closeBody <;> rfl

end Whole

end Mailezine.App
