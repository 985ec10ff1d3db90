import Mathlib.Data.List.Perm.Basic
import Mailezine.Delivery.Pipeline

/-! Visits of the pipeline: what the delivery to one target was asked for and what it leaves behind. -/

namespace Mailezine.Delivery
open Gostd Schemes List

/-- One call of `deliverToTarget`. -/
structure Visit where
  target : Str
  targets : List Str
  ans : TargetAnswers

/-- The visits for a recipient. -/
def rcptVisits (p : Pipeline) (ans : RcptAnswers) (rcpt : Str) : List Visit :=
  match resolve p ans rcpt with
  | .error _ => []
  | .ok targets => targets.zipIdx.map fun (target, j) => ⟨target, targets, ans.targets j⟩

/-- The loop of `deliverToTarget` over its mailboxes. -/
abbrev storeLoop (ans : TargetAnswers) (target : Str) (copy : Copy) (l : List (Str × Nat)) :
    Attempt Event Error Unit :=
  Attempt.each (fun (name, i) => Attempt.call (.stored target (normalizeMailboxName name) copy) (ans.late i)
    ((ans.deliver i).mapError (.store target (normalizeMailboxName name)))) l

/-- The copies of a visit. -/
def Visit.copies (u : Unicode) (sender stored : Str) (v : Visit) (mailboxes : List Str) (res : Sieve.Result) :
    List Event :=
  mailboxes.map fun name => .stored v.target (normalizeMailboxName name)
    ⟨sender, v.targets, applyHeaderEdits u stored res, res.flags, v.ans.now⟩

/-- What the script of a visit asks for: its redirects and its copies. -/
def Visit.asked (p : Pipeline) (u : Unicode) (sender stored : Str) (v : Visit) : List Event :=
  match decision p v.ans with
  | .deliver mailboxes res =>
    res.redirects.map (fun addr => .redirected sender addr stored) ++ v.copies u sender stored mailboxes res
  | _ => []

/-- The queue takes all redirects of a visit. -/
def Visit.taken (p : Pipeline) (v : Visit) : Prop :=
  ∀ mailboxes res, decision p v.ans = .deliver mailboxes res →
    ∀ q ∈ res.redirects.zipIdx, p.redirect = true ∧ (v.ans.redirect q.2).isOk = true

/-- What a visit that does not fail leaves behind. -/
def Visit.done (p : Pipeline) (u : Unicode) (sender stored : Str) (v : Visit) : List Event :=
  match decision p v.ans with
  | .deliver mailboxes res =>
    redirects p v.ans sender stored res ++
      (res.vacation.map (sendVacation p u v.ans.vacation v.target sender stored)).getD [] ++
      v.copies u sender stored mailboxes res
  | _ => []

variable (sender stored : Str)

section Visits
variable {p : Pipeline} {u : Unicode}

theorem events_deliverToTarget {sender stored raw : Str} {v : Visit}
    (h : (deliverToTarget p u v.ans v.target sender v.targets stored raw).failed = false) :
    (deliverToTarget p u v.ans v.target sender v.targets stored raw).events = v.done p u sender stored := by
  obtain ⟨_, -, h, hev⟩ := Attempt.ok_of_lift_bind h
  refine hev.trans ?_
  unfold Visit.done
  cases hd : decision p v.ans with
  | discard => rfl
  | reject reason => simp only [hd] at h; cases h
  | deliver mailboxes res =>
    simp only [hd] at h ⊢
    obtain ⟨_, -, h, hev⟩ := Attempt.ok_of_bind h
    obtain ⟨_, -, h, hev'⟩ := Attempt.ok_of_lift_bind h
    obtain ⟨hcopies, hall⟩ := Attempt.events_each h
    have hcall : ∀ q ∈ mailboxes.zipIdx, _ = _ := fun q hq => Attempt.events_call (hall q hq)
    rw [hev, hev', hcopies, flatMap_congr hcall, ← map_eq_flatMap]
    change _ ++ _ = _
    rw [Visit.copies]
    conv_rhs => rw [← zipIdx_map_fst 0 mailboxes, List.map_map]
    rfl

theorem map_redirected (l : List Str) : (l.zipIdx.map fun q => Event.redirected sender q.1 stored) =
      l.map fun addr => .redirected sender addr stored := by
  conv_rhs => rw [← zipIdx_map_fst 0 l, List.map_map]
  rfl

/-- The redirects that the queue takes are some of those asked for. -/
theorem redirects_sublist (ans : TargetAnswers) (sender stored : Str) (res : Sieve.Result) :
    (redirects p ans sender stored res).Sublist
      (res.redirects.map fun addr => .redirected sender addr stored) := by
  unfold redirects
  split
  · rw [← map_redirected]
    refine filterMap_sublist_map fun q _ => ?_
    dsimp only
    cases ans.redirect q.2 with
    | ok => exact .inr rfl
    | error => exact .inl rfl
  · exact nil_sublist _

theorem redirects_eq_iff (ans : TargetAnswers) (sender stored : Str) (res : Sieve.Result) :
    (redirects p ans sender stored res = res.redirects.map fun addr => .redirected sender addr stored) ↔
      ∀ q ∈ res.redirects.zipIdx, p.redirect = true ∧ (ans.redirect q.2).isOk = true := by
  unfold redirects
  split
  case isTrue hp =>
    rw [← map_redirected, filterMap_eq_map_iff_forall_eq_some]
    refine forall₂_congr fun q _ => ?_
    dsimp only
    cases ans.redirect q.2 <;> simp [hp, Except.isOk, Except.toBool]
  case isFalse hp =>
    cases hl : res.redirects with
    | nil => simp
    | cons a l =>
      refine ⟨by simp, fun h => absurd (h (a, 0) ?_).1 hp⟩
      simp [zipIdx_cons]

/-- Whether an event is an automatic reply. -/
def isReply : Event → Bool
  | .replied .. => true
  | _ => false

theorem isReply_sendVacation (ans : VacationAnswers) (account sender data : Str) (v : Sieve.Vacation) :
    ∀ e ∈ sendVacation p u ans account sender data v, isReply e = true := by
  intro e he
  simp only [sendVacation, mem_ite_nil_left] at he
  obtain ⟨-, he⟩ := he
  cases hs : ans.send <;> rw [hs] at he
  · cases he
  · rw [mem_singleton.mp he]
    rfl

end Visits

end Mailezine.Delivery
