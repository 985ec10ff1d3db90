import Mailezine.Delivery.Pipeline

/-! The directory, and the client that asks the control plane.

    A lookup is answered from a cache or by up to three HTTP requests. Only a 404 means that the
    directory has nothing; a request that is lost and a gateway's 502, 503 or 504 are tried again, and
    every other status is an error of its own. -/

namespace Mailezine.Directory
open Gostd Delivery

/-- Whether a user may send as an address, and the addresses that are allowed. -/
structure Sender where
  allowed : Bool
  addresses : List Str := []
  deriving DecidableEq

/-- Whether a sender may send more. -/
structure SenderRate where
  allowed : Bool
  reason : Str := []
  deriving DecidableEq

/-- What the directory says at one time to the questions of an SMTP session. -/
structure Service where
  senderRate : Str → Except Fault SenderRate := fun _ => .error .notFound
  sender : Str → Str → Except Fault Sender := fun _ _ => .error .notFound
  srsRestore : Str → Except Fault Str := fun _ => .error .notFound
  aliases : Str → Except Fault (List Str) := fun _ => .error .notFound

/-! ### The client -/

/-- What becomes of one HTTP request: no response, or a status with the decoded body. -/
inductive Response where
  | lost (err : Str)
  | status (code : Nat) (body : Str) (targets : Except Str (List Str))
  deriving DecidableEq

/-- One request of `getJSONWithUser`: whether it may be tried again, and its outcome. -/
def attempt (path : Str) : Response → Bool × Except Fault (List Str)
  | .lost err => (true, .error (.other err))
  | .status code body targets =>
    let text := ascii "directory: " ++ path ++ ascii ": status " ++ decimalNat code
    if code = 404 then (false, .error .notFound)
    else if code = 503 ∨ code = 502 ∨ code = 504 then (true, .error (.other text))
    else if code ≠ 200 then (false, .error (.other (text ++ ascii ": " ++ body)))
    else (false, targets.mapError fun err => .other (ascii "directory: decode " ++ path ++ ascii ": " ++ err))

/-- `stackhttp.Retry`: `left` more requests, the next with number `i`. Before all but the first it waits,
    and meanwhile the context can be cancelled. -/
def retry (path : Str) (net : Nat → Response) (cancelled : Nat → Option Str) :
    Nat → Nat → Except Fault (List Str) → Except Fault (List Str)
  | 0, _, last => last
  | left + 1, i, _ =>
    match (if i = 0 then none else cancelled i) with
    | some err => .error (.other err)
    | none =>
      match attempt path (net i) with
      | (_, .ok targets) => .ok targets
      | (true, .error err) => retry path net cancelled left (i + 1) (.error err)
      | (false, .error err) => .error err

def getJSON (path : Str) (net : Nat → Response) (cancelled : Nat → Option Str) : Except Fault (List Str) :=
  retry path net cancelled 3 0 (.ok [])

/-- `Mailez.Aliases`: the answer, and what is put into the cache; a hit without targets means that the
    address is known to be absent. -/
def aliases (path : Str) (cached : Option (Option (List Str))) (net : Nat → Response)
    (cancelled : Nat → Option Str) : Except Fault (List Str) × Option (Option (List Str)) :=
  match cached with
  | some none => (.error .notFound, none)
  | some (some targets) => (.ok targets, none)
  | none =>
    match getJSON path net cancelled with
    | .ok targets => (.ok targets, some (some targets))
    | .error .notFound => (.error .notFound, some none)
    | .error err => (.error err, none)

/-! ### When an address is absent -/

theorem attempt_notFound {path : Str} {r : Response} {b : Bool} (h : attempt path r = (b, .error .notFound)) :
    ∃ body targets, r = .status 404 body targets := by
  cases r with
  | lost err => simp [attempt] at h
  | status code body targets =>
    by_cases hcode : code = 404
    · exact ⟨body, targets, by rw [hcode]⟩
    · cases targets <;> simp only [attempt, hcode, if_false] at h <;> split_ifs at h <;> simp [Except.mapError] at h

theorem retry_notFound {path : Str} {net : Nat → Response} {cancelled : Nat → Option Str} :
    ∀ (left i : Nat) (last : Except Fault (List Str)), last ≠ .error .notFound →
      retry path net cancelled left i last = .error .notFound →
      ∃ j body targets, i ≤ j ∧ j < i + left ∧ net j = .status 404 body targets
  | 0, _, last, hlast, h => absurd h hlast
  | left + 1, i, last, hlast, h => by
    rw [retry] at h
    split at h
    · simp at h
    · rcases hatt : attempt path (net i) with ⟨again, err | targets⟩
      · rw [hatt] at h
        by_cases hnf : err = .notFound
        · obtain ⟨body, targets, hr⟩ := attempt_notFound (hatt.trans (by rw [hnf]))
          exact ⟨i, body, targets, le_rfl, by omega, hr⟩
        · have herr : (Except.error err : Except Fault (List Str)) ≠ .error .notFound :=
            fun he => hnf (Except.error.inj he)
          cases again with
          | false => exact absurd h herr
          | true =>
            obtain ⟨j, body, targets, hij, hj, hr⟩ := retry_notFound left (i + 1) _ herr h
            exact ⟨j, body, targets, by omega, by omega, hr⟩
      · rw [hatt] at h
        cases again <;> simp at h

/-- A lookup of the client: what the cache holds, what becomes of each request, and when the context is
    cancelled. -/
structure Lookup where
  path : Str
  cached : Option (Option (List Str)) := none
  net : Nat → Response
  cancelled : Nat → Option Str := fun _ => none

def Lookup.answer (l : Lookup) : Except Fault (List Str) := (aliases l.path l.cached l.net l.cancelled).1

/-- The cache knows that the address is absent, or one of the requests was answered with 404. -/
def Lookup.missing (l : Lookup) : Prop :=
  l.cached = some none ∨ l.cached = none ∧ ∃ i < 3, ∃ body targets, l.net i = .status 404 body targets

/-- No failure is taken for an absence. -/
theorem Lookup.missing_of_notFound {l : Lookup} (h : l.answer = .error .notFound) : l.missing := by
  unfold Lookup.answer aliases at h
  match hc : l.cached, h with
  | some none, _ => exact .inl hc
  | some (some targets), h => simp at h
  | none, h =>
    refine .inr ⟨hc, ?_⟩
    have hget : getJSON l.path l.net l.cancelled = .error .notFound := by
      cases hg : getJSON l.path l.net l.cancelled with
      | ok targets => simp [hg] at h
      | error err =>
        cases err with
        | notFound => rfl
        | other text => simp [hg] at h
    obtain ⟨j, body, targets, -, hj, hr⟩ := retry_notFound 3 0 _ (by simp) hget
    exact ⟨j, by omega, body, targets, hr⟩

end Mailezine.Directory
