import Mailezine.Delivery.Pipeline

/-! The Submit handler behind SMTP DATA: local recipients go through the delivery pipeline, the others to
    the outbound queue, in one message. -/

namespace Mailezine.App
open Gostd Schemes Delivery

/-- What the handler can fail with. -/
inductive Error where
  | outclean (err : Str)
  | relayDisabled (rcpt : Str)
  | buffer (err : Str)
  | delivery (err : Delivery.Error)
  | queue (err : Str)
  deriving DecidableEq

/-- The answers that one call of the handler can ask for. -/
structure SubmitAnswers where
  /-- `cleanOutbound`: the message without internal headers. -/
  clean : Except Str Str
  /-- The targets of each envelope recipient. -/
  aliases : Nat → Except Fault (List Str)
  readAll : Except Str Unit := .ok ()
  /-- The signature, when there is a signer. -/
  sign : Option (Except Str Str) := none
  deliver : DeliverAnswers := {}
  srsForward : Except Fault Str := .error .notFound
  /-- Whether the buffer can be read for the subject and opened for the queue. -/
  readSubject : Except Str Unit := .ok ()
  openBody : Except Str Unit := .ok ()
  submit : Except Str Unit := .ok ()
  closeBody : Except Str Unit := .ok ()

/-- The recipients that are delivered here and those that are relayed; without a queue a recipient that
    cannot be resolved is refused. -/
def splitRcpts (queue : Bool) (aliases : Nat → Except Fault (List Str)) :
    Nat → List Str → Except Error (List Str × List Str)
  | _, [] => .ok ([], [])
  | i, rcpt :: rest =>
    match aliases i with
    | .ok (_ :: _) => (splitRcpts queue aliases (i + 1) rest).map fun (loc, relay) => (rcpt :: loc, relay)
    | _ =>
      if queue then (splitRcpts queue aliases (i + 1) rest).map fun (loc, relay) => (loc, rcpt :: relay)
      else .error (.relayDisabled rcpt)

/-- A lookup that gave targets. -/
def found (answer : Except Fault (List Str)) : Bool :=
  match answer with
  | .ok (_ :: _) => true
  | _ => false

/-- What becomes of the first recipient. -/
theorem splitRcpts_cons {queue : Bool} {aliases : Nat → Except Fault (List Str)} {r : Str} {rest : List Str}
    {i : Nat} {loc relay : List Str} (h : splitRcpts queue aliases i (r :: rest) = .ok (loc, relay)) :
    ∃ l l', splitRcpts queue aliases (i + 1) rest = .ok (l, l') ∧
      (found (aliases i) = true ∧ loc = r :: l ∧ relay = l' ∨
        found (aliases i) = false ∧ queue = true ∧ loc = l ∧ relay = r :: l') := by
  have hmap : ∀ {f : List Str × List Str → List Str × List Str},
      (splitRcpts queue aliases (i + 1) rest).map f = .ok (loc, relay) →
      ∃ l l', splitRcpts queue aliases (i + 1) rest = .ok (l, l') ∧ f (l, l') = (loc, relay) := by
    intro f h
    cases hs : splitRcpts queue aliases (i + 1) rest with
    | error e => rw [hs] at h; cases h
    | ok q => rw [hs] at h; exact ⟨q.1, q.2, rfl, Except.ok.inj h⟩
  rw [splitRcpts] at h
  split at h
  case h_1 hans =>
    obtain ⟨l, l', hs, he⟩ := hmap h
    cases he
    exact ⟨_, _, hs, .inl ⟨by rw [hans]; rfl, rfl, rfl⟩⟩
  case h_2 hans =>
    have hnot : found (aliases i) = false := by
      unfold found
      split
      case h_1 targets hal => exact absurd hal (hans _ _)
      case h_2 => rfl
    split_ifs at h with hq
    · obtain ⟨l, l', hs, he⟩ := hmap h
      cases he
      exact ⟨_, _, hs, .inr ⟨hnot, hq, rfl, rfl⟩⟩

/-- The first Subject header, looked for line by line up to the end of the headers. -/
def subjectOf : List Str → Str
  | [] => []
  | line :: rest =>
    let line := trimCRLF line
    if line = [] then []
    else if (ascii "Subject:").isPrefixOf line then trimSpace (line.drop 8)
    else subjectOf rest

/-- The envelope sender of a relayed message. -/
def relaySender (user sender : Str) (srsForward : Except Fault Str) : Str :=
  if user = [] ∨ user ≠ sender then
    match srsForward with
    | .ok rewritten => if rewritten = [] then sender else rewritten
    | .error _ => sender
  else sender

/-- The message as it is delivered here: signed when there is a signer that works. -/
def signed (sign : Option (Except Str Str)) (data : Str) : Str :=
  match sign with
  | some (.ok data') => data'
  | _ => data

/-- The local part of the handler. -/
def deliverLocal (p : Pipeline) (u : Unicode) (ans : SubmitAnswers) (peer : Option Str) (sender : Str)
    (loc : List Str) (data : Str) : Attempt Event Error Unit :=
  if loc = [] then pure ()
  else do
    Attempt.lift (ans.readAll.mapError .buffer)
    (p.deliver u ans.deliver peer sender loc (signed ans.sign data)).mapError .delivery

/-- The relay part of the handler. -/
def spoolRelay (ans : SubmitAnswers) (user sender : Str) (relay : List Str) (data : Str) :
    Attempt Event Error Unit :=
  if relay = [] then pure ()
  else do
    Attempt.lift (ans.readSubject.mapError .buffer)
    Attempt.lift (ans.openBody.mapError .buffer)
    Attempt.call (.spooled (relaySender user sender ans.srsForward) relay (subjectOf (split [0x0a] data)) data)
      false (ans.submit.mapError .queue)
    Attempt.lift (ans.closeBody.mapError .buffer)

/-- The handler that `newSubmit` makes. -/
def submit (p : Pipeline) (queue : Bool) (u : Unicode) (ans : SubmitAnswers) (peer : Option Str)
    (user sender : Str) (rcpts : List Str) : Attempt Event Error Unit := do
  let data ← Attempt.lift (ans.clean.mapError .outclean)
  let (loc, relay) ← Attempt.lift (splitRcpts queue ans.aliases 0 rcpts)
  deliverLocal p u ans peer sender loc data
  spoolRelay ans user sender relay data

end Mailezine.App
