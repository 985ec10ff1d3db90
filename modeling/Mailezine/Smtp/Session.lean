import Mailezine.App.Submit
import Mailezine.Directory.Mailez

/-! The SMTP session: the calls that the protocol layer makes on it, in any order.

    Every call comes with what the services say at its time. A call that fails leaves the session as it
    was. What a call asked and what it was told is kept, and so is what it handed to Submit. -/

namespace Mailezine.Smtp
open Gostd Schemes Delivery Directory

/-- The settings of a listener. -/
structure Backend where
  requireAuth : Bool := false
  allowRelay : Bool := false
  recipientDelimiter : Str := []
  maxRecipients : Nat := 100
  /-- `strings.EqualFold`. -/
  equalFold : Str → Str → Bool := Gostd.equalFold

/-- The session; `sender` and `rcpts` are the envelope so far. -/
structure Session where
  trusted : Bool := false
  user : Str := []
  sender : Str := []
  rcpts : List Str := []
  deriving DecidableEq

/-- A reply of the server. -/
structure Reply where
  code : Nat
  enhanced : Nat × Nat × Nat := (0, 0, 0)
  message : Str
  deriving DecidableEq

/-- What a call can fail with. -/
inductive Error where
  | smtp (reply : Reply)
  | unsupportedMechanism (mech : Str)
  | invalidCredentials
  | auth (err : Str)
  deriving DecidableEq

/-- What a call does outside the session: a login, a question to the directory with the answer, and a
    message for Submit with what came of it. -/
inductive Event where
  | authenticated (user : Str)
  | sender (user email : Str) (answer : Except Fault Sender)
  | aliases (rcpt : Str) (answer : Except Fault (List Str))
  | submitted (user sender : Str) (rcpts : List Str) (data : Str) (effects : List Delivery.Event)
  deriving DecidableEq

/-- Refuse with a reply. -/
def refuse {α : Type} (code : Nat) (enhanced : Nat × Nat × Nat) (message : String) : Attempt Event Error α :=
  .lift (.error (.smtp ⟨code, enhanced, ascii message⟩))

@[simp] theorem failed_refuse {α : Type} (code : Nat) (enhanced : Nat × Nat × Nat) (message : String) :
    (refuse code enhanced message : Attempt Event Error α).failed = true := rfl

@[simp] theorem events_refuse {α : Type} (code : Nat) (enhanced : Nat × Nat × Nat) (message : String) :
    (refuse code enhanced message : Attempt Event Error α).events = [] := rfl

/-! ### AUTH -/

/-- `Auth` with the exchange of PLAIN; `answer` is what the auth service says. -/
def Session.auth (s : Session) (mech username : Str) (answer : Except Str Bool) : Attempt Event Error Session :=
  if !equalFold mech (ascii "PLAIN") then .lift (.error (.unsupportedMechanism mech))
  else match answer with
    | .error err => .lift (.error (.auth err))
    | .ok false => .lift (.error .invalidCredentials)
    | .ok true => do
      Attempt.emit [.authenticated username]
      pure { s with user := username, trusted := true }

/-! ### MAIL -/

/-- The limit on the rate of trusted sessions. -/
def checkRate (s : Session) (sender : Str) (dir : Service) : Attempt Event Error Unit :=
  if s.trusted then
    match dir.senderRate sender with
    | .error .notFound => pure ()
    | .error _ => refuse 451 (0, 0, 0) "temporary directory failure"
    | .ok rate =>
      if rate.allowed then pure ()
      else if rate.reason = [] then refuse 550 (5, 7, 1) "rate limit exceeded"
      else .lift (.error (.smtp ⟨550, (5, 7, 1), rate.reason⟩))
  else pure ()

/-- Whether an answer of the directory lets a user send as the address. -/
def permits (b : Backend) (sender : Str) (ans : Sender) : Bool :=
  ans.allowed && (ans.addresses.isEmpty || ans.addresses.any (b.equalFold · sender))

/-- The identity of an authenticated sender. -/
def checkSender (b : Backend) (s : Session) (sender : Str) (dir : Service) : Attempt Event Error Unit :=
  if s.user ≠ [] then do
    Attempt.emit [.sender s.user sender (dir.sender s.user sender)]
    match dir.sender s.user sender with
    | .ok ans =>
      if permits b sender ans then pure ()
      else if ans.allowed then refuse 550 (5, 7, 1) "sender address not allowed"
      else refuse 550 (5, 7, 1) "sender not allowed"
    | .error .notFound => refuse 550 (5, 7, 1) "sender address not allowed"
    | .error _ => refuse 451 (0, 0, 0) "temporary directory failure"
  else pure ()

/-- `Mail`. -/
def Session.mail (b : Backend) (s : Session) (sender : Str) (dir : Service) : Attempt Event Error Session := do
  if sender ≠ [] ∧ 0x40 ∉ sender then refuse 501 (0, 0, 0) "syntax error in MAIL FROM"
  else if b.requireAuth ∧ !s.trusted then refuse 530 (5, 7, 0) "authentication required"
  else do
    checkRate s sender dir
    checkSender b s sender dir
    pure { s with sender := sender, rcpts := [] }

/-! ### RCPT -/

/-- The recipient behind an SRS0 address, when the directory knows it. -/
def restore (dir : Service) (addr : Str) : Str :=
  if (ascii "SRS0=").isPrefixOf addr then
    match dir.srsRestore addr with
    | .ok restored => if restored = [] then addr else restored
    | .error _ => addr
  else addr

/-- Put a recipient into the envelope. -/
def Session.accept (s : Session) (rcpt : Str) : Session := { s with rcpts := s.rcpts ++ [rcpt] }

/-- A recipient that the directory does not know goes to the relay of trusted sessions. -/
def Session.relay (b : Backend) (s : Session) (rcpt : Str) : Attempt Event Error Session :=
  if b.allowRelay ∧ s.trusted then pure (s.accept rcpt)
  else refuse 550 (5, 7, 1) "relay access denied"

/-- `Rcpt`: an address that is not known is tried without its detail before it is relayed. -/
def Session.rcpt (b : Backend) (s : Session) (addr : Str) (dir : Service) : Attempt Event Error Session :=
  if b.maxRecipients ≤ s.rcpts.length then refuse 552 (0, 0, 0) "too many recipients"
  else if addr = [] ∨ 0x40 ∉ addr then refuse 501 (0, 0, 0) "syntax error in RCPT TO"
  else do
    let rcpt := restore dir addr
    Attempt.emit [.aliases rcpt (dir.aliases rcpt)]
    match dir.aliases rcpt with
    | .ok _ => pure (s.accept rcpt)
    | .error .notFound =>
      match splitDelimited rcpt b.recipientDelimiter with
      | some base =>
        Attempt.emit [.aliases base (dir.aliases base)]
        match dir.aliases base with
        | .ok _ => pure (s.accept base)
        | .error _ => s.relay b rcpt
      | none => s.relay b rcpt
    | .error _ => refuse 451 (0, 0, 0) "temporary directory failure"

/-! ### DATA -/

/-- Why the message cannot be read. -/
inductive ReadError where
  | tooLarge
  | tooLongLine
  | other
  deriving DecidableEq

def ReadError.refusal : ReadError → Attempt Event Error Str
  | .tooLarge => refuse 552 (0, 0, 0) "message exceeds size limit"
  | .tooLongLine => refuse 554 (0, 0, 0) "line too long"
  | .other => refuse 451 (0, 0, 0) "error reading message"

/-- The reply to a message that Submit did not take. -/
def submitReply : App.Error → Reply
  | .delivery .reject => ⟨554, (0, 0, 0), ascii "message rejected by policy"⟩
  | .delivery (.sieveReject _) => ⟨550, (5, 7, 0), ascii "message rejected by recipient policy"⟩
  | .delivery .quota => ⟨552, (5, 2, 2), ascii "mailbox full"⟩
  | .delivery .greylist | .delivery .softReject => ⟨451, (0, 0, 0), ascii "try again later"⟩
  | _ => ⟨451, (0, 0, 0), ascii "temporary delivery failure"⟩

/-- The callback for a message: what it does with the user, the envelope and the text. -/
abbrev Submit := Str → Str → List Str → Str → Attempt Delivery.Event App.Error Unit

/-- `Data`. -/
def Session.data (s : Session) (submit : Option Submit) (body : Except ReadError Str) :
    Attempt Event Error Unit :=
  if s.rcpts = [] then refuse 503 (0, 0, 0) "no valid recipients"
  else match submit with
    | none => refuse 451 (0, 0, 0) "delivery not configured"
    | some submit => do
      let data ← match body with
        | .ok data => pure data
        | .error err => err.refusal
      let done := submit s.user s.sender s.rcpts data
      Attempt.emit [.submitted s.user s.sender s.rcpts data done.events]
      Attempt.lift (done.result.mapError fun err => .smtp (submitReply err))

/-- A message that can be read goes to Submit once. -/
theorem Session.data_eq {s : Session} (h : s.rcpts ≠ []) (submit : Submit) (data : Str) :
    s.data (some submit) (.ok data) =
      ⟨[.submitted s.user s.sender s.rcpts data (submit s.user s.sender s.rcpts data).events],
        (submit s.user s.sender s.rcpts data).result.mapError fun err => .smtp (submitReply err)⟩ := by
  unfold Session.data
  rw [if_neg h]
  rfl

/-! ### Calls -/

/-- A call on the session, with what the services say at its time. -/
inductive Call where
  | auth (mech username : Str) (answer : Except Str Bool)
  | mail (sender : Str) (dir : Service)
  | rcpt (addr : Str) (dir : Service)
  | data (submit : Option Submit) (body : Except ReadError Str)
  | reset

/-- What a call does; it ends in the session after it. -/
def Session.call (b : Backend) (s : Session) : Call → Attempt Event Error Session
  | .auth mech username answer => s.auth mech username answer
  | .mail sender dir => s.mail b sender dir
  | .rcpt addr dir => s.rcpt b addr dir
  | .data submit body => do
    s.data submit body
    pure s
  | .reset => pure { s with sender := [], rcpts := [] }

/-- The session after an attempt. -/
def Session.after (s : Session) (a : Attempt Event Error Session) : Session :=
  match a.result with
  | .ok s' => s'
  | .error _ => s

theorem Session.after_ok {s s' : Session} {a : Attempt Event Error Session} (h : a.result = .ok s') :
    s.after a = s' := by
  simp only [Session.after, h]

theorem Session.after_error {s : Session} {a : Attempt Event Error Session} {e : Error} (h : a.result = .error e) :
    s.after a = s := by
  simp only [Session.after, h]

/-- The session after a call. -/
def Session.step (b : Backend) (s : Session) (c : Call) : Session := s.after (s.call b c)

end Mailezine.Smtp
