import Mailezine.Gostd.Strings
import Mailezine.Schemes.Attempt

/-! The outbound SMTP client.

    A server is given by what it does on one connection, command by command. What passes over the
    connection is recorded in order: the replies, and the text of the message with the channel that it
    was written to. Writing a command and reading its reply fail in the same way, so a lost command is
    a reply that is an error. -/

namespace Mailezine.Mailsmtp
open Gostd Schemes

/-! ### Replies and errors -/

/-- A reply: its code and its lines, or the error of the connection. -/
abbrev Reply := Except Str (Int × List Str)

/-- The first digit of a reply code, as `code / 100` gives it. -/
def hundreds (code : Int) : Int := code.tdiv 100

/-- `Response`. -/
structure Response where
  code : Int
  permanent : Bool
  err : Option Str
  deriving DecidableEq

/-- An error: its text, whether it wraps a permanent `ResponseError`, and whether it is `ErrNoTLSUpgrade`. -/
structure Failure where
  text : Str
  permanent : Bool := false
  noTLSUpgrade : Bool := false
  deriving DecidableEq

/-- The text of a `ResponseError`. -/
def Response.text (r : Response) : Str :=
  ascii "mailsmtp: smtp " ++ decimal r.code ++ (match r.err with | some e => ascii ": " ++ e | none => [])

/-- The response that a refusal makes. -/
def refusal (code : Int) (lines : List Str) : Response := ⟨code, hundreds code = 5, some (join (ascii "; ") lines)⟩

/-- `&ResponseError{...}`. -/
def Response.failure (r : Response) : Failure := ⟨r.text, r.permanent, false⟩

def errNoTLSUpgrade : Failure := { text := ascii "mailsmtp: opportunistic starttls failed", noTLSUpgrade := true }

/-- `fmt.Errorf("...: %w", err)`. -/
def Failure.wrap (text : Str) (f : Failure) : Failure := { f with text := text ++ f.text }

/-! ### Connections -/

inductive TLSMode where
  | opportunistic | required
  deriving DecidableEq

/-- `maildns.TLSA`. -/
structure TLSA where
  usage : UInt8
  selector : UInt8
  matchingType : UInt8
  cert : Str
  deriving DecidableEq

/-- What protects a connection: nothing; TLS with a certificate that was verified for the name; TLS with a
    certificate that `VerifyDANE` found to match one of the records. -/
inductive Channel where
  | plain
  | verified (name : Str)
  | pinned (name : Str) (records : List TLSA)
  deriving DecidableEq

/-- The commands that are about a transaction as a whole. -/
inductive Cmd where
  | greeting | ehlo | starttls | auth
  | mail (path : Str)
  deriving DecidableEq

/-- What passes over a connection; a recipient is named by its position. -/
inductive Exchange where
  | session (cmd : Cmd) (reply : Reply)
  | rcpt (i : Nat) (path : Str) (reply : Reply)
  | data (reply : Reply)
  | body (channel : Channel) (text : Str) (written : Except Str Unit)
  | finish (reply : Reply)
  | rset
  deriving DecidableEq

/-- What a server does on one connection. Of its certificate, `certified` is what `crypto/tls` says when it
    verifies it for a name and `dane` is what `VerifyDANE` says. -/
structure Peer where
  dial : Except Str Unit := .ok ()
  greeting : Reply := .ok (220, [])
  ehlo : Reply := .ok (250, [])
  starttls : Reply := .ok (220, [])
  handshake : Except Str Unit := .ok ()
  certified : Str → Except Str Unit := fun _ => .ok ()
  dane : List TLSA → Str → Except Str Unit := fun _ _ => .ok ()
  ehloTLS : Reply := .ok (250, [])
  auth : Reply := .ok (235, [])
  mail : Reply := .ok (250, [])
  rcpt : Nat → Reply := fun _ => .ok (250, [])
  data : Reply := .ok (354, [])
  write : Except Str Unit := .ok ()
  finish : Reply := .ok (250, [])

/-- The parts of `Capabilities` that are read. -/
structure Capabilities where
  auth : List Str := []
  startTLS : Bool := false

/-- `parseEHLO`. -/
def parseEHLO (lines : List Str) : Capabilities :=
  lines.foldl (fun c line =>
    match fields line with
    | [] => c
    | key :: args =>
      if toUpper key = ascii "STARTTLS" then { c with startTLS := true }
      else if toUpper key = ascii "AUTH" then { c with auth := c.auth ++ args }
      else c) {}

/-- `AdvertisesAuth`. -/
def Capabilities.advertisesAuth (c : Capabilities) (mech : Str) : Bool := c.auth.any (equalFold · mech)

/-- `Client`. -/
structure Client where
  host : Str
  channel : Channel := .plain
  cap : Capabilities := {}
  greeted : Bool := false

/-- `TLSEnabled`. -/
def Client.tlsEnabled (c : Client) : Bool := c.channel ≠ .plain

/-- `strings.TrimSuffix(s, ".")`. -/
def trimDot (s : Str) : Str := if s.getLast? = some 0x2e then s.dropLast else s

/-- A step that can fail, with what passes over the connection. -/
abbrev Dialogue := Attempt Exchange Failure

/-- Send a command and take the reply. -/
def ask (e : Reply → Exchange) (reply : Reply) : Dialogue (Int × List Str) :=
  ⟨[e reply], reply.mapError fun err => { text := err }⟩

/-- End with an error. -/
def fail {α : Type} (f : Failure) : Dialogue α := .lift (.error f)

/-- A command that has to be answered with 2xx. -/
def command (e : Reply → Exchange) (reply : Reply) : Dialogue (List Str) := do
  let (code, lines) ← ask e reply
  if hundreds code ≠ 2 then fail (refusal code lines).failure else pure lines

/-- `ehlo`. -/
def Client.ehlo (c : Client) (reply : Reply) : Dialogue Client := do
  let lines ← command (.session .ehlo) reply
  pure { c with greeted := true, cap := parseEHLO lines }

/-- The TLS handshake: with TLSA records the certificate is checked against them and not by `crypto/tls`. -/
def Client.handshake (c : Client) (peer : Peer) (dane : List TLSA) : Except Failure Channel :=
  let text := ascii "mailsmtp: starttls with " ++ c.host ++ ascii ": "
  match peer.handshake with
  | .error err => .error { text := text ++ err }
  | .ok _ =>
    if dane = [] then
      match peer.certified c.host with
      | .error err => .error { text := text ++ err }
      | .ok _ => .ok (.verified c.host)
    else match peer.dane dane c.host with
      | .error err => .error { text := err }
      | .ok _ => .ok (.pinned c.host dane)

/-- `startTLS`. -/
def Client.startTLS (c : Client) (peer : Peer) (dane : List TLSA) : Dialogue Client := do
  let _ ← command (.session .starttls) peer.starttls
  let channel ← Attempt.lift (c.handshake peer dane)
  { c with channel := channel }.ehlo peer.ehloTLS

/-- `Greet`. -/
def Client.greet (c : Client) (peer : Peer) (mode : TLSMode) (dane : List TLSA) (noTLS : Bool) :
    Dialogue Client := do
  let _ ← command (.session .greeting) peer.greeting
  let c ← c.ehlo peer.ehlo
  if noTLS then
    if mode = .required then
      fail { text := ascii "mailsmtp: " ++ c.host ++ ascii ": plaintext fallback cannot satisfy required TLS" }
    else pure c
  else if mode = .required ∧ !c.cap.startTLS then
    fail { text := ascii "mailsmtp: " ++ c.host ++ ascii " does not offer STARTTLS (required)" }
  else if c.cap.startTLS then
    (c.startTLS peer dane).mapError fun f => if mode = .opportunistic then errNoTLSUpgrade else f
  else pure c

/-- `AuthPlain`. -/
def Client.authPlain (c : Client) (peer : Peer) : Dialogue Unit :=
  if !c.cap.advertisesAuth (ascii "PLAIN") then
    fail { text := ascii "mailsmtp: " ++ c.host ++ ascii " does not advertise AUTH PLAIN" }
  else do
    let (code, lines) ← ask (.session .auth) peer.auth
    if code ≠ 235 then fail (refusal code lines).failure else pure ()

/-! ### The message -/

/-- `sanitizePath`. -/
def sanitizePath (addr : Str) : Str :=
  let edge : UInt8 → Bool := fun b => b = 0x3c || b = 0x3e || b = 0x20
  (((addr.filter fun b => b ≠ 0x0d && b ≠ 0x0a).dropWhile edge).reverse.dropWhile edge).reverse

/-- The message with an end of line at its end. -/
def terminated (body : Str) : Str :=
  if body = [] then [0x0d, 0x0a]
  else if [0x0d, 0x0a].isSuffixOf body then body
  else if [0x0a].isSuffixOf body then body ++ [0x0a]
  else body ++ [0x0d, 0x0a]

/-- Double the dot at the start of a line. -/
def dotStuff : Bool → Str → Str
  | _, [] => []
  | start, b :: r => (if start ∧ b = 0x2e then [0x2e] else []) ++ b :: dotStuff (b = 0x0a) r

/-- The bytes of `writeData`. -/
def wireText (body : Str) : Str := dotStuff true (terminated body) ++ [0x2e, 0x0d, 0x0a]

/-- The response to one RCPT. -/
def rcptResponse (code : Int) (lines : List Str) : Response :=
  if hundreds code ≠ 2 then refusal code lines else ⟨code, hundreds code = 5, none⟩

/-- The RCPT commands, from position `i` on. -/
def rcptAll (peer : Peer) : Nat → List Str → Dialogue (List Response)
  | _, [] => pure []
  | i, rcpt :: rest => do
    let (code, lines) ← ask (.rcpt i (sanitizePath rcpt)) (peer.rcpt i)
    let responses ← rcptAll peer (i + 1) rest
    pure (rcptResponse code lines :: responses)

/-- A recipient that was accepted at RCPT. -/
def Response.accepted (r : Response) : Bool := hundreds r.code = 2

/-- Give the recipients that were accepted another response. -/
def overrule (r' : Response) (responses : List Response) : List Response :=
  responses.map fun r => if r.accepted then r' else r

/-- `writeData`. -/
def Client.writeData (c : Client) (peer : Peer) (body : Str) : Dialogue Unit :=
  ⟨[.body c.channel (wireText body) peer.write], peer.write.mapError fun err => { text := err }⟩

/-- `Deliver` after the RCPT commands, when a recipient was accepted. -/
def Client.transmit (c : Client) (peer : Peer) (body : Str) (responses : List Response) :
    Dialogue (List Response) := do
  let (code, lines) ← ask .data peer.data
  if code ≠ 354 then do
    Attempt.emit [.rset]
    pure (overrule (refusal code lines) responses)
  else do
    c.writeData peer body
    let (code, lines) ← ask .finish peer.finish
    pure (if hundreds code ≠ 2 then overrule (refusal code lines) responses else responses)

/-- `Deliver` after MAIL. -/
def Client.envelope (c : Client) (peer : Peer) (rcpts : List Str) (body : Str) : Dialogue (List Response) := do
  let responses ← rcptAll peer 0 rcpts
  if !responses.any (·.accepted) then do
    Attempt.emit [.rset]
    pure responses
  else c.transmit peer body responses

/-- `Deliver`. -/
def Client.deliver (c : Client) (peer : Peer) (sender : Str) (rcpts : List Str) (body : Str) :
    Dialogue (List Response) :=
  if !c.greeted then fail { text := ascii "mailsmtp: Deliver before Greet" }
  else if rcpts = [] then pure []
  else do
    let _ ← command (.session (.mail (sanitizePath sender))) peer.mail
    c.envelope peer rcpts body

end Mailezine.Mailsmtp
