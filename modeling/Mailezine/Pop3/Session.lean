import Mailezine.Gostd.Strings
import Mathlib.Data.List.Sort

/-! The POP3 session of `internal/pop3`: one connection, its command lines and what the services
    behind it answer.

    `handle` is the dispatcher with every command of the source. The authentication service, the
    directory and the store are seen through the answers they give while one command is handled
    (`Answers`), so a run ranges over all their behaviours. Besides the reply lines a run records
    the logins that succeed and the messages the session counts or shows, opens and deletes. -/

namespace Mailezine.Pop3
open Gostd

/-- One entry of the message list. `owner` is a ghost that no command reads: the account whose INBOX
    listing the entry came from. -/
structure Message where
  uid : Nat
  size : Int
  owner : Str
  deriving DecidableEq

/-- The fields of `session` that commands read and write; `deleted` is the key set of the map. -/
structure Session where
  user : Str := []
  authUser : Str := []
  authed : Bool := false
  tlsUp : Bool := false
  msgs : List Message := []
  deleted : List Nat := []
  deriving DecidableEq

/-- The server's configuration: whether `TLSConfig` is set. -/
structure Server where
  tlsConfig : Bool := false

/-- What the services answer during one command; `none` is an error. -/
structure Answers where
  /-- `Auth.Authenticate` reported success. -/
  authenticate : Str → Str → Bool := fun _ _ => false
  /-- `Directory.User`, with the account's `Enabled` bit. -/
  directoryUser : Str → Option Bool := fun _ => none
  /-- `Store.ListMessages` of the account's INBOX: UIDs and sizes. -/
  listMessages : Str → Option (List (Nat × Int)) := fun _ => none
  /-- `Store.OpenMessage` of a UID of the account's INBOX. -/
  openMessage : Str → Nat → Option Str := fun _ _ => none
  /-- The TLS handshake of STLS. -/
  handshake : Bool := false

/-- What a session does: lines it writes, logins that succeed, message-list entries it counts or
    shows, messages it opens, and the `DeleteUIDs` call of QUIT with the entries marked for it. -/
inductive Event where
  | reply (line : Str)
  | login (account : Str)
  | shows (m : Message)
  | opens (account : Str) (m : Message)
  | deletes (account : Str) (uids : List Nat) (entries : List Message)
  deriving DecidableEq

/-- The outcome of one command; `stop` ends the connection (QUIT, or a read that fails). -/
structure Out where
  ses : Session
  events : List Event
  stop : Bool := false

/-- Answer with one line and leave the session as it is. -/
def Session.say (s : Session) (line : Str) : Out := ⟨s, [.reply line], false⟩

/-! ### Message list -/

/-- `messageAt`: the entry at a 1-based index, unless it is marked deleted. -/
def Session.messageAt (s : Session) (idx : Int) : Option Message :=
  if idx < 1 ∨ idx > s.msgs.length then none
  else (s.msgs[(idx - 1).toNat]?).filter fun m => !s.deleted.contains m.uid

/-- `message`: the entry a command's only argument names. -/
def Session.message (s : Session) (fields : List Str) : Option Message :=
  match fields with
  | [_, arg] => (atoi arg).bind s.messageAt
  | _ => none

/-- `messageIndex`: the first position with this UID, 0 when there is none. -/
def Session.messageIndex (s : Session) (uid : Nat) : Nat :=
  match s.msgs.findIdx? (·.uid = uid) with
  | some i => i + 1
  | none => 0

/-- The entries not marked deleted. -/
def Session.kept (s : Session) : List Message := s.msgs.filter fun m => !s.deleted.contains m.uid

/-- `stats`: how many entries are kept and their total size. -/
def Session.stats (s : Session) : Nat × Int := (s.kept.length, (s.kept.map (·.size)).sum)

/-- Number the entries from 1. -/
def numbered (ms : List Message) : List (Nat × Message) := (ms.zipIdx 1).map fun p => (p.2, p.1)

/-! ### Login -/

/-- `login` with the session's user name; `none` when it fails, which changes nothing. -/
def login (srv : Server) (ans : Answers) (s : Session) (password : Str) : Option Session :=
  if srv.tlsConfig ∧ !s.tlsUp then none
  else if !ans.authenticate s.user password then none
  else if ans.directoryUser s.user ≠ some true then none
  else (ans.listMessages s.user).map fun msgs =>
    -- the listing is appended to what is there; ties of `sort.Slice` come out in list order here
    { s with
      msgs := (s.msgs ++ msgs.map fun m => ⟨m.1, m.2, s.user⟩).insertionSort fun a b => a.uid ≤ b.uid
      deleted := []
      authed := true }

/-- Log in and report the outcome. -/
def tryLogin (srv : Server) (ans : Answers) (s : Session) (password : Str) : Out :=
  match login srv ans s password with
  | some s' => ⟨s', [.login s'.user, .reply (ascii "+OK mailbox locked and ready")], false⟩
  | none => s.say (ascii "-ERR authentication failed")

/-- `authPlain`: [authzid] NUL authcid NUL passwd. -/
def authPlain (srv : Server) (ans : Answers) (s : Session) (token : Str) : Out :=
  match decodeBase64 token with
  | none => s.say (ascii "-ERR invalid base64")
  | some raw =>
    let malformed := s.say (ascii "-ERR malformed credentials")
    let go (user pass : Str) : Out :=
      if user = [] then malformed else tryLogin srv ans { s with user := user } pass
    match raw.splitOn 0 with
    | [_, user, pass] => go user pass
    | [user, pass] => go user pass
    | _ => malformed

/-- `maxLineLen` caps a single protocol line. -/
def maxLineLen : Nat := 8192

/-- `readLine` on the lines still to come: an over-long line or the end of input is an error. -/
def readLine : List Str → Option (Str × List Str)
  | [] => none
  | l :: rest => if l.length > maxLineLen then none else some (trimCRLF l, rest)

/-- The read of the connection failed: the session ends. -/
def Session.hangup (s : Session) (events : List Event) : Out := ⟨s, events, true⟩

/-- The second half of AUTH LOGIN: ask for the password and log in as `authUser`. -/
def authLoginPassword (srv : Server) (ans : Answers) (s : Session) (more : List Str) : Out :=
  let ask := Event.reply (ascii "+ UGFzc3dvcmQ6")
  match readLine more with
  | none => s.hangup [ask]
  | some (line, _) =>
    let out : Out := match decodeBase64 (trimSpace line) with
      | none => s.say (ascii "-ERR invalid base64")
      | some p => tryLogin srv ans { s with user := s.authUser, authUser := [] } p
    { out with events := ask :: out.events }

/-- `handleAuth`; `more` are the lines the client sends while the exchange is on. -/
def handleAuth (srv : Server) (ans : Answers) (s : Session) (fields more : List Str) : Out :=
  if s.authed then s.say (ascii "-ERR already authenticated")
  else if srv.tlsConfig ∧ !s.tlsUp then s.say (ascii "-ERR TLS required before authentication")
  else match fields with
    | _ :: mech :: args =>
      if toUpper mech = ascii "PLAIN" then
        match args with
        | token :: _ => authPlain srv ans s token
        | [] =>
          let ask := Event.reply (ascii "+ ")
          match readLine more with
          | none => s.hangup [ask]
          | some (line, _) =>
            let out := authPlain srv ans s (trimSpace line)
            { out with events := ask :: out.events }
      else if toUpper mech = ascii "LOGIN" then
        match args with
        | token :: _ =>
          match decodeBase64 token with
          | none => s.say (ascii "-ERR invalid base64")
          | some u => authLoginPassword srv ans { s with authUser := u } more
        | [] =>
          let ask := Event.reply (ascii "+ VXNlcm5hbWU6")
          match readLine more with
          | none => s.hangup [ask]
          | some (line, more) =>
            let out : Out := match decodeBase64 (trimSpace line) with
              | none => s.say (ascii "-ERR invalid base64")
              | some u => authLoginPassword srv ans { s with authUser := u } more
            { out with events := ask :: out.events }
      else s.say (ascii "-ERR unsupported authentication mechanism")
    | _ => s.say (ascii "-ERR usage: AUTH <mechanism> [initial-response]")

/-! ### Listing and reading -/

/-- A command of the transaction state is refused before a login. -/
def Session.needAuth (s : Session) (out : Out) : Out :=
  if !s.authed then s.say (ascii "-ERR authenticate first") else out

/-- STAT. -/
def handleStat (s : Session) : Out :=
  s.needAuth ⟨s, s.kept.map .shows ++
    [.reply (ascii "+OK " ++ decimal s.stats.1 ++ ascii " " ++ decimal s.stats.2)], false⟩

/-- `handleList`. -/
def handleList (s : Session) (fields : List Str) : Out :=
  s.needAuth <| match fields with
    | [_, arg] =>
      match (atoi arg).bind fun idx => (s.messageAt idx).map fun m => (idx, m) with
      | none => s.say (ascii "-ERR no such message")
      | some (idx, m) =>
        ⟨s, [.shows m, .reply (ascii "+OK " ++ decimal idx ++ ascii " " ++ decimal m.size)], false⟩
    | _ =>
      let head := ascii "+OK " ++ decimal s.stats.1 ++ ascii " messages (" ++ decimal s.stats.2 ++
        ascii " octets)"
      let rows := (numbered s.msgs).filter fun p => !s.deleted.contains p.2.uid
      ⟨s, .reply head :: rows.flatMap (fun p =>
        [.shows p.2, .reply (decimal p.1 ++ ascii " " ++ decimal p.2.size)]) ++
        [.reply (ascii ".")], false⟩

/-- `handleUIDL`: unlike LIST, the long form also shows entries marked deleted. -/
def handleUIDL (s : Session) (fields : List Str) : Out :=
  s.needAuth <| match fields with
    | [_, arg] =>
      match (atoi arg).bind fun idx => (s.messageAt idx).map fun m => (idx, m) with
      | none => s.say (ascii "-ERR no such message")
      | some (idx, m) =>
        ⟨s, [.shows m, .reply (ascii "+OK " ++ decimal idx ++ ascii " " ++ decimal m.uid)], false⟩
    | _ =>
      ⟨s, .reply (ascii "+OK " ++ decimal s.msgs.length ++ ascii " messages") ::
        (numbered s.msgs).flatMap (fun p =>
          [.shows p.2, .reply (decimal p.1 ++ ascii " " ++ decimal p.2.uid)]) ++
        [.reply (ascii ".")], false⟩

/-- `dotStuff`. -/
def dotStuff (line : Str) : Str := if line.head? = some 0x2e then 0x2e :: line else line

/-- The pieces `ReadString('\n')` returns: each ends with its newline, the last one may lack it. -/
def rawLines : Str → List Str
  | [] => []
  | b :: r =>
    if b = 0x0a then [b] :: rawLines r
    else match rawLines r with
      | [] => [[b]]
      | l :: ls => (b :: l) :: ls

/-- `dotCopy`: the whole message, dot-stuffed line by line. -/
def dotCopy (body : Str) : List Str := (rawLines body).map fun raw => dotStuff (trimCRLF raw)

/-- `handleRetr`. -/
def handleRetr (ans : Answers) (s : Session) (fields : List Str) : Out :=
  s.needAuth <| match s.message fields with
    | none => s.say (ascii "-ERR no such message")
    | some m =>
      match ans.openMessage s.user m.uid with
      | none => ⟨s, [.opens s.user m, .reply (ascii "-ERR cannot retrieve")], false⟩
      | some body =>
        ⟨s, .opens s.user m :: .reply (ascii "+OK " ++ decimal m.size ++ ascii " octets") ::
          (dotCopy body).map .reply ++ [.reply (ascii ".")], false⟩

/-- The loop of `handleTop`: the header, its blank line and at most `n` body lines. -/
def topLines (n : Int) : Bool → Nat → List Str → List Str
  | _, _, [] => []
  | false, sent, raw :: rest =>
    if trimCRLF raw = [] then [] :: topLines n true sent rest
    else dotStuff (trimCRLF raw) :: topLines n false sent rest
  | true, sent, raw :: rest =>
    if (sent : Int) ≥ n then []
    else dotStuff (trimCRLF raw) :: topLines n true (sent + 1) rest

/-- `handleTop`. -/
def handleTop (ans : Answers) (s : Session) (fields : List Str) : Out :=
  s.needAuth <| match fields with
    | [_, arg, count] =>
      match (atoi arg).bind s.messageAt with
      | none => s.say (ascii "-ERR no such message")
      | some m =>
        match (atoi count).filter (0 ≤ ·) with
        | none => s.say (ascii "-ERR invalid line count")
        | some n =>
          match ans.openMessage s.user m.uid with
          | none => ⟨s, [.opens s.user m, .reply (ascii "-ERR cannot retrieve")], false⟩
          | some body =>
            ⟨s, .opens s.user m ::
              .reply (ascii "+OK top of message " ++ decimal (s.messageIndex m.uid)) ::
              (topLines n false 0 (rawLines body)).map .reply ++ [.reply (ascii ".")], false⟩
    | _ => s.say (ascii "-ERR usage: TOP <msg> <n>")

/-! ### Deleting, STLS and the dispatcher -/

/-- `handleDele`. -/
def handleDele (s : Session) (fields : List Str) : Out :=
  s.needAuth <| match s.message fields with
    | none => s.say (ascii "-ERR no such message")
    | some m =>
      if s.deleted.contains m.uid then s.say (ascii "-ERR already deleted")
      else { s with deleted := m.uid :: s.deleted }.say (ascii "+OK marked deleted")

/-- `commit`: expunge what the session marked. -/
def commit (s : Session) : List Event :=
  if !s.authed ∨ s.deleted = [] then []
  else [.deletes s.user s.deleted (s.msgs.filter fun m => s.deleted.contains m.uid)]

/-- `handleSTLS`: a failed handshake ends the connection. -/
def handleSTLS (srv : Server) (ans : Answers) (s : Session) : Out :=
  if !srv.tlsConfig then s.say (ascii "-ERR STLS not available")
  else if s.tlsUp then s.say (ascii "-ERR TLS already active")
  else if s.authed then s.say (ascii "-ERR TLS must be negotiated before authentication")
  else if !ans.handshake then s.hangup [.reply (ascii "+OK Begin TLS negotiation")]
  else { s with tlsUp := true, user := [] }.say (ascii "+OK Begin TLS negotiation")

/-- `handleCapa`. -/
def handleCapa (srv : Server) (s : Session) : Out :=
  let caps := ["+OK Capability list follows", "USER", "UIDL", "TOP", "RESP-CODES",
    "SASL PLAIN LOGIN"] ++ (if srv.tlsConfig ∧ !s.tlsUp then ["STLS"] else []) ++ ["."]
  ⟨s, caps.map fun line => .reply (ascii line), false⟩

/-- The commands of the dispatcher. -/
inductive Verb where
  | quit | user | auth | pass | stat | list | uidl | retr | top | dele | noop | rset | capa | stls
  | unknown
  deriving DecidableEq

/-- The command a line's first field names. -/
def Verb.of (word : Str) : Verb :=
  let table := [("QUIT", quit), ("USER", user), ("AUTH", auth), ("PASS", pass), ("STAT", stat),
    ("LIST", list), ("UIDL", uidl), ("RETR", retr), ("TOP", top), ("DELE", dele), ("NOOP", noop),
    ("RSET", rset), ("CAPA", capa), ("STLS", stls)]
  match table.find? fun e => ascii e.1 = toUpper word with
  | some e => e.2
  | none => unknown

/-- One command of the client: its line, the lines it sends while the command is handled (only AUTH
    reads any) and what the services answer meanwhile. -/
structure Cmd where
  line : Str
  more : List Str := []
  ans : Answers := {}

/-- `handle` on the fields of a command line. -/
def handleFields (srv : Server) (s : Session) (c : Cmd) (fields : List Str) : Out :=
  match fields with
  | [] => s.say (ascii "-ERR empty command")
  | word :: args =>
    match Verb.of word with
    | .quit => ⟨s, commit s ++ [.reply (ascii "+OK bye")], true⟩
    | .user =>
      match args with
      | [name] => { s with user := name }.say (ascii "+OK send PASS")
      | _ => s.say (ascii "-ERR usage: USER <name>")
    | .auth => handleAuth srv c.ans s fields c.more
    | .pass =>
      match args with
      | [password] =>
        if s.user = [] then s.say (ascii "-ERR usage: PASS <password>")
        else tryLogin srv c.ans s password
      | _ => s.say (ascii "-ERR usage: PASS <password>")
    | .stat => handleStat s
    | .list => handleList s fields
    | .uidl => handleUIDL s fields
    | .retr => handleRetr c.ans s fields
    | .top => handleTop c.ans s fields
    | .dele => handleDele s fields
    | .noop => s.say (ascii "+OK")
    | .rset => { s with deleted := [] }.say (ascii "+OK")
    | .capa => handleCapa srv s
    | .stls => handleSTLS srv c.ans s
    | .unknown => s.say (ascii "-ERR unknown command")

/-- `handle`. -/
def handle (srv : Server) (s : Session) (c : Cmd) (cmd : Str) : Out :=
  handleFields srv s c (fields cmd)

/-- The loop of `run`: what the session does on a sequence of commands. -/
def serve (srv : Server) : Session → List Cmd → List Event
  | _, [] => []
  | s, c :: cs =>
    match readLine [c.line] with
    | none => []
    | some (line, _) =>
      if line = [] then serve srv s cs
      else
        let out := handle srv s c line
        out.events ++ if out.stop then [] else serve srv out.ses cs

/-- `run`: the greeting, then the loop. -/
def run (srv : Server) (s : Session) (cs : List Cmd) : List Event :=
  .reply (ascii "+OK mailezine POP3 ready") :: serve srv s cs

end Mailezine.Pop3
