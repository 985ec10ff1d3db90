import Mailezine.Delivery.Header
import Mailezine.Schemes.Attempt

/-! The delivery pipeline: from an envelope recipient to the copies in the mailboxes of its targets.

    What the directory, the store, the scripts and the queue answer is given from outside, one answer
    for every call that one delivery can make. The pipeline records what it has stored and what it has
    handed to the outbound queue; nothing of that is taken back when a later call fails. -/

namespace Mailezine.Delivery
open Gostd Schemes

/-- An error of the directory. -/
inductive Fault where
  | notFound
  | other (text : Str)
  deriving DecidableEq

/-- What `Deliver` can fail with. -/
inductive Error where
  | reject
  | softReject
  | greylist
  | sieveReject (reason : Str)
  | quota
  | quotaUsed (err : Str)
  | resolve (rcpt : Str) (err : Fault)
  | store (target mailbox : Str) (err : Str)
  deriving DecidableEq

/-- A message as it is given to the store. -/
structure Copy where
  sender : Str
  rcpts : List Str
  data : Str
  flags : List Str
  internalDate : Int
  deriving DecidableEq

/-- What leaves the pipeline: a copy in a mailbox, a redirect, an automatic reply, and for the recipients
    elsewhere the message in the outbound queue. -/
inductive Event where
  | stored (account mailbox : Str) (copy : Copy)
  | redirected (sender addr data : Str)
  | replied (addr data : Str)
  | spooled (sender : Str) (rcpts : List Str) (subject data : Str)
  deriving DecidableEq

/-- The settings of a pipeline: whether there is a Sieve engine and a way to redirect. -/
structure Pipeline where
  hostname : Str := []
  recipientDelimiter : Str := []
  sieve : Bool := true
  redirect : Bool := true

/-! ### Quota -/

/-- An `int64`. -/
def int64 (n : Int) : Int := Int.bmod n (2 ^ 64)

/-- The two answers of a quota check: the limit of the directory, and the bytes in use. -/
structure QuotaAnswers where
  limit : Except Fault Int := .error .notFound
  used : Except Str Int := .ok 0

/-- `checkQuota`; the sum is an `int64`. -/
def checkQuota (ans : QuotaAnswers) (size : Int) : Except Error Unit :=
  match ans.limit with
  | .error _ => .ok ()
  | .ok limit =>
    match ans.used with
    | .error e => .error (.quotaUsed e)
    | .ok used => if 0 < limit ∧ limit < int64 (used + size) then .error .quota else .ok ()

/-! ### Automatic replies -/

/-- What an automatic reply is told: when the last one was sent, the time and the texts of now, and
    what the queue says. -/
structure VacationAnswers where
  last : Except Str (Option Int) := .ok none
  now : Int := 0
  date : Str := []
  messageID : Str := []
  send : Except Str Unit := .ok ()

/-- `now.Sub(last)`, which stops at the ends of `time.Duration`. -/
def sub (now last : Int) : Int := max (-(2 ^ 63)) (min (2 ^ 63 - 1) (now - last))

/-- Whether a reply to this sender was sent less than `days` ago. -/
def throttled (ans : VacationAnswers) (days : Int) : Bool :=
  match ans.last with
  | .ok (some last) => sub ans.now last < int64 (days * (24 * 3600 * 10 ^ 9))
  | _ => false

/-- The text of an automatic reply. -/
def replyText (u : Unicode) (ans : VacationAnswers) (account sender data : Str) (v : Sieve.Vacation) : Str :=
  let orig := headerValue u data (ascii "Message-Id")
  ascii "Auto-Submitted: auto-replied\r\nX-Auto-Response-Suppress: All\r\nFrom: " ++
    (if v.sender = [] then account else v.sender) ++ ascii "\r\nTo: " ++ sender ++ ascii "\r\nSubject: " ++
    (if v.subject = [] then ascii "Re: your message" else v.subject) ++ ascii "\r\nDate: " ++ ans.date ++
    ascii "\r\nMessage-ID: <vac-" ++ ans.messageID ++ ascii "@mailezine>\r\n" ++
    (if orig = [] then []
      else ascii "In-Reply-To: " ++ orig ++ ascii "\r\nReferences: " ++ orig ++ ascii "\r\n") ++
    ascii "\r\n" ++ v.body ++ ascii "\r\n"

/-- `sendVacation`: the reply, unless there is no need or no way to send it. Errors are only logged. -/
def sendVacation (p : Pipeline) (u : Unicode) (ans : VacationAnswers) (account sender data : Str)
    (v : Sieve.Vacation) : List Event :=
  let days := if v.days ≤ 0 then 7 else v.days
  if !p.redirect || suppressesAutoReply u data || sender = [] || throttled ans days then []
  else match ans.send with
    | .ok _ => [.replied sender (replyText u ans account sender data v)]
    | .error _ => []

/-! ### One target -/

/-- The answers that the delivery to one target can ask for. -/
structure TargetAnswers where
  quota : QuotaAnswers := {}
  /-- `activeScript`: whether there is a script. -/
  script : Except Str Bool := .ok false
  route : Except Str Sieve.Result := .ok {}
  /-- What the queue says to each redirect. -/
  redirect : Nat → Except Str Unit := fun _ => .ok ()
  vacation : VacationAnswers := {}
  finalQuota : QuotaAnswers := {}
  /-- What the store says to each copy. -/
  deliver : Nat → Except Str Unit := fun _ => .ok ()
  /-- Whether a copy is there although the store reports an error: a later transaction of the batch that
      it has led failed, or its blob was gone again and could not be written a second time. -/
  late : Nat → Bool := fun _ => false
  now : Int := 0

/-- What is to be done with the message for one target. -/
inductive Decision where
  | discard
  | reject (reason : Str)
  | deliver (mailboxes : List Str) (res : Sieve.Result)
  deriving DecidableEq

/-- The Sieve stage: a script that cannot be had or run leaves the message to the inbox, and so does one
    that names no mailbox. -/
def decision (p : Pipeline) (ans : TargetAnswers) : Decision :=
  if p.sieve then
    match ans.script with
    | .ok true =>
      match ans.route with
      | .error _ => .deliver [Sieve.inbox] {}
      | .ok res =>
        if res.discard then .discard
        else if res.reject ≠ [] then .reject res.reject
        else .deliver (if res.mailboxes = [] then [Sieve.inbox] else res.mailboxes) res
    | _ => .deliver [Sieve.inbox] {}
  else .deliver [Sieve.inbox] {}

/-- The redirects that the queue takes. -/
def redirects (p : Pipeline) (ans : TargetAnswers) (sender data : Str) (res : Sieve.Result) : List Event :=
  if p.redirect then
    res.redirects.zipIdx.filterMap fun (addr, i) =>
      match ans.redirect i with
      | .ok _ => some (.redirected sender addr data)
      | .error _ => none
  else []

def normalizeMailboxName (name : Str) : Str :=
  if equalFold name (ascii "inbox") then Sieve.inbox
  else match name.findIdx? (· = 0x2f) with
    | some idx => if equalFold (name.take idx) (ascii "inbox") then Sieve.inbox ++ name.drop idx else name
    | none => name

/-- `deliverToTarget`. -/
def deliverToTarget (p : Pipeline) (u : Unicode) (ans : TargetAnswers) (target sender : Str)
    (targets : List Str) (stored raw : Str) : Attempt Event Error Unit := do
  Attempt.lift (checkQuota ans.quota raw.length)
  match decision p ans with
  | .discard => pure ()
  | .reject reason => Attempt.lift (.error (.sieveReject reason))
  | .deliver mailboxes res =>
    Attempt.emit (redirects p ans sender stored res ++
      (res.vacation.map (sendVacation p u ans.vacation target sender stored)).getD [])
    let finalData := applyHeaderEdits u stored res
    Attempt.lift (checkQuota ans.finalQuota (finalData.length * mailboxes.length))
    Attempt.each (fun (name, i) =>
      let mailbox := normalizeMailboxName name
      Attempt.call (.stored target mailbox ⟨sender, targets, finalData, res.flags, ans.now⟩) (ans.late i)
        ((ans.deliver i).mapError (.store target mailbox))) mailboxes.zipIdx

/-! ### One recipient -/

/-- `directory.SplitDelimited`. -/
def splitDelimited (addr delim : Str) : Option Str :=
  if delim = [] then none
  else match lastIndexByte 0x40 addr with
    | none | some 0 => none
    | some pos =>
      match index delim (addr.take pos) with
      | none | some 0 => none
      | some i => some (addr.take i ++ addr.drop pos)

/-- The answers that the delivery to one recipient can ask for: the targets of the address, those of the
    address without its detail, and the answers for each target. -/
structure RcptAnswers where
  aliases : Except Fault (List Str) := .ok []
  baseAliases : Except Fault (List Str) := .error .notFound
  targets : Nat → TargetAnswers := fun _ => {}

/-- The targets of a recipient. -/
def resolve (p : Pipeline) (ans : RcptAnswers) (rcpt : Str) : Except Error (List Str) :=
  let found : Except Fault (List Str) :=
    if ans.aliases = .error .notFound ∧ p.recipientDelimiter ≠ [] ∧
        (splitDelimited rcpt p.recipientDelimiter).isSome then ans.baseAliases
    else ans.aliases
  found.mapError (.resolve rcpt)

/-- `deliverTo`. The gate of an account only waits, so it is left out. -/
def deliverTo (p : Pipeline) (u : Unicode) (ans : RcptAnswers) (rcpt sender : Str) (stored raw : Str) :
    Attempt Event Error Unit := do
  let targets ← Attempt.lift (resolve p ans rcpt)
  Attempt.each (fun (target, j) => deliverToTarget p u (ans.targets j) target sender targets stored raw)
    targets.zipIdx

/-! ### One message -/

/-- The verdict of a classifier. -/
structure Classification where
  action : Str
  level : Int
  headers : List Str

/-- The answers that `Deliver` asks for; the first four are the random and the time texts of its headers. -/
structure DeliverAnswers where
  receivedID : Str := []
  receivedDate : Str := []
  messageID : Str := []
  messageStamp : Str := []
  verify : Option (Except Str Str) := none
  classify : Option (Except Str Classification) := none
  rcpts : Nat → RcptAnswers := fun _ => {}

def receivedHeader (hostname : Str) (peer : Option Str) (messageID date : Str) : Str :=
  ascii "Received: from " ++ peer.getD (ascii "unknown") ++ ascii " by " ++
    (if hostname = [] then ascii "unknown" else hostname) ++ ascii " (mailezine) with SMTP id " ++ messageID ++
    ascii "; " ++ date

/-- The headers that every message gets, before it is classified. -/
def traceHeaders (p : Pipeline) (u : Unicode) (ans : DeliverAnswers) (peer : Option Str) (data : Str) : List Str :=
  receivedHeader p.hostname peer ans.receivedID ans.receivedDate ::
    (if hasHeader u data (ascii "Message-ID") then []
      else [ascii "Message-ID: <" ++ ans.messageStamp ++ ascii "." ++ ans.messageID ++ ascii "@" ++
        (if p.hostname = [] then ascii "mailezine" else p.hostname) ++ ascii ">"]) ++
    match ans.verify with
    | some (.ok header) => if header = [] then [] else [header]
    | _ => []

/-- The headers with the verdict of the classifier, or its refusal. -/
def classified (u : Unicode) (verdict : Option (Except Str Classification)) (headers : List Str) :
    Except Error (List Str) :=
  match verdict with
  | some (.ok res) =>
    if res.action = ascii "reject" then .error .reject
    else if res.action = ascii "soft reject" then .error .softReject
    else if res.action = ascii "greylist" then .error .greylist
    else
      let headers := headers ++ res.headers
      .ok (if headersContain u headers (ascii "X-Spam-Level") then headers
        else headers ++ [ascii "X-Spam-Level: " ++ List.replicate res.level.toNat 0x2a])
  | _ => .ok headers

/-- The message as it is stored: with the headers of the pipeline, and without a spam level of its own. -/
def prepared (p : Pipeline) (u : Unicode) (ans : DeliverAnswers) (peer : Option Str) (data : Str) :
    Except Error Str :=
  (classified u ans.classify (traceHeaders p u ans peer data)).map fun headers =>
    prependHeaders headers (stripHeaderFields u data [ascii "X-Spam-Level"])

/-- `Pipeline.Deliver`. -/
def Pipeline.deliver (p : Pipeline) (u : Unicode) (ans : DeliverAnswers) (peer : Option Str) (sender : Str)
    (rcpts : List Str) (data : Str) : Attempt Event Error Unit := do
  let stored ← Attempt.lift (prepared p u ans peer data)
  Attempt.each (fun (rcpt, i) => deliverTo p u (ans.rcpts i) rcpt sender stored data) rcpts.zipIdx

end Mailezine.Delivery
