import Mailezine.Mailsmtp.Transcript
import Mailezine.Queue.Message
import Mailezine.Schemes.Scatter

/-! The deliverer of the queue: recipients by domain, hosts by preference, one connection after the other.

    The world is given by what its name service and its servers answer; a server may answer otherwise on
    the second connection, which is made without TLS. Every connection is kept with what passed over it.
    The domains are taken in order: each has its own connections and writes its own results, so nothing
    depends on how the goroutines interleave. -/

namespace Mailezine.Queue
open Gostd Schemes Mailsmtp

/-! ### The world -/

/-- An error of a lookup: whether the name is known not to exist, or the answer is only not known. -/
structure LookupError where
  text : Str
  notFound : Bool

/-- `mailmtasts.Mode`. -/
inductive PolicyMode where
  | none | testing | enforce
  deriving DecidableEq

/-- The parts of `mailmtasts.Policy` that are read. -/
structure Policy where
  mode : PolicyMode
  mx : List Str

/-- `maildns.Resolver` as it is used for TLSA records; only some can tell whether an answer is validated. -/
inductive PolicyResolver where
  | plain (lookupTLSA : Str → Except Str (List TLSA))
  | validating (lookupTLSA : Str → Except Str (List TLSA × Bool))

/-- What is outside: the name service, `net.ParseIP`, the texts of `%q`, and the servers, by domain and host
    and whether the connection is the one without TLS. -/
structure Outside where
  lookupMX : Str → List Str × Option LookupError
  lookupIP : Str → List Str × Option LookupError
  isIP : Str → Bool
  quote : Str → Str
  unicode : Unicode
  peer : Str → Str → Bool → Peer

/-- `SMTPDeliverer`. -/
structure SMTPDeliverer where
  port : Nat := 25
  fixedHost : Str := []
  username : Str := []
  allowPlaintextAuth : Bool := false
  policyResolver : Option PolicyResolver := none
  mtsts : Option (Str → Except Str (Option Policy)) := none

/-! ### TLS policy -/

/-- `NormalizeDomain`. -/
def normalizeDomain (u : Unicode) (s : Str) : Str := u.toLower (trimDot s)

/-- `Matches`. -/
def Policy.matches (u : Unicode) (p : Policy) (host : Str) : Bool :=
  let host := normalizeDomain u host
  p.mx.any fun mx =>
    let mx := normalizeDomain u mx
    mx = host || ([0x2a, 0x2e].isPrefixOf mx && (mx.drop 1).isSuffixOf host)

/-- `lookupTLSAForDANE`. -/
def lookupTLSAForDANE (resolver : PolicyResolver) (host : Str) : Except Str (List TLSA × Bool) :=
  match resolver with
  | .plain lookup => (lookup host).map fun records => (records, true)
  | .validating lookup => lookup host

/-- The policy that the MTA-STS source gives for a domain, if it is to be enforced. -/
def SMTPDeliverer.enforced (d : SMTPDeliverer) (domain : Str) : Option Policy :=
  if domain = [] then none
  else match d.mtsts with
    | none => none
    | some lookup => match lookup domain with
      | .ok (some policy) => if policy.mode = .enforce then some policy else none
      | .ok none | .error _ => none

/-- The DANE part of `outboundTLSPolicy`. -/
def daneMode (w : Outside) (resolver : PolicyResolver) (host : Str) : TLSMode × List TLSA :=
  if w.isIP host then (.opportunistic, [])
  else match lookupTLSAForDANE resolver host with
    | .ok (records, validated) => if records ≠ [] ∧ validated then (.required, records) else (.opportunistic, [])
    | .error _ => (.opportunistic, [])

/-- `outboundTLSPolicy`. -/
def outboundTLSPolicy (d : SMTPDeliverer) (w : Outside) (domain host : Str) : Except Failure (TLSMode × List TLSA) :=
  match d.policyResolver with
  | none => .ok (.opportunistic, [])
  | some resolver =>
    let host := normalizeDomain w.unicode host
    match d.enforced domain with
    | some policy =>
      if !policy.matches w.unicode host then
        .error { text := ascii "queue: mx " ++ host ++ ascii " does not match enforced mta-sts policy" }
      else .ok (.required, [])
    | none => .ok (daneMode w resolver host)

/-! ### Hosts -/

/-- `domainOf`. -/
def domainOf (addr : Str) : Option Str :=
  match lastIndexByte 0x40 addr with
  | none => none
  | some i => if i + 1 = addr.length then none else some (addr.drop (i + 1))

/-- The hosts of MX records, without the null MX and without repetitions. -/
def mxHosts (mxs : List Str) : List Str :=
  (((mxs.filter (· ≠ [0x2e])).map trimDot).filter (· ≠ [])).eraseDups

/-- `mxCandidates`. -/
def mxCandidates (w : Outside) (domain : Str) : Except Str (List Str) :=
  let (mxs, mxErr) := w.lookupMX domain
  let hosts := mxHosts mxs
  if [0x2e] ∈ mxs ∧ hosts = [] then
    .error (ascii "queue: domain " ++ domain ++ ascii " does not accept mail (null MX, RFC 7505)")
  else if hosts ≠ [] then .ok hosts
  else
    let (ips, ipErr) := w.lookupIP domain
    if ips ≠ [] then .ok ips.eraseDups
    else
      let text := ascii "queue: no MX or address for " ++ domain
      match mxErr, ipErr with
      | none, none => .error text
      | some err, _ => .error (text ++ ascii ": " ++ err.text)
      | none, some err => .error (text ++ ascii ": " ++ err.text)

/-- `net.JoinHostPort`. -/
def joinHostPort (host : Str) (port : Nat) : Str :=
  (if 0x3a ∈ host then [0x5b] ++ host ++ [0x5d] else host) ++ [0x3a] ++ decimalNat port

/-! ### Connections -/

/-- One connection: the host and what passed. -/
structure Contact where
  host : Str
  log : List Exchange
  deriving DecidableEq

/-- `connect`. -/
def connect (d : SMTPDeliverer) (peer : Peer) (host : Str) (mode : TLSMode) (dane : List TLSA) (noTLS : Bool) :
    Dialogue Client := do
  Attempt.lift (peer.dial.mapError fun err =>
    { text := ascii "queue: dial " ++ host ++ ascii ": mailsmtp: dial " ++ joinHostPort host d.port ++
        ascii ": " ++ err })
  let c ← (Client.greet { host := trimDot host } peer mode dane noTLS).mapError
    (Failure.wrap (ascii "queue: smtp handshake with " ++ host ++ ascii ": "))
  if d.username ≠ [] ∧ d.fixedHost ≠ [] ∧ c.cap.advertisesAuth (ascii "PLAIN") then
    if !c.tlsEnabled ∧ !d.allowPlaintextAuth then
      fail { text := ascii "queue: " ++ host ++ ascii " offers AUTH PLAIN without TLS: refusing to send " ++
        ascii "credentials (enable STARTTLS or set allow-plaintext-auth)" }
    else do
      (c.authPlain peer).mapError (Failure.wrap (ascii "queue: smtp auth with " ++ host ++ ascii ": "))
      pure c
  else pure c

theorem civil_connect (d : SMTPDeliverer) (peer : Peer) (host : Str) (mode : TLSMode) (dane : List TLSA)
    (noTLS : Bool) : Civil (connect d peer host mode dane noTLS) := by
  have hwrap : ∀ text f, (Failure.wrap text f).noTLSUpgrade = true ∨
      ((Failure.wrap text f).permanent = f.permanent ∧ (Failure.wrap text f).noTLSUpgrade = f.noTLSUpgrade) :=
    fun _ _ => .inr ⟨rfl, rfl⟩
  refine (civil_lift fun f hf => ?_).bind fun _ _ =>
    ((civil_greet _ _ _ _ _).mapError (hwrap _)).bind fun c _ => ?_
  · cases hdial : peer.dial with
    | error err =>
      rw [hdial] at hf
      cases hf
      rfl
    | ok u =>
      rw [hdial] at hf
      cases hf
  · split
    · split
      · exact civil_fail rfl
      · exact ((civil_authPlain c peer).mapError (hwrap _)).bind fun _ _ => civil_pure c
    · exact civil_pure c

/-- `deliverGroup`: an upgrade to TLS that failed is followed by a connection without it. -/
def deliverGroup (d : SMTPDeliverer) (w : Outside) (domain sender : Str) (addrs : List Str) (body host : Str)
    (mode : TLSMode) (dane : List TLSA) : List Contact × Except Failure (List Response) :=
  let session := fun noTLS => do
    let c ← connect d (w.peer domain host noTLS) host mode dane noTLS
    c.deliver (w.peer domain host noTLS) sender addrs body
  match (connect d (w.peer domain host false) host mode dane false).result with
  | .error f =>
    if f.noTLSUpgrade then
      ([⟨host, (session false).events⟩, ⟨host, (session true).events⟩], (session true).result)
    else ([⟨host, (session false).events⟩], .error f)
  | .ok _ => ([⟨host, (session false).events⟩], (session false).result)

/-- The hosts in turn, until one takes the message or refuses it for good. -/
def tryHosts (d : SMTPDeliverer) (w : Outside) (domain sender : Str) (addrs : List Str) (body : Str) :
    List Str → Option Failure → List Contact × Except (Option Failure) (List Response)
  | [], last => ([], .error last)
  | host :: rest, _ =>
    match outboundTLSPolicy d w domain host with
    | .error f => tryHosts d w domain sender addrs body rest (some f)
    | .ok (mode, dane) =>
      let (contacts, out) := deliverGroup d w domain sender addrs body host mode dane
      match out with
      | .ok resps => (contacts, .ok resps)
      | .error f =>
        if f.permanent then (contacts, .error (some f))
        else
          let (contacts', out') := tryHosts d w domain sender addrs body rest (some f)
          (contacts ++ contacts', out')

section
variable {d : SMTPDeliverer} {w : Outside} {domain sender : Str} {addrs : List Str} {body host : Str}
  {rest : List Str} {last : Option Failure} {mode : TLSMode} {dane : List TLSA} {f : Failure}

theorem tryHosts_skip (hp : outboundTLSPolicy d w domain host = .error f) :
    tryHosts d w domain sender addrs body (host :: rest) last =
      tryHosts d w domain sender addrs body rest (some f) := by
  rw [tryHosts, hp]

theorem tryHosts_ok {resps : List Response} (hp : outboundTLSPolicy d w domain host = .ok (mode, dane))
    (hg : (deliverGroup d w domain sender addrs body host mode dane).2 = .ok resps) :
    tryHosts d w domain sender addrs body (host :: rest) last =
      ((deliverGroup d w domain sender addrs body host mode dane).1, .ok resps) := by
  simp only [tryHosts, hp, hg]

theorem tryHosts_permanent (hp : outboundTLSPolicy d w domain host = .ok (mode, dane))
    (hg : (deliverGroup d w domain sender addrs body host mode dane).2 = .error f) (hf : f.permanent = true) :
    tryHosts d w domain sender addrs body (host :: rest) last =
      ((deliverGroup d w domain sender addrs body host mode dane).1, .error (some f)) := by
  simp only [tryHosts, hp, hg, hf, if_true]

theorem tryHosts_next (hp : outboundTLSPolicy d w domain host = .ok (mode, dane))
    (hg : (deliverGroup d w domain sender addrs body host mode dane).2 = .error f) (hf : f.permanent = false) :
    tryHosts d w domain sender addrs body (host :: rest) last =
      ((deliverGroup d w domain sender addrs body host mode dane).1 ++
        (tryHosts d w domain sender addrs body rest (some f)).1,
        (tryHosts d w domain sender addrs body rest (some f)).2) := by
  simp only [tryHosts, hp, hg, hf, Bool.false_eq_true, if_false]

end

/-! ### Results -/

/-- The result that a response makes. -/
def resultOf (addr : Str) (resp : Option Response) : Result :=
  match resp with
  | none => ⟨addr, true, false, none⟩
  | some r =>
    if hundreds r.code ≠ 2 then ⟨addr, false, r.permanent, some (r.err.getD r.text)⟩
    else ⟨addr, true, false, none⟩

/-- What the connections of a group come to. -/
structure Round where
  contacts : List Contact
  results : List Result

/-- The same error for everybody. -/
def failAll (addrs : List Str) (permanent : Bool) (err : Option Str) : List Result :=
  addrs.map fun addr => ⟨addr, false, permanent, err⟩

/-- The responses as results. -/
def resultsOf (addrs : List Str) (resps : List Response) : List Result :=
  addrs.mapIdx fun i addr => resultOf addr resps[i]?

/-- `deliverDomain`. -/
def deliverDomain (d : SMTPDeliverer) (w : Outside) (sender : Str) (body : Str) (domain : Str) (addrs : List Str) :
    Round :=
  match mxCandidates w domain with
  | .error err => ⟨[], failAll addrs true (some err)⟩
  | .ok hosts =>
    match tryHosts d w domain sender addrs body hosts none with
    | (contacts, .error last) =>
      ⟨contacts, failAll addrs (last.any (·.permanent)) (last.map (·.text))⟩
    | (contacts, .ok resps) => ⟨contacts, resultsOf addrs resps⟩

/-- `deliverToHost`. -/
def deliverToHost (d : SMTPDeliverer) (w : Outside) (sender : Str) (body : Str) (addrs : List Str) : Round :=
  if addrs = [] then ⟨[], []⟩
  else
    let policy := (outboundTLSPolicy d w [] d.fixedHost).toOption.getD (.opportunistic, [])
    match deliverGroup d w [] sender addrs body d.fixedHost policy.1 policy.2 with
    | (contacts, .error f) => ⟨contacts, failAll addrs f.permanent (some f.text)⟩
    | (contacts, .ok resps) => ⟨contacts, resultsOf addrs resps⟩

/-- The recipients of a domain. -/
def ofDomain (domain addr : Str) : Bool := domainOf addr = some domain

/-- The domains in the order in which they appear. -/
def order (addrs : List Str) : List Str := (addrs.filterMap domainOf).eraseDups

/-- The round of one domain. -/
def SMTPDeliverer.group (d : SMTPDeliverer) (w : Outside) (sender body : Str) (addrs : List Str) (domain : Str) :
    Round :=
  deliverDomain d w sender body domain ((selected (ofDomain domain) addrs).map (·.1))

/-- The result of an address before anything is sent. -/
def initialResult (w : Outside) (addr : Str) : Result :=
  match domainOf addr with
  | none => ⟨addr, false, true, some (ascii "queue: invalid recipient address " ++ w.quote addr)⟩
  | some _ => ⟨[], false, false, none⟩

/-- `Deliver`. -/
def SMTPDeliverer.deliver (d : SMTPDeliverer) (w : Outside) (sender body : Str) (addrs : List Str) : List Result :=
  if d.fixedHost ≠ [] then (deliverToHost d w sender body addrs).results
  else
    scatterAll addrs ofDomain (fun domain => (d.group w sender body addrs domain).results)
      (addrs.map (initialResult w)) (order addrs)

end Mailezine.Queue
