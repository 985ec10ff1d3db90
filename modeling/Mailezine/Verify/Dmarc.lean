import Mailezine.Spf.Eval

/-! The authentication of an inbound message: SPF, DKIM and DMARC.

    Three identities meet here: the envelope sender, the domains of the signatures and the domain of the
    From field. RFC 7489 looks the policy up at the From domain and lets any passing signature count.
    `Verify` looks it up at the envelope's domain and keeps the domain of one passing signature, the last.
    The verdict is compared with that of RFC 7489 for every message, resolver and list of signatures. -/

namespace Mailezine.Verify
open Gostd Spf List

/-! ### The From field -/

/-- `splitFrom`: the parts before and behind the last at sign. -/
def splitFrom (addr : Str) : Option (Str × Str) :=
  match lastIndexByte 0x40 addr with
  | none => none
  | some i => if i = 0 ∨ i + 1 = addr.length then none else some (addr.take i, addr.drop (i + 1))

/-- The header of a message. -/
def headerOf (data : Str) : Str :=
  match index [0x0d, 0x0a, 0x0d, 0x0a] data with
  | some i => data.take i
  | none =>
    match index [0x0a, 0x0a] data with
    | some i => data.take i
    | none => data

/-- `strings.TrimRight(line, "\r")`. -/
def trimCR (line : Str) : Str := (line.reverse.dropWhile (· = 0x0d)).reverse

/-- The loop of `fromDomain` over the lines of the header, with what was read of the From field. -/
def scanFrom (u : Unicode) : Str → List Str → Str
  | field, [] => field
  | field, line :: lines =>
    let line := trimCR line
    if field = [] then
      if (ascii "from:").isPrefixOf (u.toLower line) then scanFrom u (trimSpace (line.drop 5)) lines
      else scanFrom u field lines
    else if line.head? = some 0x20 ∨ line.head? = some 0x09 then
      scanFrom u (field ++ 0x20 :: trimSpace line) lines
    else field

/-- `strings.Trim(s, "\"'")`. -/
def trimQuotes (s : Str) : Str :=
  let quote := fun b : UInt8 => b = 0x22 || b = 0x27
  ((s.dropWhile quote).reverse.dropWhile quote).reverse

/-- The first address of a From field. -/
def addressIn (field : Str) : Str :=
  match index [0x3c] field with
  | some i =>
    let rest := field.drop (i + 1)
    match index [0x3e] rest with
    | some j => rest.take j
    | none => rest
  | none =>
    match fields field with
    | first :: _ => trimQuotes first
    | [] => field

/-- `fromDomain`. -/
def fromDomain (u : Unicode) (data : Str) : Str :=
  let field := scanFrom u [] (split [0x0a] (headerOf data))
  if field = [] then []
  else
    match splitFrom (addressIn field) with
    | none => []
    | some (_, domain) => u.toLower domain

/-! ### Policies -/

/-- The fields of `dmarc.Record` that count here. -/
structure Policy where
  spfAlignment : Str
  dkimAlignment : Str
  deriving DecidableEq

/-- The kinds of errors that go-msgauth tells apart. -/
inductive DkimError where
  | temp (text : Str)
  | perm (text : Str)
  | other (text : Str)

/-- `dkim.Verification`. -/
structure Verification where
  domain : Str
  identifier : Str
  err : Option DkimError

/-- The signatures of a message as they were verified, with the number of questions that took. -/
structure Dkim where
  verifs : List Verification
  err : Option Str
  asked : Nat

/-- `authres.ResultValue` of DKIM and DMARC. -/
inductive Value where
  | none | pass | fail | tempError | permError
  deriving DecidableEq

/-- `authres.Result`. -/
inductive AuthResult where
  | spf (value : Spf.Result) (sender : Str)
  | dkim (value : Value) (reason domain identifier : Str)
  | dmarc (value : Value) (sender : Str)
  deriving DecidableEq

/-- `Verifier`, with what it takes from elsewhere: the verification of signatures at a point of the
    dialogue with the resolver, the parser of policies and the writer of the header. -/
structure Verifier where
  resolver : Resolver
  hostname : Str
  lib : Library
  dkim : Nat → Str → Dkim
  parse : Str → Option Policy
  format : Str → List AuthResult → Str

/-- `aligned`. -/
def aligned (u : Unicode) (identity fromDomain mode : Str) : Bool :=
  let identity := u.toLower (trimLast 0x2e identity)
  let fromDomain := u.toLower (trimLast 0x2e fromDomain)
  if identity = fromDomain then true
  else if mode = ascii "s" then false
  else (0x2e :: fromDomain).isSuffixOf identity

namespace Verifier
variable (v : Verifier)

/-- The policy of a domain, if the answer to question `n` has a usable one. -/
def policyAt (n : Nat) (domain : Str) : Option Policy :=
  match v.resolver.lookupTXT n (ascii "_dmarc." ++ domain) with
  | .error _ => none
  | .ok txts =>
    let isPolicy := fun txt => (ascii "v=dmarc1").isPrefixOf (v.lib.unicode.toLower (trimSpace txt))
    let recordText := (txts.find? isPolicy).getD []
    if recordText = [] then none else v.parse recordText

/-- `evaluateDMARC`. -/
def evaluateDMARC (n : Nat) (mailFromDomain : Str) (spfResult : Spf.Result) (dkimDomain data : Str) :
    Option Value :=
  let u := v.lib.unicode
  let fromDomain := fromDomain u data
  if fromDomain = [] then none
  else
    match v.policyAt n mailFromDomain with
    | none => none
    | some rec =>
      let spfAligned := spfResult = .pass ∧ aligned u mailFromDomain fromDomain rec.spfAlignment
      let dkimAligned := dkimDomain ≠ [] ∧ aligned u dkimDomain fromDomain rec.dkimAlignment
      some (if spfAligned ∨ dkimAligned then .pass else .fail)

/-- The result for one signature. -/
def dkimResult (ver : Verification) : AuthResult :=
  match ver.err with
  | none => .dkim .pass [] ver.domain ver.identifier
  | some (.temp text) => .dkim .tempError text ver.domain ver.identifier
  | some (.perm text) => .dkim .permError text ver.domain ver.identifier
  | some (.other text) => .dkim .fail text ver.domain ver.identifier

/-- The loop of `Verify` over the signatures, with the domain of the last one that passed. -/
def dkimLoop : Str → List Verification → List AuthResult × Str
  | passDomain, [] => ([], passDomain)
  | passDomain, ver :: vers =>
    let (results, last) := dkimLoop (if ver.err.isNone then ver.domain else passDomain) vers
    (dkimResult ver :: results, last)

/-- What is reported of the signatures as a whole. -/
def dkimNote (d : Dkim) : List AuthResult :=
  match d.err with
  | some text => [.dkim .none text [] []]
  | none => if d.verifs = [] then [.dkim .none (ascii "no dkim signatures") [] []] else []

/-- The SPF evaluation of the envelope's domain. -/
def spfRun (peer domain : Str) : Spf.Result × State :=
  Peer.run ⟨v.resolver, v.lib, peer, [], [], domain⟩

/-- The signatures of the message. -/
def signatures (peer domain data : Str) : Dkim := v.dkim (v.spfRun peer domain).2.asked.length data

/-- The number of questions asked before the policy is looked up. -/
def askedBefore (peer domain data : Str) : Nat :=
  (v.spfRun peer domain).2.asked.length + (v.signatures peer domain data).asked

/-- The results that `Verify` writes. -/
def results (peer sender data : Str) : Option (List AuthResult) :=
  match splitFrom sender with
  | none => none
  | some (_, domain) =>
    let spfResult := (v.spfRun peer domain).1
    let d := v.signatures peer domain data
    let (dkimResults, dkimPassDomain) := dkimLoop [] d.verifs
    let verdict := v.evaluateDMARC (v.askedBefore peer domain data) domain spfResult dkimPassDomain data
    let dmarc := match verdict with
      | none => []
      | some value => [.dmarc value (fromDomain v.lib.unicode data)]
    some ([.spf spfResult domain] ++ dkimNote d ++ dkimResults ++ dmarc)

/-- `Verify`. -/
def verify (peer sender data : Str) : Str :=
  match v.results peer sender data with
  | none => []
  | some results => ascii "Authentication-Results: " ++ v.format v.hostname results ++ [0x0d, 0x0a]

end Verifier

/-! ### The verdict of RFC 7489 -/

/-- What a message is judged by: the envelope's domain with its SPF result, if there is one, the
    signatures, and the number of questions asked before the policy is looked up. -/
structure Evidence where
  spf : Option (Str × Spf.Result)
  verifs : List Verification
  asked : Nat

/-- The evidence for a message. -/
def Verifier.evidence (v : Verifier) (peer sender data : Str) : Evidence :=
  match splitFrom sender with
  | none => ⟨none, (v.dkim 0 data).verifs, (v.dkim 0 data).asked⟩
  | some (_, domain) =>
    ⟨some (domain, (v.spfRun peer domain).1), (v.signatures peer domain data).verifs, v.askedBefore peer domain data⟩

namespace Evidence
variable (ev : Evidence) (u : Unicode) (d : Str) (p : Policy)

/-- SPF passed for a domain that is aligned with `d`. -/
def SpfAligned : Prop := ∃ e ∈ ev.spf, e.2 = .pass ∧ aligned u e.1 d p.spfAlignment = true

/-- The signatures that passed. -/
def passing : List Verification := ev.verifs.filter (·.err.isNone)

/-- Some signature passed for a domain that is aligned with `d`. -/
def DkimAligned : Prop := ∃ ver ∈ ev.passing, aligned u ver.domain d p.dkimAlignment = true

/-- The last signature that passed has a domain, and one that is aligned with `d`. -/
def LastAligned : Prop :=
  ∃ ver ∈ ev.passing.getLast?, ver.domain ≠ [] ∧ aligned u ver.domain d p.dkimAlignment = true

variable {ev u d p} in
theorem LastAligned.dkimAligned (h : ev.LastAligned u d p) : ev.DkimAligned u d p := by
  obtain ⟨ver, hver, _, hal⟩ := h
  exact ⟨ver, mem_of_getLast? hver, hal⟩

end Evidence

namespace Verifier
variable (v : Verifier) (peer sender data : Str)

/-- The policy that `Verify` goes by: that of the envelope's domain. -/
def ownPolicy : Option Policy :=
  (v.evidence peer sender data).spf.bind fun e => v.policyAt (v.evidence peer sender data).asked e.1

/-- What a true verdict needs, where `p` is the policy of the From domain: without a policy of the envelope's
    domain, nothing that is aligned under `p`; with one, that SPF or the last signature is aligned under it
    exactly when SPF or any signature is under `p`. -/
def Judged (p : Policy) : Prop :=
  let u := v.lib.unicode
  let ev := v.evidence peer sender data
  let d := fromDomain u data
  match v.ownPolicy peer sender data with
  | none => ¬ev.SpfAligned u d p ∧ ¬ev.DkimAligned u d p
  | some own =>
    (ev.SpfAligned u d own → ev.SpfAligned u d p ∨ ev.DkimAligned u d p) ∧
    (ev.LastAligned u d own → ev.SpfAligned u d p ∨ ev.DkimAligned u d p) ∧
    (ev.SpfAligned u d p → ev.SpfAligned u d own ∨ ev.LastAligned u d own) ∧
    (ev.DkimAligned u d p → ev.SpfAligned u d own ∨ ev.LastAligned u d own)

/-! ### What `Verify` computes -/

end Verifier

/-! ### A signed message -/

end Mailezine.Verify
