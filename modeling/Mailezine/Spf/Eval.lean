import Mailezine.Gostd.Strings
import Mailezine.Schemes.ByteKeys

/-! `internal/spf`: the evaluation of SPF records.

    An evaluation asks the resolver and counts. A resolver may answer the same question differently the
    next time, so an answer depends on how many questions were asked before. The text of an address, the
    parsers of `net/netip` and the clock belong to the library and are parameters; the recursion through
    `include` and `redirect` is written with the evaluation of other domains as a parameter, and
    `checkDomain` ties the knot. -/

namespace Mailezine.Spf
open Schemes Gostd

/-! ### Addresses -/

/-- A `netip.Addr` without a zone. -/
inductive Addr where
  | v4 (bits : BitVec 32)
  | v6 (bits : BitVec 128)
  deriving DecidableEq

/-- `AddrFromSlice`. -/
def addrFromSlice (b : Str) : Option Addr :=
  if b.length = 4 then some (.v4 (.ofNat 32 (unbe b)))
  else if b.length = 16 then some (.v6 (.ofNat 128 (unbe b)))
  else none

/-- `Unmap`. -/
def Addr.unmap : Addr → Addr
  | .v4 b => .v4 b
  | .v6 b => if b >>> 32 = 0xffff#128 then .v4 (b.setWidth 32) else .v6 b

/-- `BitLen`. -/
def Addr.bitLen : Addr → Nat
  | .v4 _ => 32
  | .v6 _ => 128

/-- A valid `netip.Prefix`. -/
structure Prefix where
  addr : Addr
  bits : Nat
  fits : bits ≤ addr.bitLen

/-- `PrefixFrom`, or none for a prefix that is not valid. -/
def prefixFrom (addr : Addr) (bits : Nat) : Option Prefix :=
  if h : bits ≤ addr.bitLen then some ⟨addr, bits, h⟩ else none

/-- `Prefix.Contains`. -/
def Prefix.contains (p : Prefix) (ip : Addr) : Bool :=
  match p.addr, ip with
  | .v4 a, .v4 b => (b ^^^ a) >>> (32 - p.bits) = 0
  | .v6 a, .v6 b => (b ^^^ a) >>> (128 - p.bits) = 0
  | _, _ => false

/-! ### Evaluations -/

/-- `Result`. -/
inductive Result where
  | none | neutral | pass | fail | softFail | tempError | permError
  deriving DecidableEq

/-- What a failed lookup says; `isNotFound` tells the two apart. -/
inductive DNSError where
  | notFound | other
  deriving DecidableEq

/-- The answers of a `maildns.Resolver`, by the number of questions asked before. -/
structure Resolver where
  lookupTXT : Nat → Str → Except DNSError (List Str)
  lookupIPAddr : Nat → Str → Except DNSError (List Str)
  lookupMX : Nat → Str → Except DNSError (List Str)
  lookupAddr : Nat → Str → Except DNSError (List Str)

/-- The questions. -/
inductive Query where
  | txt (name : Str) | ip (host : Str) | mx (name : Str) | addr (ip : Str)
  deriving DecidableEq

/-- The library: the table of lower case letters, the text of an address, the parsers of `net/netip`
    and the clock. -/
structure Library where
  unicode : Unicode
  ipString : Str → Str
  parsePrefix : Str → Option Prefix
  parseAddr : Str → Option Addr
  now : Int

/-- The fields of `eval` that do not change. -/
structure Peer where
  r : Resolver
  lib : Library
  ip : Str
  helo : Str
  localpart : Str
  senderDomain : Str

/-- The fields of `eval` that do, and the questions asked, the last one first. -/
structure State where
  lookups : Nat := 0
  depth : Nat := 0
  asked : List Query := []

/-- An evaluation. -/
abbrev Eval := StateM State

def maxDNSLookups : Nat := 10
def maxIncludeDepth : Nat := 20

/-- Ask the resolver. -/
def ask {α : Type} (q : Query) (answer : Nat → α) : Eval α := fun s =>
  (answer s.asked.length, { s with asked := q :: s.asked })

def Peer.lookupTXT (e : Peer) (name : Str) := ask (.txt name) fun n => e.r.lookupTXT n name
def Peer.lookupIPAddr (e : Peer) (host : Str) := ask (.ip host) fun n => e.r.lookupIPAddr n host
def Peer.lookupMX (e : Peer) (name : Str) := ask (.mx name) fun n => e.r.lookupMX n name
def Peer.lookupAddr (e : Peer) := ask (.addr (e.lib.ipString e.ip)) fun n => e.r.lookupAddr n (e.lib.ipString e.ip)

/-- `budget`. -/
def budget : Eval Bool := fun s =>
  (s.lookups + 1 ≤ maxDNSLookups, { s with lookups := s.lookups + 1 })

/-- `e.depth++`. -/
def deeper : Eval Unit := modify fun s => { s with depth := s.depth + 1 }

/-- `e.depth--`. -/
def shallower : Eval Unit := modify fun s => { s with depth := s.depth - 1 }

theorem bind_apply {α β : Type} (m : Eval α) (f : α → Eval β) (s : State) :
    (m >>= f) s = f (m s).1 (m s).2 := rfl

/-! ### Addresses of hosts -/

/-- `strings.TrimSuffix` for a suffix of one byte. -/
def trimLast (c : UInt8) (s : Str) : Str := if s.getLast? = some c then s.dropLast else s

/-- `ipWithin`. -/
def ipWithin (ip addr : Str) (cidr : Int) : Bool :=
  match addrFromSlice ip, addrFromSlice addr with
  | some a, some b =>
    if cidr < 0 then a = b
    else if cidr > b.bitLen then false
    else (prefixFrom b.unmap cidr.toNat).any (·.contains a.unmap)
  | _, _ => false

/-- `ipInAddrs`. -/
def Peer.ipInAddrs (e : Peer) (host : Str) (cidr : Int) : Eval Bool := do
  match ← e.lookupIPAddr host with
  | .error _ => pure false
  | .ok ips => pure (ips.any (ipWithin e.ip · cidr))

/-- The loop of `ipInMX` and what follows it. -/
def Peer.inHosts (e : Peer) (domain : Str) (cidr : Int) : List Str → Eval Bool
  | [] => do
    if !(← budget) then return false
    e.ipInAddrs domain cidr
  | host :: hosts => do
    if !(← budget) then return false
    if ← e.ipInAddrs (trimLast 0x2e host) cidr then return true
    e.inHosts domain cidr hosts

/-- An evaluation that goes on when a lookup is left. -/
theorem ifBudget_apply {α : Type} (out m : Eval α) (s : State) : (do if !(← budget) then out else m) s =
      if s.lookups < maxDNSLookups then m { s with lookups := s.lookups + 1 }
      else out { s with lookups := s.lookups + 1 } := by
  have hbudget : (budget s).1 = decide (s.lookups < maxDNSLookups) := rfl
  rw [bind_apply, hbudget]
  by_cases h : s.lookups < maxDNSLookups
  · simp only [h, decide_true, Bool.not_true, Bool.false_eq_true, if_true, if_false]
    rfl
  · simp only [h, decide_false, Bool.not_false, if_true, if_false]
    rfl

variable (e : Peer)

theorem Peer.inHosts_nil (domain : Str) (cidr : Int) (s : State) : e.inHosts domain cidr [] s =
    if s.lookups < maxDNSLookups then e.ipInAddrs domain cidr { s with lookups := s.lookups + 1 }
    else (false, { s with lookups := s.lookups + 1 }) :=
  ifBudget_apply ..

theorem Peer.inHosts_cons (domain : Str) (cidr : Int) (host : Str) (hosts : List Str) (s : State) :
    e.inHosts domain cidr (host :: hosts) s = if s.lookups < maxDNSLookups then
        match e.ipInAddrs (trimLast 0x2e host) cidr { s with lookups := s.lookups + 1 } with
        | (true, s') => (true, s')
        | (false, s') => e.inHosts domain cidr hosts s'
      else (false, { s with lookups := s.lookups + 1 }) := by
  rw [Peer.inHosts, ifBudget_apply, bind_apply]
  rcases e.ipInAddrs (trimLast 0x2e host) cidr { s with lookups := s.lookups + 1 } with ⟨_ | _, s'⟩ <;> rfl

/-- `ipInMX`. -/
def Peer.ipInMX (e : Peer) (domain : Str) (cidr : Int) : Eval Bool := do
  match ← e.lookupMX domain with
  | .error _ => pure false
  | .ok hosts => e.inHosts domain cidr hosts

theorem Peer.ipInMX_apply (domain : Str) (cidr : Int) (s : State) : e.ipInMX domain cidr s =
    match e.r.lookupMX s.asked.length domain with
    | .error _ => (false, { s with asked := .mx domain :: s.asked })
    | .ok hosts => e.inHosts domain cidr hosts { s with asked := .mx domain :: s.asked } := by
  have hask : e.lookupMX domain s = (e.r.lookupMX s.asked.length domain, { s with asked := .mx domain :: s.asked }) :=
    rfl
  rw [Peer.ipInMX, bind_apply, hask]
  cases e.r.lookupMX s.asked.length domain <;> rfl

/-- The loop of `ptrMatches`. -/
def Peer.confirmNames (e : Peer) (domain : Str) : List Str → Eval Bool
  | [] => pure false
  | name :: names => do
    let name := e.lib.unicode.toLower (trimLast 0x2e name)
    if name ≠ domain ∧ !(0x2e :: domain).isSuffixOf name then e.confirmNames domain names
    else
      if !(← budget) then return false
      if ← e.ipInAddrs name (-1) then return true
      e.confirmNames domain names

/-- `ptrMatches`. -/
def Peer.ptrMatches (e : Peer) (domain : Str) : Eval Bool := do
  match ← e.lookupAddr with
  | .error _ => pure false
  | .ok names => e.confirmNames (e.lib.unicode.toLower (trimLast 0x2e domain)) names

/-! ### Macros -/

/-- `strings.Cut` at a byte: what is before it, what is behind it, and whether it was found. -/
def cut (c : UInt8) (s : Str) : Str × Str × Bool :=
  match s.findIdx? (· = c) with
  | some i => (s.take i, s.drop (i + 1), true)
  | none => (s, [], false)

/-- A digit of the base64 alphabet for URLs. -/
def rawURLDigit (n : Nat) : UInt8 :=
  ((ascii "ABCDEFGHIJKLMNOPQRSTUVWXYZabcdefghijklmnopqrstuvwxyz0123456789-_")[n]?).getD 0

/-- `base64.RawURLEncoding`. -/
def encodeRawURL : Str → Str
  | [] => []
  | [a] => [rawURLDigit (a.toNat / 4), rawURLDigit (a.toNat % 4 * 16)]
  | [a, b] => [rawURLDigit (a.toNat / 4), rawURLDigit (a.toNat % 4 * 16 + b.toNat / 16),
      rawURLDigit (b.toNat % 16 * 4)]
  | a :: b :: c :: r =>
    rawURLDigit (a.toNat / 4) :: rawURLDigit (a.toNat % 4 * 16 + b.toNat / 16) ::
      rawURLDigit (b.toNat % 16 * 4 + c.toNat / 64) :: rawURLDigit (c.toNat % 64) :: encodeRawURL r

/-- The count of a part transform, when it can be applied to `parts`. -/
def partCount (t : Str) (parts : List Str) : Option Nat :=
  (atoi t).bind fun n => if n ≤ 0 ∨ n > parts.length then none else some n.toNat

/-- `applyTransform`. -/
def applyTransform (s t : Str) : Str :=
  if t = [] then s
  else
    let backward := t.getLast? = some 0x72
    let parts := if backward then (split [0x2e] s).reverse else split [0x2e] s
    let t := if backward then t.dropLast else t
    if t = [] then join [0x2e] parts
    else if t.getLast? = some 0x2d then
      match partCount t.dropLast parts with
      | none => s
      | some n => join [0x2e] (parts.drop (n - 1))
    else if t.head? = some 0x2d then
      match partCount t.tail parts with
      | none => s
      | some n => join [0x2e] (parts.drop (parts.length - n))
    else
      match partCount t parts with
      | none => s
      | some n => join [0x2e] (parts.take n)

/-- The bytes that end the letter of a macro. -/
def endsLetter (b : UInt8) : Bool := (0x30 ≤ b && b ≤ 0x39) || b = 0x72 || b = 0x2d

/-- `ip.To4() != nil`. -/
def isTo4 (ip : Str) : Bool :=
  match (addrFromSlice ip).map Addr.unmap with
  | some (.v4 _) => true
  | _ => false

/-- The value of a macro letter; the names of the peer have to be looked up. -/
def Peer.letter (e : Peer) (name domain : Str) (ipOnly : Bool) : Eval (Option Str) :=
  if name = ascii "s" then pure (some (e.localpart ++ 0x40 :: e.senderDomain))
  else if name = ascii "l" then pure (some e.localpart)
  else if name = ascii "o" then pure (some e.senderDomain)
  else if name = ascii "d" then pure (some domain)
  else if name = ascii "i" then pure (some (e.lib.ipString e.ip))
  else if name = ascii "h" then pure (some e.helo)
  else if name = ascii "v" then pure (some (if isTo4 e.ip then ascii "in-addr" else ascii "ip6"))
  else if name = ascii "p" ∨ name = ascii "r" then
    if ipOnly then pure none
    else do
      match ← e.lookupAddr with
      | .ok (host :: _) => pure (some host)
      | _ => pure (some (ascii "unknown"))
  else if name = ascii "c" then pure (some (ascii "unknown"))
  else if name = ascii "t" then pure (some (decimal e.lib.now))
  else if name = ascii "x" then pure (some (encodeRawURL e.ip))
  else pure none

/-- `expandMacro`. -/
def Peer.expandMacro (e : Peer) (body domain : Str) (ipOnly : Bool) : Eval (Option Str) := do
  let name := body.takeWhile fun b => !endsLetter b
  let transform := body.dropWhile fun b => !endsLetter b
  if name.length ≠ 1 then return none
  match ← e.letter name domain ipOnly with
  | none => return none
  | some val => return some (applyTransform val transform)

/-- What stands at a place of a text: bytes to write, or a macro. -/
inductive Piece where
  | bytes (text : Str)
  | braces (body : Str)

/-- The switch of `expand`, with the number of bytes to pass behind the first one. -/
def piece (c : UInt8) (r : Str) : Option (Piece × Nat) :=
  if c ≠ 0x25 then some (.bytes [c], 0)
  else
    match r with
    | [] => none
    | next :: rest =>
      if next = 0x25 then some (.bytes [0x25], 1)
      else if next = 0x5f then some (.bytes [0x20], 1)
      else if next = 0x2d then some (.bytes (ascii "%20"), 1)
      else if next ≠ 0x7b then none
      else (rest.findIdx? (· = 0x7d)).map fun stop => (.braces (rest.take stop), stop + 2)

/-- The text that a piece stands for. -/
def Peer.value (e : Peer) (domain : Str) (ipOnly : Bool) : Piece → Eval (Option Str)
  | .bytes text => pure (some text)
  | .braces body => e.expandMacro body domain ipOnly

/-- The loop of `expand`, with `skip` bytes of the current piece still to pass. -/
def Peer.expandFrom (e : Peer) (domain : Str) (ipOnly : Bool) : Nat → Str → Eval (Option Str)
  | _, [] => pure (some [])
  | skip + 1, _ :: r => e.expandFrom domain ipOnly skip r
  | 0, c :: r =>
    match piece c r with
    | none => pure none
    | some (p, skip) => do
      match ← e.value domain ipOnly p with
      | none => return none
      | some text => return (← e.expandFrom domain ipOnly skip r).map (text ++ ·)

/-- `expand`. -/
def Peer.expand (e : Peer) (s domain : Str) (ipOnly : Bool) : Eval (Option Str) :=
  e.expandFrom domain ipOnly 0 s

/-! ### Mechanisms -/

/-- `resultForQualifier`. -/
def resultForQualifier (q : UInt8) : Result :=
  if q = 0x2d then .fail else if q = 0x7e then .softFail else if q = 0x3f then .neutral else .pass

/-- `parsePrefix`. -/
def Library.prefixOf (lib : Library) (s : Str) : Option Prefix :=
  match lib.parsePrefix s with
  | some p => some p
  | none => (lib.parseAddr s).map fun a => ⟨a, a.bitLen, Nat.le_refl _⟩

/-- `splitCidr`. -/
def splitCidr (s : Str) : Str × Int :=
  match cut 0x2f s with
  | (_, _, false) => (s, -1)
  | (host, cidr, true) =>
    match atoi cidr with
    | some n => if n < 0 ∨ n > 128 then ([], -1) else (host, n)
    | none => ([], -1)

/-- What `evalMechanism` returns: an error, a result that ends the record, or a miss. A hit always
    carries its result. -/
inductive Mech where
  | permErr
  | ends (res : Result)
  | miss
  deriving DecidableEq

/-- The qualifier of a term and the rest. -/
def splitQualifier (term : Str) : UInt8 × Str :=
  match term with
  | q :: b :: rest => if q ∈ ascii "+-~?" then (q, b :: rest) else (0x2b, term)
  | _ => (0x2b, term)

/-- The end of `evalMechanism`. -/
def hitOrMiss (q : UInt8) (hit : Bool) : Mech := if hit then .ends (resultForQualifier q) else .miss

/-- The target and the prefix length of `a` and `mx`. -/
def targetOf (domain arg : Str) (hasArg : Bool) : Str × Int := if hasArg then splitCidr arg else (domain, -1)

/-- How far the switch of `evalMechanism` gets by itself: a mechanism that is evaluated, or an `include`
    with its qualifier and its domain. -/
inductive Step where
  | done (o : Mech)
  | recurse (q : UInt8) (target : Str)
  deriving DecidableEq

/-- A mechanism that costs a lookup. -/
def budgeted (m : Eval Step) : Eval Step := do
  if !(← budget) then return .done .permErr
  m

theorem budgeted_apply (m : Eval Step) (s : State) : budgeted m s =
    if s.lookups < maxDNSLookups then m { s with lookups := s.lookups + 1 }
    else (.done .permErr, { s with lookups := s.lookups + 1 }) :=
  ifBudget_apply ..

/-- The case of `ip4` and `ip6`. -/
def Peer.ipCase (e : Peer) (q : UInt8) (arg : Str) : Step :=
  match e.lib.prefixOf arg, addrFromSlice e.ip with
  | some p, some a => .done (hitOrMiss q (p.contains a.unmap))
  | _, _ => .done .permErr

/-- The cases of `a` and `mx`, which look for the client in different places. -/
def hostCase (find : Str → Int → Eval Bool) (q : UInt8) (arg : Str) (hasArg : Bool) (domain : Str) :
    Eval Step := do
  let target := targetOf domain arg hasArg
  if hasArg ∧ target.1 = [] then return .done .permErr
  return .done (hitOrMiss q (← find target.1 target.2))

/-- The case of `ptr`. -/
def Peer.ptrCase (e : Peer) (q : UInt8) (arg : Str) (hasArg : Bool) (domain : Str) : Eval Step := do
  if hasArg ∧ arg = [] then return .done .permErr
  return .done (hitOrMiss q (← e.ptrMatches (if hasArg then arg else domain)))

/-- The case of `exists`. -/
def Peer.existsCase (e : Peer) (q : UInt8) (arg : Str) : Eval Step := do
  if arg = [] then return .done .permErr
  match ← e.lookupIPAddr arg with
  | .ok ips => return .done (hitOrMiss q (!ips.isEmpty))
  | .error .notFound => return .done .miss
  | .error .other => return .done (.ends .tempError)

/-- The switch of `evalMechanism`, up to the evaluation of an included domain. -/
def Peer.mechanism (e : Peer) (q : UInt8) (mech arg : Str) (hasArg : Bool) (domain : Str) : Eval Step :=
  if mech = ascii "all" then pure (.done (hitOrMiss q true))
  else if mech = ascii "ip4" ∨ mech = ascii "ip6" then pure (e.ipCase q arg)
  else if mech = ascii "a" then budgeted (hostCase e.ipInAddrs q arg hasArg domain)
  else if mech = ascii "mx" then budgeted (hostCase e.ipInMX q arg hasArg domain)
  else if mech = ascii "ptr" then budgeted (e.ptrCase q arg hasArg domain)
  else if mech = ascii "exists" then budgeted (e.existsCase q arg)
  else if mech = ascii "include" then budgeted (pure (if arg = [] then .done .permErr else .recurse q arg))
  else pure (.done .permErr)

/-- The mechanisms whose argument is expanded. -/
def expanded : List Str :=
  [ascii "a", ascii "mx", ascii "ptr", ascii "exists", ascii "include", ascii "redirect"]

/-- `evalMechanism` up to the evaluation of an included domain. -/
def Peer.readTerm (e : Peer) (term domain : Str) : Eval Step := do
  let (q, body) := splitQualifier term
  let (mech, arg, hasArg) := cut 0x3a body
  let mech := e.lib.unicode.toLower mech
  if hasArg ∧ mech ∈ expanded then
    match ← e.expand arg domain true with
    | none => return .done .permErr
    | some arg => e.mechanism q mech arg hasArg domain
  else e.mechanism q mech arg hasArg domain

/-- The case of `include`: what the result of the domain makes of the term. -/
def includeCase : Result → Mech
  | .pass => .ends .pass
  | .fail => .ends .fail
  | .tempError => .ends .tempError
  | .permError => .ends .permError
  | .neutral | .softFail | .none => .miss

/-- The evaluation of an included domain. -/
def inside (sub : Str → Eval Result) (target : Str) : Eval Result := do
  deeper
  let res ← sub target
  shallower
  return res

/-- `evalMechanism`. -/
def Peer.evalMechanism (e : Peer) (sub : Str → Eval Result) (term domain : Str) : Eval Mech := do
  match ← e.readTerm term domain with
  | .done o => return o
  | .recurse _ target => return includeCase (← inside sub target)

variable (sub : Str → Eval Result)

theorem inside_apply (target : Str) (s : State) : inside sub target s =
    ((sub target { s with depth := s.depth + 1 }).1, (shallower (sub target { s with depth := s.depth + 1 }).2).2) :=
  rfl

theorem evalMechanism_eq (domain t : Str) (s : State) :
    e.evalMechanism sub t domain s = match e.readTerm t domain s with
      | (.done o, s') => (o, s')
      | (.recurse _ target, s') => (includeCase (inside sub target s').1, (inside sub target s').2) := by
  rw [Peer.evalMechanism, bind_apply]
  rcases e.readTerm t domain s with ⟨o | ⟨q, target⟩, s'⟩ <;> rfl

/-! ### Records -/

/-- `isModifier`. -/
def Library.isModifier (lib : Library) (term : Str) : Bool :=
  match term.findIdx? (· = 0x3d) with
  | some (i + 1) =>
    let key := lib.unicode.toLower (term.take (i + 1))
    key = ascii "redirect" || key = ascii "exp"
  | _ => false

/-- The evaluation that a redirect stands for. -/
def Peer.redirect (e : Peer) (sub : Str → Eval Result) (target domain : Str) : Eval Result := do
  match ← e.expand target domain false with
  | none => return .permError
  | some name =>
    deeper
    if (← get).depth > maxIncludeDepth then return .permError
    if !(← budget) then return .permError
    let res ← sub name
    shallower
    return res

/-- The loop of `evalRecord`. A hit ends it, so the result is still neutral at every modifier. -/
def Peer.evalTerms (e : Peer) (sub : Str → Eval Result) (domain : Str) : List Str → Eval Result
  | [] => pure .neutral
  | term :: terms =>
    if e.lib.isModifier term then
      let (key, target, _) := cut 0x3d term
      if equalFold key (ascii "redirect") then
        if target = [] then pure .permError else e.redirect sub target domain
      else e.evalTerms sub domain terms
    else do
      match ← e.evalMechanism sub term domain with
      | .permErr => pure .permError
      | .ends res => pure res
      | .miss => e.evalTerms sub domain terms

theorem redirect_apply (target domain : Str) (s : State) :
    e.redirect sub target domain s = match e.expand target domain false s with
      | (none, s') => (.permError, s')
      | (some name, s') =>
        if s'.depth + 1 > maxIncludeDepth then (.permError, { s' with depth := s'.depth + 1 })
        else if s'.lookups < maxDNSLookups then
          let paid := { s' with depth := s'.depth + 1, lookups := s'.lookups + 1 }
          ((sub name paid).1, (shallower (sub name paid).2).2)
        else (.permError, { s' with depth := s'.depth + 1, lookups := s'.lookups + 1 }) := by
  rw [Peer.redirect, bind_apply]
  rcases e.expand target domain false s with ⟨_ | name, s'⟩
  · rfl
  · dsimp only
    by_cases hd : s'.depth + 1 > maxIncludeDepth
    · rw [if_pos hd]
      exact congrFun (if_pos hd) { s' with depth := s'.depth + 1 }
    · rw [if_neg hd]
      refine (congrFun (if_neg hd) { s' with depth := s'.depth + 1 }).trans ?_
      exact ifBudget_apply (pure Result.permError) _ { s' with depth := s'.depth + 1 }

/-- What the terms come to, from the mechanism in front. -/
theorem evalTerms_mechanism (domain : Str) {t : Str} (ts : List Str)
    (s : State) (h : e.lib.isModifier t = false) : e.evalTerms sub domain (t :: ts) s =
      match e.evalMechanism sub t domain s with
      | (.permErr, s') => (.permError, s')
      | (.ends res, s') => (res, s')
      | (.miss, s') => e.evalTerms sub domain ts s' := by
  rw [Peer.evalTerms, h, if_neg (by decide), bind_apply]
  rcases e.evalMechanism sub t domain s with ⟨_ | res | _, s'⟩ <;> rfl

/-- `evalRecord`. -/
def Peer.evalRecord (e : Peer) (sub : Str → Eval Result) (record domain : Str) : Eval Result :=
  match fields record with
  | [] => pure .permError
  | version :: terms =>
    if equalFold version (ascii "v=spf1") then e.evalTerms sub domain terms else pure .permError

/-- The texts that are SPF records. -/
def Library.records (lib : Library) (texts : List Str) : List Str :=
  texts.filter fun txt => (ascii "v=spf1").isPrefixOf (lib.unicode.toLower (trimSpace txt))

/-- `checkDomain`, with what evaluates the domains of the record. -/
def Peer.checkWith (e : Peer) (sub : Str → Eval Result) (domain : Str) : Eval Result := do
  match ← e.lookupTXT domain with
  | .error _ => return .tempError
  | .ok texts =>
    match e.lib.records texts with
    | [] => return .none
    | [record] => e.evalRecord sub record domain
    | _ => return .permError

/-- `checkDomain`, unfolded `n` times over `bottom`. -/
def Peer.checkDomain (e : Peer) (bottom : Str → Eval Result) : Nat → Str → Eval Result
  | 0, domain => bottom domain
  | n + 1, domain => e.checkWith (e.checkDomain bottom n) domain

/-- A whole evaluation. Every level below the first one was paid for with a lookup, so the bottom is
    never reached. -/
def Peer.run (e : Peer) : Result × State :=
  e.checkDomain (fun _ => pure .permError) (maxDNSLookups + 1) e.senderDomain {}

/-- `Check`. -/
def check (resolver : Option Resolver) (lib : Library) (ip domain localpart helo : Str) : Result :=
  match resolver with
  | none => .tempError
  | some r => (Peer.run ⟨r, lib, ip, helo, localpart, domain⟩).1

end Mailezine.Spf
