import Mailezine.Spf.Eval
import Mathlib.Data.List.TakeWhile

/-! The control flow of a record, against RFC 7208.

    Which mechanisms other than `include` match is taken as the code finds it, and so is what another
    domain evaluates to. What is compared is how a record is put together from that: the order of its
    terms, what `include` makes of a result, when `redirect` is followed and which modifiers count. -/

namespace Mailezine.Spf
open Schemes Gostd List

/-! ### The terms of a record -/

/-- A letter. -/
def isAlpha (b : UInt8) : Bool := within 0x41 0x5a b || within 0x61 0x7a b

/-- The bytes of a modifier's name behind the first one. -/
def isNameByte (b : UInt8) : Bool := isAlpha b || within 0x30 0x39 b || b = 0x2d || b = 0x5f || b = 0x2e

/-- The name of a modifier: `ALPHA *( ALPHA / DIGIT / "-" / "_" / "." )`. -/
def isName : Str → Bool
  | [] => false
  | b :: r => isAlpha b && r.all isNameByte

/-- What a term is. -/
inductive Term where
  | redirect (target : Str)
  | modifier
  | mechanism
  deriving DecidableEq

/-- A modifier is a name, an equals sign and a value; every other term is a mechanism. -/
def classify (term : Str) : Term :=
  match cut 0x3d term with
  | (name, value, found) =>
    if found ∧ isName name then
      if name.map lowerByte = ascii "redirect" then .redirect value else .modifier
    else .mechanism

/-- The names of the mechanisms. -/
def mechanisms : List Str :=
  [ascii "all", ascii "include", ascii "a", ascii "mx", ascii "ptr", ascii "ip4", ascii "ip6", ascii "exists"]

/-- The name of a mechanism ends at its domain or at its prefix length. -/
def mechanismName (term : Str) : Str :=
  ((splitQualifier term).2.takeWhile fun b => b ≠ 0x3a && b ≠ 0x2f).map lowerByte

/-- The syntax of a term: visible characters, and a name that a mechanism has. -/
def validTerm (term : Str) : Bool :=
  term.all (within 0x21 0x7e) &&
    match classify term with
    | .redirect target => target ≠ []
    | .modifier => true
    | .mechanism => mechanismName term ∈ mechanisms

/-- Whether a term is a redirect. -/
def isRedirect (term : Str) : Bool :=
  match classify term with
  | .redirect _ => true
  | _ => false

/-- A record without syntax errors. -/
structure Record where
  text : Str
  version : Str
  terms : List Str
  split : fields text = version :: terms
  spf1 : equalFold version (ascii "v=spf1") = true
  valid : ∀ t ∈ terms, validTerm t = true
  once : (terms.filter isRedirect).length ≤ 1

/-! ### The evaluation of RFC 7208 -/

/-- What evaluating a domain yields: a name that does not exist has no record. -/
def Peer.yields (e : Peer) (sub : Str → Eval Result) (target : Str) : Eval Result := fun s =>
  match e.r.lookupTXT s.asked.length target with
  | .error .notFound => (.none, (sub target s).2)
  | _ => sub target s

/-- A redirect to a domain without record is an error. -/
def redirected : Result → Result
  | .none => .permError
  | res => res

/-- The domain has a name and a record, as far as the resolver is asked. -/
def Peer.Published (e : Peer) (sub : Str → Eval Result) (target : Str) : Prop :=
  ∀ s : State, e.r.lookupTXT s.asked.length target ≠ .error .notFound ∧ (sub target s).1 ≠ .none

/-- What has to hold of the terms of a record: `exp` is the only modifier besides `redirect`, no
    mechanism stands behind a redirect, an `include` has the qualifier `+`, and the domains that the two
    name have records, the included ones such that do not come to `fail`. -/
def Peer.Plain (e : Peer) (sub : Str → Eval Result) (domain : Str) : List Str → Prop
  | [] => True
  | t :: ts =>
    match classify t with
    | .modifier => (cut 0x3d t).1.map lowerByte = ascii "exp" ∧ e.Plain sub domain ts
    | .redirect target =>
      (∀ m ∈ ts, classify m ≠ .mechanism) ∧
        ∀ s name, (e.expand target domain false s).1 = some name → e.Published sub name
    | .mechanism =>
      (∀ s q target, (e.readTerm t domain s).1 = .recurse q target →
        resultForQualifier q = .pass ∧ e.Published sub target ∧ ∀ s', (sub target s').1 ≠ .fail) ∧
      e.Plain sub domain ts

/-! ### Modifiers and mechanisms as the code tells them apart -/

theorem toLower_of_ascii (u : Unicode) : ∀ {s : Str}, (∀ b ∈ s, b ≤ 0x7f) → u.toLower s = s.map lowerByte
  | [], _ => rfl
  | b :: s, h => by
    rw [u.toLower_cons (h b (by simp)), toLower_of_ascii u fun c hc => h c (by simp [hc]), map_cons]

variable {t : Str}

theorem splitQualifier_of_not_mem {b : UInt8} {r : Str} (h : b ∉ ascii "+-~?") :
    splitQualifier (b :: r) = (0x2b, b :: r) := by
  cases r with
  | nil => rfl
  | cons c r => rw [splitQualifier, if_neg h]

theorem mechanism_unknown (e : Peer) {mech : Str} (h : mech ∉ mechanisms) (q : UInt8) (arg : Str)
    (hasArg : Bool) (domain : Str) (s : State) : e.mechanism q mech arg hasArg domain s = (.done .permErr, s) := by
  simp only [mechanisms, mem_cons, not_mem_nil, or_false, not_or] at h
  simp only [Peer.mechanism, h, if_false, or_false]
  rfl

/-! ### One term -/

section Terms
variable (e : Peer) (sub : Str → Eval Result) (domain : Str)

variable {t : Str}

variable {e sub domain}

end Terms

/-! ### Whole records -/

/-- A resolver that knows some TXT records and nothing else. -/
def zone (records : List (Str × Str)) : Resolver where
  lookupTXT _ name := (records.lookup name).elim (.error .notFound) fun text => .ok [text]
  lookupIPAddr _ _ := .error .notFound
  lookupMX _ _ := .error .notFound
  lookupAddr _ _ := .error .notFound

/-- A library whose address parsers accept nothing. -/
def plainLibrary : Library := ⟨asciiOnly, fun _ => [], fun _ => none, fun _ => none, 0⟩

/-- A client at 192.0.2.1. -/
def client (r : Resolver) : Peer := ⟨r, plainLibrary, [192, 0, 2, 1], [], [], ascii "a.example"⟩

end Mailezine.Spf
