import Mailezine.Gostd.Lines
import Mailezine.Sieve.Result

/-! The header block of a message, as the delivery pipeline reads and edits it.

    The block is everything before the first empty line, cut at CRLF. A line that starts with a blank
    continues the field before it. -/

namespace Mailezine.Delivery
open Gostd

/-- The header block and the rest, which starts with the end of the last header line. -/
def splitBlock (data : Str) : Str × Str :=
  match index (crlf ++ crlf) data with
  | some i => (data.take i, data.drop i)
  | none => (data, [])

/-- A continuation line. -/
def continues : Str → Bool
  | b :: _ => b = 0x20 || b = 0x09
  | [] => false

/-- The loop of `headerValue` over the lines, with what was read of the field. -/
def headerLines (u : Unicode) (key : Str) : Option Str → List Str → Option Str
  | acc, [] => acc
  | acc, line :: rest =>
    if line = [] then acc
    else if continues line then headerLines u key (acc.map fun v => v ++ 0x20 :: trimSpace line) rest
    else if acc.isSome then acc
    else if key.isPrefixOf (u.toLower line) then
      headerLines u key (some (trimSpace (line.drop key.length))) rest
    else headerLines u key none rest

/-- The first value of a header field, empty when there is none. -/
def headerValue (u : Unicode) (data key : Str) : Str :=
  (headerLines u (u.toLower key ++ ascii ":") none (split crlf (splitBlock data).1)).getD []

def hasHeader (u : Unicode) (data key : Str) : Bool := headerValue u data key ≠ []

def suppressesAutoReply (u : Unicode) (data : Str) : Bool :=
  if headerValue u data (ascii "X-Auto-Response-Suppress") ≠ [] then true
  else
    let v := headerValue u data (ascii "Auto-Submitted")
    v ≠ [] && !equalFold (trimSpace v) (ascii "no")

def headersContain (u : Unicode) (headers : List Str) (key : Str) : Bool :=
  headers.any fun h => (u.toLower key ++ ascii ":").isPrefixOf (u.toLower h)

/-- One logical header field: its name and value, and its first and last line. -/
structure HeaderField where
  name : Str
  value : Str
  start : Nat
  stop : Nat
  deriving DecidableEq

/-- The loop of `splitHeaderFields`: the fields so far, last first, and whether the last one is open. -/
def fieldLines : List HeaderField → Bool → Nat → List Str → List HeaderField
  | out, _, _, [] => out.reverse
  | out, cur, i, line :: rest =>
    if line = [] then fieldLines out cur (i + 1) rest
    else if continues line then
      match cur, out with
      | true, f :: out =>
        fieldLines ({ f with value := f.value ++ 0x20 :: trimSpace line, stop := i } :: out) true (i + 1) rest
      | _, out => fieldLines out cur (i + 1) rest
    else match line.findIdx? (· = 0x3a) with
      | some c => fieldLines (⟨line.take c, trimSpace (line.drop (c + 1)), i, i⟩ :: out) true (i + 1) rest
      | none => fieldLines out false (i + 1) rest

def splitHeaderFields (lines : List Str) : List HeaderField := fieldLines [] false 0 lines

/-- The lines that belong to none of the given fields. -/
def linesWithout (lines : List Str) (gone : List HeaderField) : List Str :=
  (lines.zipIdx.filter fun (_, i) => !gone.any fun f => f.start ≤ i && i ≤ f.stop).map Prod.fst

def stripHeaderFields (u : Unicode) (data : Str) (names : List Str) : Str :=
  let (block, body) := splitBlock data
  let lines := split crlf block
  let gone := (splitHeaderFields lines).filter fun f => (names.map u.toLower).contains (u.toLower f.name)
  join crlf (linesWithout lines gone) ++ body

def matchesAnyValue (patterns : List Str) (value : Str) : Bool := patterns.any fun p => trimSpace p = value

/-- The fields that one deleteheader removes, counting the fields of its name. -/
def doomedFields (u : Unicode) (e : Sieve.HeaderEdit) (values : List Str) : Nat → List HeaderField → List HeaderField
  | _, [] => []
  | occurrence, f :: rest =>
    if u.toLower f.name ≠ u.toLower e.name then doomedFields u e values occurrence rest
    else if (0 < e.index && (occurrence + 1 : Int) ≠ e.index) ||
        (values ≠ [] && !matchesAnyValue values f.value) then doomedFields u e values (occurrence + 1) rest
    else f :: doomedFields u e values (occurrence + 1) rest

def deleteHeaderFields (u : Unicode) (lines : List Str) (e : Sieve.HeaderEdit) : List Str :=
  let values := if e.values = [] ∧ e.value ≠ [] then split (ascii ",") e.value else e.values
  linesWithout lines (doomedFields u e values 0 (splitHeaderFields lines))

def applyHeaderEdits (u : Unicode) (data : Str) (res : Sieve.Result) : Str :=
  if res.deleteHeaders = [] ∧ res.addHeaders = [] then data
  else
    let (block, body) := splitBlock data
    let lines := res.deleteHeaders.foldl (deleteHeaderFields u) (split crlf block)
    join crlf (lines ++ res.addHeaders.map fun e => e.name ++ ascii ": " ++ e.value) ++ body

def prependHeaders (headers : List Str) (data : Str) : Str :=
  (headers.flatMap fun h => if crlf.isSuffixOf h then h else h ++ crlf) ++ data

example : applyHeaderEdits asciiOnly (ascii "A: 1\r\nB: 2\r\n 3\r\n\r\nx")
    { deleteHeaders := [{ name := ascii "b" }], addHeaders := [{ name := ascii "C", value := ascii "4" }] } =
    ascii "A: 1\r\nC: 4\r\n\r\nx" := by decide

end Mailezine.Delivery
