import Mailezine.Gostd.Strings

/-! Messages as the protocol layers see them, and the flag helpers of `internal/mailstore`. -/

namespace Mailezine.Mailstore
open Gostd

/-- A time at second resolution, as RFC 3339 text keeps it; `none` is Go's zero time. -/
abbrev Date := Option Int

/-- `Message`: one copy of a delivered message in a listing, without its bytes. -/
structure Message where
  uid : Nat
  sender : Str := []
  head : Str := []
  body : Str := []
  flags : List Str := []
  keywords : List Str := []
  internalDate : Date := none
  size : Int64 := 0
  modSeq : Nat := 0
  deriving DecidableEq

/-- `FlagUpdate`: one message's replacement flag set in a batch. -/
structure FlagUpdate where
  uid : Nat
  flags : List Str

/-- The flag `\Seen`. -/
def flagSeen : Str := ascii "\\Seen"

/-- The flag `\Deleted`. -/
def flagDeleted : Str := ascii "\\Deleted"

/-- `HasFlag`: flags are matched regardless of letter case. -/
def hasFlag (flags : List Str) (want : Str) : Bool := flags.any (equalFold · want)

/-- `normalizeFlags`: fold the legacy `Seen` bit into `\Seen`. -/
def normalizeFlags (flags : List Str) (seen : Bool) : List Str :=
  if seen ∧ flagSeen ∉ flags then flags ++ [flagSeen] else flags

/-- A system flag starts with a backslash. -/
def isSystem (flag : Str) : Bool := flag.head? = some 0x5c

/-- `splitFlags`: system flags and keywords, each in the given order. -/
def splitFlags (flags : List Str) : List Str × List Str :=
  (flags.filter isSystem, flags.filter (!isSystem ·))

/-- `splitCSV`. -/
def splitCSV (b : Str) : List Str := if b = [] then [] else b.splitOn 0x2c

/-- `hasListToken`: the comma-joined list has this token, regardless of letter case. -/
def hasListToken (list want : Str) : Bool := (splitCSV list).any (equalFold · want)

/-- `maxStoredHeaderBytes`. -/
def maxStoredHeaderBytes : Nat := 65536

/-- `headerBlock`: everything through the blank line that ends the header, if it is in the cap. -/
def headerBlock (data : Str) : Str :=
  let head := data.take maxStoredHeaderBytes
  match index [0x0d, 0x0a, 0x0d, 0x0a] head with
  | some i => head.take (i + 4)
  | none =>
    match index [0x0a, 0x0a] head with
    | some i => head.take (i + 2)
    | none => []

example : hasFlag [ascii "\\seen"] flagSeen = true := by decide

end Mailezine.Mailstore
