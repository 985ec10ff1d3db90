import Mathlib.Data.List.Basic
import Mathlib.Data.Nat.Digits.Defs

/-! Go strings and the functions of `strings`, `strconv`, `unicode`, `encoding/base64` and
    `encoding/json` that the engine calls on them.

    A Go string is a sequence of bytes, valid UTF-8 or not, so it is a list of bytes here. Where a
    library function works on runes (`strings.Fields`, `strings.TrimSpace`, `strings.ToUpper`), the
    definition below recognises the UTF-8 encodings of the runes it treats specially: a lead byte
    never occurs inside another rune's encoding, so looking for an encoding at every byte finds the
    same runes as decoding from the left. -/

namespace Mailezine

/-- A Go `string` or `[]byte`. -/
abbrev Str := List UInt8

instance : LawfulBEq Str := List.instLawfulBEq

/-- The bytes of an ASCII literal. -/
def ascii (s : String) : Str := s.toList.map fun c => UInt8.ofNat c.toNat

namespace Gostd

/-! ### Blanks -/

/-- The UTF-8 encodings of the runes `unicode.IsSpace` accepts. -/
def spaces : List Str :=
  [[0x09], [0x0a], [0x0b], [0x0c], [0x0d], [0x20], [0xc2, 0x85], [0xc2, 0xa0], [0xe1, 0x9a, 0x80],
    [0xe2, 0x80, 0x80], [0xe2, 0x80, 0x81], [0xe2, 0x80, 0x82], [0xe2, 0x80, 0x83],
    [0xe2, 0x80, 0x84], [0xe2, 0x80, 0x85], [0xe2, 0x80, 0x86], [0xe2, 0x80, 0x87],
    [0xe2, 0x80, 0x88], [0xe2, 0x80, 0x89], [0xe2, 0x80, 0x8a], [0xe2, 0x80, 0xa8],
    [0xe2, 0x80, 0xa9], [0xe2, 0x80, 0xaf], [0xe2, 0x81, 0x9f], [0xe3, 0x80, 0x80]]

/-- The width of the blank that `s` starts with, 0 when it starts with none. -/
def spaceWidth (encs : List Str) (s : Str) : Nat :=
  match encs.find? (·.isPrefixOf s) with
  | some e => e.length
  | none => 0

/-- `cur`, the bytes of a field in reverse, as a field of its own unless it is empty. -/
def flushField (cur : Str) : List Str := if cur = [] then [] else [cur.reverse]

/-- `strings.Fields` with `skip` bytes of a blank still to pass and `cur` read of a field. -/
def fieldsFrom : Nat → Str → Str → List Str
  | _, cur, [] => flushField cur
  | skip + 1, cur, _ :: r => fieldsFrom skip cur r
  | 0, cur, b :: r =>
    match spaceWidth spaces (b :: r) with
    | 0 => fieldsFrom 0 (b :: cur) r
    | w + 1 => flushField cur ++ fieldsFrom w [] r

/-- `strings.Fields`: the maximal runs of non-blank runes. -/
def fields (s : Str) : List Str := fieldsFrom 0 [] s

/-- Drop leading blanks, with `skip` bytes of the current one still to drop. -/
def dropSpaces (encs : List Str) : Nat → Str → Str
  | _, [] => []
  | skip + 1, _ :: r => dropSpaces encs skip r
  | 0, b :: r =>
    match spaceWidth encs (b :: r) with
    | 0 => b :: r
    | w + 1 => dropSpaces encs w r

/-- `strings.TrimSpace`. -/
def trimSpace (s : Str) : Str :=
  (dropSpaces (spaces.map List.reverse) 0 (dropSpaces spaces 0 s).reverse).reverse

/-- `strings.TrimRight(s, "\r\n")`. -/
def trimCRLF (s : Str) : Str := (s.reverse.dropWhile fun b => b = 0x0d || b = 0x0a).reverse

/-! ### Letter case -/

/-- `strings.ToUpper`, as far as a comparison with an ASCII word can tell: besides the ASCII letters
    only the dotless i (U+0131) and the long s (U+017F) have an ASCII upper case. -/
def toUpper : Str → Str
  | [] => []
  | 0xc4 :: 0xb1 :: r => 0x49 :: toUpper r
  | 0xc5 :: 0xbf :: r => 0x53 :: toUpper r
  | b :: r => (if 0x61 ≤ b ∧ b ≤ 0x7a then b - 0x20 else b) :: toUpper r

/-- The letters of `strings.EqualFold` that matter next to an ASCII word: ASCII letters in lower case,
    and the Kelvin sign (U+212A) and the long s (U+017F), the two runes that fold to an ASCII letter. -/
def fold : Str → Str
  | [] => []
  | 0xe2 :: 0x84 :: 0xaa :: r => 0x6b :: fold r
  | 0xc5 :: 0xbf :: r => 0x73 :: fold r
  | b :: r => (if 0x41 ≤ b ∧ b ≤ 0x5a then b + 0x20 else b) :: fold r

/-- `strings.EqualFold`; letters outside ASCII are compared as they are. -/
def equalFold (s t : Str) : Bool := fold s = fold t

/-! ### Searching -/

/-- `bytes.Index`: the first position of `sep`. -/
def index (sep : Str) : Str → Option Nat
  | [] => if sep = [] then some 0 else none
  | b :: r => if sep.isPrefixOf (b :: r) then some 0 else (index sep r).map (· + 1)

/-- `strings.LastIndex` of one byte. -/
def lastIndexByte (c : UInt8) (s : Str) : Option Nat :=
  (s.reverse.findIdx? (· = c)).map fun i => s.length - 1 - i

/-- `strings.Split` at `sep`, with `skip` bytes of it still to pass and `cur` read of a part. -/
def splitFrom (sep : Str) : Nat → Str → Str → List Str
  | _, cur, [] => [cur.reverse]
  | skip + 1, cur, _ :: r => splitFrom sep skip cur r
  | 0, cur, b :: r =>
    if sep.isPrefixOf (b :: r) then cur.reverse :: splitFrom sep (sep.length - 1) [] r
    else splitFrom sep 0 (b :: cur) r

/-- `strings.Split` for a separator that is not empty. -/
def split (sep s : Str) : List Str := splitFrom sep 0 [] s

/-- `strings.Join`. -/
def join (sep : Str) (parts : List Str) : Str := List.intercalate sep parts

/-- `strings.Join(parts, ",")`. -/
def joinCSV (parts : List Str) : Str := List.intercalate [0x2c] parts

/-- Two strings with a NUL between them. -/
theorem append_nul_inj {x x' y y' : Str} (hx : 0 ∉ x) (hx' : 0 ∉ x') (h : x ++ 0 :: y = x' ++ 0 :: y') :
    x = x' ∧ y = y' := by
  have hlen := congrArg (List.idxOf 0) h
  rw [List.idxOf_append_of_notMem hx, List.idxOf_append_of_notMem hx'] at hlen
  simp only [List.idxOf_cons_self, Nat.add_zero] at hlen
  simpa using List.append_inj h hlen

/-! ### Numbers -/

/-- The decimal digits of a number. -/
def decimalNat (n : Nat) : Str := (Nat.toDigits 10 n).map fun c => UInt8.ofNat c.toNat

/-- `fmt`'s `%d`. -/
def decimal (n : Int) : Str :=
  if n < 0 then 0x2d :: decimalNat n.natAbs else decimalNat n.natAbs

/-- The value of a non-empty run of decimal digits. -/
def parseDigits (s : Str) : Option Nat :=
  if s = [] then none
  else s.foldl (fun acc b => acc.bind fun n =>
    if 0x30 ≤ b ∧ b ≤ 0x39 then some (n * 10 + (b.toNat - 0x30)) else none) (some 0)

/-- `strconv.Atoi` for 64-bit `int`: an optional sign, digits, and the value in range. -/
def atoi (s : Str) : Option Int :=
  let value : Option Int := match s with
    | 0x2d :: r => (parseDigits r).map fun n => -(n : Int)
    | 0x2b :: r => (parseDigits r).map fun n => (n : Int)
    | r => (parseDigits r).map fun n => (n : Int)
  value.filter fun n => -(2 ^ 63) ≤ n ∧ n < 2 ^ 63

/-! ### Base64 -/

/-- The value of one base64 digit. -/
def base64Digit (b : UInt8) : Option Nat :=
  let n := b.toNat
  if 0x41 ≤ n ∧ n ≤ 0x5a then some (n - 0x41)
  else if 0x61 ≤ n ∧ n ≤ 0x7a then some (n - 0x61 + 26)
  else if 0x30 ≤ n ∧ n ≤ 0x39 then some (n - 0x30 + 52)
  else if n = 0x2b then some 62
  else if n = 0x2f then some 63
  else none

/-- The quanta of a padded base64 text; padding may only end it. -/
def decodeQuanta : Str → Option Str
  | [] => some []
  | a :: b :: c :: d :: rest => do
    let va ← base64Digit a
    let vb ← base64Digit b
    let b0 := UInt8.ofNat (va * 4 + vb / 16)
    if c = 0x3d then
      if d = 0x3d ∧ rest = [] then some [b0] else none
    else
      let vc ← base64Digit c
      let b1 := UInt8.ofNat (vb % 16 * 16 + vc / 4)
      if d = 0x3d then
        if rest = [] then some [b0, b1] else none
      else
        let vd ← base64Digit d
        let tail ← decodeQuanta rest
        some (b0 :: b1 :: UInt8.ofNat (vc % 4 * 64 + vd) :: tail)
  | _ => none

/-- `base64.StdEncoding.DecodeString`: line ends inside the text are skipped. -/
def decodeBase64 (s : Str) : Option Str := decodeQuanta (s.filter fun b => b ≠ 0x0d && b ≠ 0x0a)

/-! ### UTF-8 -/

/-- Whether a byte lies in a range. -/
def within (lo hi b : UInt8) : Bool := lo ≤ b && b ≤ hi

/-- The width of the rune that a text starts with, 0 when its first byte starts none. -/
def runeWidth : Str → Nat
  | [] => 0
  | b :: r =>
    let second lo hi := (r[0]?).any (within lo hi)
    let more i := (r[i]?).any (within 0x80 0xbf)
    if b ≤ 0x7f then 1
    else if within 0xc2 0xdf b then if second 0x80 0xbf then 2 else 0
    else if within 0xe0 0xef b then
      let lo := if b = 0xe0 then 0xa0 else 0x80
      let hi := if b = 0xed then 0x9f else 0xbf
      if second lo hi && more 1 then 3 else 0
    else if within 0xf0 0xf4 b then
      let lo := if b = 0xf0 then 0x90 else 0x80
      let hi := if b = 0xf4 then 0x8f else 0xbf
      if second lo hi && more 1 && more 2 then 4 else 0
    else 0

/-- The replacement rune U+FFFD. -/
def replacementRune : Str := [0xef, 0xbf, 0xbd]

/-- Replace the bytes that belong to no rune, with `skip` bytes of the current rune still to copy. -/
def coerceFrom : Nat → Str → Str
  | _, [] => []
  | skip + 1, b :: r => b :: coerceFrom skip r
  | 0, b :: r =>
    match runeWidth (b :: r) with
    | 0 => replacementRune ++ coerceFrom 0 r
    | w + 1 => b :: coerceFrom w r

/-- What is left of a string that goes through `encoding/json`, which knows text only. -/
def coerceUTF8 (s : Str) : Str := coerceFrom 0 s

theorem coerceFrom_ascii : ∀ {s : Str}, (∀ b ∈ s, b ≤ 0x7f) → coerceFrom 0 s = s
  | [], _ => rfl
  | b :: r, h => by
    have hb : b ≤ 0x7f := h b (by simp)
    have hw : runeWidth (b :: r) = 1 := by simp [runeWidth, hb]
    simp only [coerceFrom, hw]
    rw [coerceFrom_ascii fun c hc => h c (by simp [hc])]

/-- The rune of width `w` that a text starts with. -/
def runeOf (w : Nat) (s : Str) : Nat :=
  let lead := match w with
    | 1 => 0x80
    | 2 => 0x20
    | 3 => 0x10
    | _ => 0x08
  (s.take w).tail.foldl (fun acc b => acc * 64 + b.toNat % 64) ((s.headD 0).toNat % lead)

/-- The encoding of a rune. -/
def encodeRune (c : Nat) : Str :=
  let rest n := UInt8.ofNat (0x80 + n % 64)
  if c < 0x80 then [UInt8.ofNat c]
  else if c < 0x800 then [UInt8.ofNat (0xc0 + c / 64), rest c]
  else if c < 0x10000 then [UInt8.ofNat (0xe0 + c / 4096), rest (c / 64), rest c]
  else [UInt8.ofNat (0xf0 + c / 262144), rest (c / 4096), rest (c / 64), rest c]

/-- What a table of lower case letters has to say about ASCII. -/
def lowerASCII (c : Nat) : Nat := if 0x41 ≤ c ∧ c ≤ 0x5a then c + 0x20 else c

/-- A table like that of `unicode.ToLower`: it maps runes to runes, and ASCII as one expects. -/
structure Unicode where
  lower : Nat → Nat
  lower_ascii : ∀ c < 0x80, lower c = lowerASCII c

/-- Lower case by rune, with `skip` bytes of the current rune still to pass. -/
def Unicode.lowerFrom (u : Unicode) : Nat → Str → Str
  | _, [] => []
  | skip + 1, _ :: r => u.lowerFrom skip r
  | 0, b :: r =>
    match runeWidth (b :: r) with
    | 0 => encodeRune (u.lower 0xfffd) ++ u.lowerFrom 0 r
    | w + 1 => encodeRune (u.lower (runeOf (w + 1) (b :: r))) ++ u.lowerFrom w r

/-- `strings.ToLower`. -/
def Unicode.toLower (u : Unicode) (s : Str) : Str := u.lowerFrom 0 s

/-- The table that knows ASCII only. -/
def asciiOnly : Unicode := ⟨lowerASCII, fun _ _ => rfl⟩

/-- Lower case of an ASCII byte. -/
def lowerByte (b : UInt8) : UInt8 := if 0x41 ≤ b ∧ b ≤ 0x5a then b + 0x20 else b

theorem encodeRune_lowerASCII : ∀ n < 0x80, encodeRune (lowerASCII n) = [lowerByte (UInt8.ofNat n)] := by
  decide

/-- ASCII letters are lowered one by one, whatever follows. -/
theorem Unicode.toLower_cons (u : Unicode) {b : UInt8} (hb : b ≤ 0x7f) (r : Str) :
    u.toLower (b :: r) = lowerByte b :: u.toLower r := by
  have hw : runeWidth (b :: r) = 1 := by simp [runeWidth, hb]
  have hlt : b.toNat < 0x80 := Nat.lt_succ_of_le (UInt8.le_iff_toNat_le.mp hb)
  have hr : runeOf 1 (b :: r) = b.toNat := by simp [runeOf, Nat.mod_eq_of_lt hlt]
  simp only [Unicode.toLower, Unicode.lowerFrom, hw, hr, Nat.zero_add]
  rw [u.lower_ascii _ hlt, encodeRune_lowerASCII _ hlt, UInt8.ofNat_toNat]
  rfl

example : asciiOnly.toLower (ascii "Inbox/A" ++ [0xc3, 0x84, 0xff]) =
    ascii "inbox/a" ++ [0xc3, 0x84, 0xef, 0xbf, 0xbd] := by decide

example : coerceUTF8 [0x61, 0xff, 0xc3, 0xa9] = [0x61, 0xef, 0xbf, 0xbd, 0xc3, 0xa9] := by decide

example : fields (ascii " USER  alice@x\t") = [ascii "USER", ascii "alice@x"] := by decide

example : decodeBase64 (ascii "AGFsaWNlAHB3") = some (0 :: ascii "alice" ++ 0 :: ascii "pw") := by
  decide

end Gostd

end Mailezine
