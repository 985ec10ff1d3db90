import Mathlib.Data.Set.Function
import Mailezine.Gostd.TextLines

/-! Maildir++ names.

    INBOX is the account root itself. Any other mailbox is a directory of the root whose name is the
    mailbox name behind a dot, with dots for slashes (`internal/store/maildir/path.go`). A dot of the
    name is kept, so it reads back as a slash. -/

namespace Mailezine.Maildir
open Gostd

/-- Why a name is refused; the error texts quote the name and the part that is named here. -/
inductive NameError where
  | empty
  | tooLong
  | emptySegment
  | leadingDot
  | segment (seg : Str)
  | character (seg : Str)
  deriving DecidableEq

def inbox : Str := ascii "INBOX"

def maxMailboxNameLen : Nat := 200

/-- One turn of the loop over the segments; bytes from 0x80 on are read as runes above 0x7e. -/
def validateSegment (seg : Str) : Except NameError Unit :=
  if seg = [] ∨ seg = ascii "." ∨ seg = ascii ".." then .error (.segment seg)
  else if seg.any fun b => b < 0x21 || b > 0x7e || b = 0x5c then .error (.character seg)
  else .ok ()

def validateName (name : Str) : Except NameError Unit :=
  if name = [] then .error .empty
  else if name.length > maxMailboxNameLen then .error .tooLong
  else if name.head? = some 0x2f ∨ name.getLast? = some 0x2f then .error .emptySegment
  else if name.head? = some 0x2e then .error .leadingDot
  else (split [0x2f] name).forM validateSegment

/-- `strings.ReplaceAll` of one byte by another. -/
def replaceByte (old new : UInt8) (s : Str) : Str := s.map fun b => if b = old then new else b

def dirName (name : Str) : Str := if name = inbox then [] else 0x2e :: replaceByte 0x2f 0x2e name

def nameFromDir (dir : Str) : Str :=
  if dir = [] then inbox else replaceByte 0x2e 0x2f (if dir.head? = some 0x2e then dir.tail else dir)

/-- One element of the path that `filepath.Join` cleans. -/
def enter (dir : List Str) (elem : Str) : List Str :=
  if elem = [] ∨ elem = ascii "." then dir else if elem = ascii ".." then dir.dropLast else dir ++ [elem]

/-- The elements of a mailbox's directory, from those of the account root. -/
def mailboxDir (root : List Str) (name : Str) : List Str := (split [0x2f] (dirName name)).foldl enter root

/-- A set of names and their directories correspond. -/
structure Corresponds (root : List Str) (names : Set Str) : Prop where
  distinct : names.InjOn (mailboxDir root)
  under : ∀ name ∈ names, name ≠ inbox →
    ∃ dir, mailboxDir root name = root ++ [dir] ∧ dir ∉ [ascii "cur", ascii "new", ascii "tmp"]
  roundTrip : ∀ name ∈ names, nameFromDir (dirName name) = name

/-- The directory of an accepted name is an element of its own, which cleaning leaves alone. -/
theorem mailboxDir_of_valid (root : List Str) {name : Str} (h : validateName name = .ok ()) (hne : name ≠ inbox) :
    mailboxDir root name = root ++ [dirName name] := by
  have hslash : 0x2f ∉ replaceByte 0x2f 0x2e name := fun hmem => by
    obtain ⟨b, -, hb⟩ := List.mem_map.mp hmem
    split_ifs at hb <;> contradiction
  have hdir : dirName name = 0x2e :: replaceByte 0x2f 0x2e name := if_neg hne
  rw [mailboxDir, split, splitFrom_of_notMem [] (by simpa [hdir] using hslash), hdir]
  cases name with
  | nil => cases h
  | cons b r =>
    have hb : b ≠ 0x2f ∧ b ≠ 0x2e := by
      constructor <;> rintro rfl <;> simp [validateName] at h <;> split_ifs at h
    simp [replaceByte, enter, ascii, hb]

/-- What the path has behind the root is the directory name. -/
theorem drop_mailboxDir (root : List Str) {name : Str} (h : validateName name = .ok ()) :
    ((mailboxDir root name).drop root.length).headD [] = dirName name := by
  by_cases hne : name = inbox
  · have hroot : mailboxDir root name = root := hne ▸ rfl
    rw [hroot, List.drop_length, hne]
    rfl
  · rw [mailboxDir_of_valid root h hne, List.drop_left]
    rfl

/-- Only a dot of the name does not come back. -/
theorem nameFromDir_dirName (name : Str) : nameFromDir (dirName name) = name ↔ 0x2e ∉ name := by
  by_cases hin : name = inbox
  · subst hin
    decide
  · have hback : nameFromDir (dirName name) = name.map fun b => if b = 0x2e then 0x2f else b := by
      rw [dirName, if_neg hin]
      refine List.map_map.trans (List.map_congr_left fun b _ => ?_)
      by_cases hb : b = 0x2f <;> simp [hb]
    rw [hback]
    refine ⟨fun h hdot => ?_, fun h => ?_⟩
    · obtain ⟨b, -, hb⟩ := List.mem_map.mp (h.symm ▸ hdot)
      split_ifs at hb <;> contradiction
    · have hkeep : ∀ b ∈ name, (if b = 0x2e then 0x2f else b) = b := fun b hb => if_neg (ne_of_mem_of_not_mem hb h)
      exact (List.map_congr_left hkeep).trans (List.map_id' name)

/-- Accepted names CORRESPOND to their directories exactly when none of them has a dot. -/
theorem corresponds_iff (root : List Str) {names : Set Str} (hvalid : ∀ name ∈ names, validateName name = .ok ()) :
    Corresponds root names ↔ ∀ name ∈ names, 0x2e ∉ name := by
  refine ⟨fun h name hn => (nameFromDir_dirName name).mp (h.roundTrip name hn), fun hdot => ?_⟩
  have hback : ∀ name ∈ names, nameFromDir (dirName name) = name := fun name hn =>
    (nameFromDir_dirName name).mpr (hdot name hn)
  refine ⟨fun n hn m hm hdir => ?_, fun name hn hne => ⟨_, mailboxDir_of_valid root (hvalid name hn) hne, ?_⟩, hback⟩
  · rw [← hback n hn, ← hback m hm, ← drop_mailboxDir root (hvalid n hn), hdir, drop_mailboxDir root (hvalid m hm)]
  · rw [dirName, if_neg hne]
    simp [ascii]

theorem corresponds_sent_foo_bar : Corresponds [ascii "mail"] {name | name ∈ [ascii "Sent", ascii "Foo/Bar"]} :=
  have hvalid : ∀ name ∈ [ascii "Sent", ascii "Foo/Bar"], validateName name = .ok () := by decide +kernel
  have hdot : ∀ name ∈ [ascii "Sent", ascii "Foo/Bar"], 0x2e ∉ name := by decide +kernel
  (corresponds_iff _ hvalid).mpr hdot

/-- Two accepted names with one directory. -/
theorem a_dot_b_is_a_slash_b : validateName (ascii "a.b") = .ok () ∧ validateName (ascii "a/b") = .ok () ∧
    mailboxDir [ascii "mail"] (ascii "a.b") = mailboxDir [ascii "mail"] (ascii "a/b") ∧
    nameFromDir (dirName (ascii "a.b")) = ascii "a/b" := by decide +kernel

end Mailezine.Maildir
