import Mailezine.Sieve.Interp

/-! What a script run comes to: the list of actions folded into one result. -/

namespace Mailezine.Sieve
open Gostd List

/-- One operation of editheader. -/
structure HeaderEdit where
  name : Str
  value : Str := []
  index : Int := 0
  values : List Str := []
  delete : Bool := false
  deriving DecidableEq

/-- A requested automatic reply. -/
structure Vacation where
  days : Int
  sender : Str
  subject : Str
  body : Str
  deriving DecidableEq

/-- The outcome of one script run. -/
structure Result where
  mailboxes : List Str := []
  discard : Bool := false
  flags : List Str := []
  redirects : List Str := []
  reject : Str := []
  deleteHeaders : List HeaderEdit := []
  addHeaders : List HeaderEdit := []
  vacation : Option Vacation := none
  deriving DecidableEq

/-- The canonical IMAP system flags. -/
def systemFlagNames : List (Str × Str) :=
  [(ascii "seen", ascii "\\Seen"), (ascii "answered", ascii "\\Answered"), (ascii "flagged", ascii "\\Flagged"),
    (ascii "deleted", ascii "\\Deleted"), (ascii "draft", ascii "\\Draft")]

/-- A flag without its backslash. -/
def trimBackslash : Str → Str
  | 0x5c :: r => r
  | f => f

def normalizeFlags (u : Unicode) (flags : List Str) : List Str :=
  flags.map fun f => (systemFlagNames.lookup (u.toLower (trimBackslash f))).getD f

/-- Drop empty strings and all but the first of those with one key. -/
def dedupeBy (key : Str → Str) : List Str → List Str → List Str
  | _, [] => []
  | seen, s :: l =>
    if s = [] ∨ key s ∈ seen then dedupeBy key seen l else s :: dedupeBy key (key s :: seen) l

def dedupe (l : List Str) : List Str := dedupeBy id [] l

def dedupeFold (u : Unicode) (l : List Str) : List Str := dedupeBy u.toLower [] l

/-- The name of the inbox. -/
def inbox : Str := ascii "INBOX"

/-- One action of the loop of `actionsToResult`. -/
def Result.add (u : Unicode) (res : Result) : AppliedAction → Result
  | .keep _ flags =>
    { res with mailboxes := res.mailboxes ++ [inbox], flags := res.flags ++ normalizeFlags u flags }
  | .fileInto mailbox flags _ _ =>
    { res with mailboxes := res.mailboxes ++ [mailbox], flags := res.flags ++ normalizeFlags u flags }
  | .discard => { res with discard := true }
  | .redirect address _ => { res with redirects := res.redirects ++ [address] }
  | .reject reason => { res with reject := reason }
  | .ereject reason => if res.reject = [] then { res with reject := reason } else res
  | .addHeader name value => { res with addHeaders := res.addHeaders ++ [{ name := name, value := value }] }
  | .deleteHeader name values index =>
    { res with
      deleteHeaders := res.deleteHeaders ++
        [{ name, value := join (ascii ", ") values, index, values, delete := true }] }
  | .vacation days sender subject body _ => { res with vacation := some ⟨days, sender, subject, body⟩ }

def actionsToResult (u : Unicode) (actions : List AppliedAction) : Result :=
  let res := actions.foldl (Result.add u) {}
  { res with
    mailboxes := dedupeFold u res.mailboxes, flags := dedupe res.flags, redirects := dedupe res.redirects }

/-- `Engine.Route` for a script that compiles and a message whose header can be read. -/
def route {ν : Type} (u : Unicode) (x : Runtime ν) (script : Block ν) (vars : ν) : Except Str Result :=
  (execute x script { vars := vars }).map fun d => actionsToResult u d.appliedActions

/-! ### Removing duplicates -/

section Dedupe
variable {key : Str → Str}

theorem mem_of_mem_dedupeBy : ∀ {seen l : List Str} {s : Str}, s ∈ dedupeBy key seen l →
    s ∈ l ∧ s ≠ [] ∧ key s ∉ seen
  | seen, a :: l, s, h => by
    rw [dedupeBy] at h
    split at h
    · obtain ⟨hl, hne, hk⟩ := mem_of_mem_dedupeBy h
      exact ⟨by simp [hl], hne, hk⟩
    case isFalse hno =>
      rw [not_or] at hno
      rcases mem_cons.mp h with rfl | h
      · exact ⟨by simp, hno⟩
      · obtain ⟨hl, hne, hk⟩ := mem_of_mem_dedupeBy h
        exact ⟨by simp [hl], hne, fun hin => hk (by simp [hin])⟩

/-- Every string has its key among those that are left. -/
theorem exists_key_dedupeBy : ∀ {seen l : List Str} {s : Str}, s ∈ l → s ≠ [] →
    key s ∈ seen ∨ ∃ t ∈ dedupeBy key seen l, key t = key s
  | seen, a :: l, s, h, hne => by
    rw [dedupeBy]
    rcases mem_cons.mp h with rfl | h
    · split
      case isTrue hor => exact .inl (hor.resolve_left hne)
      case isFalse => exact .inr ⟨s, by simp, rfl⟩
    · split
      · exact exists_key_dedupeBy h hne
      · rcases @exists_key_dedupeBy (key a :: seen) l s h hne with hin | ⟨t, ht, hk⟩
        · rcases mem_cons.mp hin with he | hin
          · exact .inr ⟨a, by simp, he.symm⟩
          · exact .inl hin
        · exact .inr ⟨t, by simp [ht], hk⟩

/-- What is left has distinct keys. -/
theorem nodup_dedupeBy : ∀ (seen l : List Str), ((dedupeBy key seen l).map key).Nodup
  | _, [] => nodup_nil
  | seen, a :: l => by
    rw [dedupeBy]
    split
    · exact nodup_dedupeBy seen l
    · rw [map_cons, nodup_cons]
      refine ⟨fun hin => ?_, nodup_dedupeBy _ l⟩
      obtain ⟨t, ht, he⟩ := List.mem_map.mp hin
      exact (mem_of_mem_dedupeBy ht).2.2 (by simp [he])

theorem mem_dedupe {l : List Str} {s : Str} : s ∈ dedupe l ↔ s ∈ l ∧ s ≠ [] := by
  refine ⟨fun h => ⟨(mem_of_mem_dedupeBy h).1, (mem_of_mem_dedupeBy h).2.1⟩, fun ⟨h, hne⟩ => ?_⟩
  rcases @exists_key_dedupeBy id [] l s h hne with hin | ⟨t, ht, rfl⟩
  · cases hin
  · exact ht

end Dedupe

/-! ### The result in terms of deeds -/

/-- The mailbox that a deed stores into. -/
def Deed.mailbox : Deed → Option Str
  | .keep => some inbox
  | .fileInto m _ => some m
  | .redirect .. | .discard | .reject => none

theorem foldl_add (u : Unicode) : ∀ (l : List AppliedAction) (res : Result),
    let out := l.foldl (Result.add u) res
    out.mailboxes = res.mailboxes ++ (l.filterMap AppliedAction.deed).filterMap Deed.mailbox ∧
      out.redirects = res.redirects ++ (l.filterMap AppliedAction.deed).filterMap Deed.redirected ∧
      (out.discard = true ↔ res.discard = true ∨ .discard ∈ l.filterMap AppliedAction.deed) ∧
      (.reject ∉ l.filterMap AppliedAction.deed → out.reject = res.reject)
  | [], res => by simp
  | a :: l, res => by
    obtain ⟨hm, hr, hd, hj⟩ := foldl_add u l (res.add u a)
    simp only [foldl_cons]
    rw [hm, hr, hd]
    cases a with
    | ereject reason =>
      simp only [Result.add]
      split <;> simp [filterMap_cons, AppliedAction.deed, Deed.mailbox, Deed.redirected]
    | reject reason =>
      simp [filterMap_cons, Result.add, AppliedAction.deed, Deed.mailbox, Deed.redirected]
    | _ =>
      refine ⟨?_, ?_, ?_, fun hno => ?_⟩
      · simp [filterMap_cons, Result.add, AppliedAction.deed, Deed.mailbox]
      · simp [filterMap_cons, Result.add, AppliedAction.deed, Deed.redirected]
      · simp [filterMap_cons, Result.add, AppliedAction.deed]
      · exact hj fun hin => hno (by simp [filterMap_cons, AppliedAction.deed, hin])

end Mailezine.Sieve
