import Mailezine.Gostd.Strings
import Mailezine.Schemes.Threads

/-! Learning at the Junk boundary.

    COPY and MOVE hand every message that enters or leaves Junk to the spam controller. Of the controller
    there is only its fuzzy storage here: a set of contents for each flag, to which `/fuzzyadd` adds and
    from which `/fuzzydel` removes. All calls succeed. -/

namespace Mailezine.Imap
open Gostd Schemes List

/-- The contents under each flag of the fuzzy storage. -/
abbrev Fuzzy := Nat → Str → Bool

/-- `Fuzzy`. -/
def fuzzy (flag : Nat) (add : Bool) (data : Str) (c : Fuzzy) : Fuzzy :=
  Function.update c flag (Function.update (c flag) data add)

def fuzzySpamFlag : Nat := 13

def fuzzyHamFlag : Nat := 11

/-- `LearnWithFuzzy`, after the classifier was trained. -/
def learnWithFuzzy (isSpam : Bool) (data : Str) (c : Fuzzy) : Fuzzy :=
  if isSpam then fuzzy fuzzyHamFlag false data (fuzzy fuzzySpamFlag true data c)
  else fuzzy fuzzySpamFlag true data (fuzzy fuzzyHamFlag false data c)

/-- `isJunkMailbox`. -/
def isJunkMailbox (name : Str) : Bool := equalFold name (ascii "Junk")

/-- A COPY or MOVE that came through: the UIDs that the store returned, in the order of the loop over
    them, and what `OpenMessage` gives for a UID of the destination. -/
structure Transfer where
  srcMailbox : Str
  dstMailbox : Str
  mapping : List (Nat × Nat)
  opened : Nat → Option Str

namespace Transfer

/-- `learnMessage`. -/
def learnMessage (t : Transfer) (uid : Nat) (isSpam : Bool) (c : Fuzzy) : Fuzzy :=
  match t.opened uid with
  | none => c
  | some data => learnWithFuzzy isSpam data c

def enters (t : Transfer) : Bool := !isJunkMailbox t.srcMailbox && isJunkMailbox t.dstMailbox

def leaves (t : Transfer) : Bool := isJunkMailbox t.srcMailbox && !isJunkMailbox t.dstMailbox

/-- `learnCopyMove`. -/
def learnCopyMove (t : Transfer) (dstUID : Nat) (c : Fuzzy) : Fuzzy :=
  if t.enters then t.learnMessage dstUID true c
  else if t.leaves then t.learnMessage dstUID false c
  else c

/-- The loop of `Copy` and `Move`. -/
def learn (c : Fuzzy) (t : Transfer) : Fuzzy := t.mapping.foldl (fun c uids => t.learnCopyMove uids.2 c) c

/-- The contents of the messages that were copied or moved. -/
def contents (t : Transfer) : List Str := t.mapping.filterMap fun uids => t.opened uids.2

/-- The content counts as spam. -/
def Spam (c : Fuzzy) (data : Str) : Prop := c fuzzySpamFlag data = true ∧ c fuzzyHamFlag data = false

/-- The content counts as ham. -/
def Ham (c : Fuzzy) (data : Str) : Prop := c fuzzyHamFlag data = true ∧ c fuzzySpamFlag data = false

/-- The storage follows the verdict of the command. -/
structure Followed (t : Transfer) (c : Fuzzy) : Prop where
  spam : t.enters = true → ∀ data ∈ t.contents, Spam c data
  ham : t.leaves = true → ∀ data ∈ t.contents, Ham c data

variable {t : Transfer} {data : Str} {c : Fuzzy}

/-- Either verdict marks the content as spam. -/
theorem spam_learnWithFuzzy (isSpam : Bool) (x : Str) (h : x = data ∨ Spam c data) :
    Spam (learnWithFuzzy isSpam x c) data := by
  obtain rfl | hx := eq_or_ne x data
  · cases isSpam <;> simp [Spam, learnWithFuzzy, fuzzy, fuzzySpamFlag, fuzzyHamFlag]
  · have hspam := h.resolve_left hx
    cases isSpam <;> simpa [Spam, learnWithFuzzy, fuzzy, fuzzySpamFlag, fuzzyHamFlag, hx.symm] using hspam

theorem spam_learnCopyMove (hcross : t.enters = true ∨ t.leaves = true) {uid : Nat}
    (h : t.opened uid = some data ∨ Spam c data) : Spam (t.learnCopyMove uid c) data := by
  have hlearn : ∀ isSpam, Spam (t.learnMessage uid isSpam c) data := by
    intro isSpam
    unfold learnMessage
    cases hopen : t.opened uid with
    | none => exact h.resolve_left (by simp [hopen])
    | some x => exact spam_learnWithFuzzy isSpam x (h.imp_left fun he => Option.mem_unique hopen he)
  unfold learnCopyMove
  split_ifs with henters hleaves
  · exact hlearn true
  · exact hlearn false
  · exact absurd hcross (not_or.mpr ⟨henters, hleaves⟩)

/-- A command across the boundary marks all its contents, and lets no mark go. -/
theorem spam_learn (hcross : t.enters = true ∨ t.leaves = true) : ∀ (l : List (Nat × Nat)) {c : Fuzzy},
    data ∈ l.filterMap (fun uids => t.opened uids.2) ∨ Spam c data →
    Spam (l.foldl (fun c uids => t.learnCopyMove uids.2 c) c) data
  | [], _, h => h.resolve_left (by simp)
  | uids :: l, c, h => by
    refine spam_learn hcross l ?_
    rw [mem_filterMap] at h
    rcases h with ⟨x, hx, hopen⟩ | h
    · rcases mem_cons.mp hx with rfl | hx
      · exact .inr (spam_learnCopyMove hcross (.inl hopen))
      · exact .inl (mem_filterMap.mpr ⟨x, hx, hopen⟩)
    · exact .inr (spam_learnCopyMove hcross (.inr h))

/-- LAST VERDICT: after every history that ends with a command the storage follows its verdict, exactly
    when the command takes no message out of Junk. -/
theorem verdict_followed_iff (t : Transfer) :
    (∀ (before : List Transfer) (c : Fuzzy), t.Followed (runs learn c (before ++ [t]))) ↔
      ¬(t.leaves = true ∧ t.contents ≠ []) := by
  constructor
  · rintro h ⟨hleaves, hne⟩
    obtain ⟨data, hdata⟩ := exists_mem_of_ne_nil _ hne
    have hspam : Spam (learn (fun _ _ => false) t) data := spam_learn (.inr hleaves) t.mapping (.inl hdata)
    have hham := ((h [] fun _ _ => false).ham hleaves data hdata).1
    exact absurd (hham.symm.trans hspam.2) (by simp)
  · intro hno before c
    rw [runs, foldl_append]
    refine ⟨fun henters data hdata => spam_learn (.inl henters) t.mapping (.inl hdata), fun hleaves data hdata => ?_⟩
    exact absurd ⟨hleaves, ne_nil_of_mem hdata⟩ hno

/-- A message goes into Junk and back: it still counts as spam. -/
theorem back_from_junk_stays_spam :
    let there : Transfer := ⟨ascii "INBOX", ascii "Junk", [(1, 1)], fun _ => some (ascii "x")⟩
    let back : Transfer := ⟨ascii "Junk", ascii "INBOX", [(1, 2)], fun _ => some (ascii "x")⟩
    let c := runs learn (fun _ _ => false) [there, back]
    back.leaves = true ∧ back.contents = [ascii "x"] ∧ Spam c (ascii "x") ∧ ¬back.Followed c := by
  intro there back c
  have hspam : Spam c (ascii "x") := ⟨by decide, by decide⟩
  have hcontents : back.contents = [ascii "x"] := rfl
  refine ⟨by decide, hcontents, hspam, fun h => ?_⟩
  have hham := (h.ham (by decide) (ascii "x") (by simp [hcontents])).1
  exact absurd (hham.symm.trans hspam.2) (by simp)

end Transfer

end Mailezine.Imap
