import Mathlib.Data.List.Basic

/-! Sequence and UID sets of `internal/imapnum`: membership.

    A set is the list of its ranges; 0 stands for `*`. Membership is the source's binary search, run
    with the length of the list as fuel: each round halves what is left. -/

namespace Mailezine.Imapnum

/-- `Range`: `n` is `⟨n, n⟩`, `n:*` is `⟨n, 0⟩`. -/
structure Range where
  start : Nat
  stop : Nat
  deriving DecidableEq

/-- `Range.Contains`. -/
def Range.contains (s : Range) (q : Nat) : Bool :=
  if q = 0 then s.stop = 0
  else s.start ≠ 0 && s.start ≤ q && (q ≤ s.stop || s.stop = 0)

/-- `Range.Less`: the range precedes and does not contain `q`. -/
def Range.less (s : Range) (q : Nat) : Bool := (s.stop < q || q = 0) && s.stop ≠ 0

/-- The loop of `search`. -/
def searchLoop (s : List Range) (q : Nat) : Nat → Nat → Nat → Nat
  | 0, lo, _ => lo
  | fuel + 1, lo, hi =>
    if lo < hi then
      let mid := (lo + hi) / 2
      if (s.getD mid ⟨0, 0⟩).less q then searchLoop s q fuel (mid + 1) hi
      else searchLoop s q fuel lo mid
    else lo

/-- `search`: the index of the range that contains `q`, or where it would go. -/
def search (s : List Range) (q : Nat) : Nat × Bool :=
  if s = [] then (0, false)
  else
    let i := searchLoop s q s.length 0 (s.length - 1)
    let r := s.getD i ⟨0, 0⟩
    if r.less q then (s.length, false) else (i, r.contains q)

/-- `Set.Contains`. -/
def contains (s : List Range) (q : Nat) : Bool := (search s q).2 && q ≠ 0

/-- Whatever the order of the ranges, a member lies in one of them. -/
theorem mem_range_of_contains {s : List Range} {q : Nat} (h : contains s q = true) :
    ∃ r ∈ s, r.start ≤ q ∧ (q ≤ r.stop ∨ r.stop = 0) := by
  obtain ⟨hfound, hq⟩ := Bool.and_eq_true_iff.mp h
  unfold search at hfound
  split_ifs at hfound with hs
  extract_lets i r at hfound
  split_ifs at hfound
  simp only [Range.contains, of_decide_eq_true hq, if_false, Bool.and_eq_true, Bool.or_eq_true,
    decide_eq_true_eq] at hfound
  obtain ⟨⟨hstart, hle⟩, hstop⟩ := hfound
  -- the range that stands for an index out of bounds starts at 0
  have hi : i < s.length := by
    by_contra hge
    exact hstart (by simp [r, List.getElem?_eq_none (Nat.le_of_not_lt hge)])
  have hr : r = s[i] := by simp [r, hi]
  exact ⟨r, hr ▸ List.getElem_mem hi, hle, hstop⟩

/-- `Set.Dynamic`: the set ends in `*` or `n:*`. -/
def dynamic (s : List Range) : Bool := (s.getLast?).any (·.stop = 0)

/-- `imap.NumSet`: a set of sequence numbers or of UIDs. -/
inductive NumSet where
  | seqs (set : List Range)
  | uids (set : List Range)
  deriving DecidableEq

/-- The ranges of a set. -/
def NumSet.ranges : NumSet → List Range
  | .seqs set => set
  | .uids set => set

/-- `numContains`. -/
def numContains (set : NumSet) (seq uid : Nat) : Bool :=
  match set with
  | .seqs set => contains set seq
  | .uids set => contains set uid

/-- `numMatches`: an open-ended range always takes the last message. -/
def numMatches (set : NumSet) (seq uid maxSeq maxUID : Nat) : Bool :=
  numContains set seq uid ||
    (dynamic set.ranges && match set with
      | .uids _ => uid = maxUID
      | .seqs _ => seq = maxSeq)

example : numMatches (.seqs [⟨1, 2⟩, ⟨5, 0⟩]) 3 9 3 9 = true := by decide
example : numMatches (.uids [⟨1, 2⟩, ⟨5, 7⟩]) 3 4 3 9 = false := by decide

end Mailezine.Imapnum
