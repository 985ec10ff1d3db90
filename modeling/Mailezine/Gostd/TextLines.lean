import Mailezine.Gostd.Lines

/-! Lines that end with LF or with CRLF. The lines that end with CRLF are cut further at each LF in them;
    a text ends where an empty line ends a block of lines, whichever way it is written. -/

namespace Mailezine.Gostd
open List

/-- `strings.ReplaceAll(s, "\r\n", "\n")`. -/
def crlfToLf : Str → Str
  | [] => []
  | 0x0d :: 0x0a :: r => 0x0a :: crlfToLf r
  | b :: r => b :: crlfToLf r

theorem splitFrom_byte (c : UInt8) (cur : Str) (b : UInt8) (r : Str) : splitFrom [c] 0 cur (b :: r) =
    if b = c then cur.reverse :: splitFrom [c] 0 [] r else splitFrom [c] 0 (b :: cur) r := by
  by_cases hb : b = c
  · subst hb
    simp [splitFrom]
  · have hpre : ¬[c].isPrefixOf (b :: r) = true := by
      rw [List.isPrefixOf_iff_prefix, cons_prefix_cons]
      exact fun h => hb h.1.symm
    rw [splitFrom, if_neg hpre, if_neg hb]

theorem splitFrom_of_notMem {c : UInt8} : ∀ {s : Str} (cur : Str), c ∉ s →
    splitFrom [c] 0 cur s = [cur.reverse ++ s]
  | [], cur, _ => by rw [splitFrom, append_nil]
  | b :: s, cur, h => by
    obtain ⟨hb, hs⟩ := not_or.mp (mem_cons.not.mp h)
    rw [splitFrom_byte, if_neg (Ne.symm hb), splitFrom_of_notMem _ hs]
    simp

/-- The lines of a text, each without the LF or CRLF behind it. -/
def textLines (s : Str) : List Str := split [0x0a] (crlfToLf s)

theorem splitFrom_lf_append (t : Str) : ∀ (s cur : Str),
    splitFrom [0x0a] 0 cur (s ++ 0x0a :: t) = splitFrom [0x0a] 0 cur s ++ split [0x0a] t
  | [], cur => by
    rw [nil_append, splitFrom_byte, if_pos rfl]
    rfl
  | b :: s, cur => by
    rw [cons_append, splitFrom_byte, splitFrom_byte]
    split_ifs
    · rw [splitFrom_lf_append t s, cons_append]
    · exact splitFrom_lf_append t s _

theorem split_lf_append (s t : Str) : split [0x0a] (s ++ 0x0a :: t) = split [0x0a] s ++ split [0x0a] t :=
  splitFrom_lf_append t s []

/-- A byte that is not the CR of a CRLF stays. -/
theorem crlfToLf_cons {b : UInt8} {r : Str} (h : ¬(b = 0x0d ∧ r.head? = some 0x0a)) :
    crlfToLf (b :: r) = b :: crlfToLf r := by
  rw [crlfToLf]
  rintro s rfl rfl
  exact h ⟨rfl, rfl⟩

/-- A CRLF behind a line without one is the first of a text. -/
theorem crlfToLf_line : ∀ {l : Str} (t : Str), OneLine l → crlfToLf (l ++ crlf ++ t) = l ++ 0x0a :: crlfToLf t
  | [], t, _ => rfl
  | b :: l, t, h => by
    have hne := (oneLine_cons.mp h).1
    rw [cons_append, cons_append, crlfToLf_cons, crlfToLf_line t h.tail, cons_append]
    rintro ⟨rfl, hhead⟩
    cases l with
    | nil => simp [crlf] at hhead
    | cons c l => exact hne ⟨rfl, hhead⟩

theorem crlfToLf_oneLine : ∀ {l : Str}, OneLine l → crlfToLf l = l
  | [], _ => rfl
  | b :: l, h => by rw [crlfToLf_cons (oneLine_cons.mp h).1, crlfToLf_oneLine h.tail]

theorem textLines_line {l : Str} (t : Str) (h : OneLine l) :
    textLines (l ++ crlf ++ t) = split [0x0a] l ++ textLines t := by
  rw [textLines, crlfToLf_line t h, split_lf_append]
  rfl

theorem textLines_oneLine {l : Str} (h : OneLine l) : textLines l = split [0x0a] l := by
  rw [textLines, crlfToLf_oneLine h]

/-- Lines that end with CRLF, each cut at its LFs. -/
theorem textLines_unlines (t : Str) : ∀ {ls : List Str}, (∀ l ∈ ls, OneLine l) →
    textLines (unlines ls ++ t) = ls.flatMap (split [0x0a]) ++ textLines t
  | [], _ => rfl
  | l :: ls, h => by
    rw [unlines_cons, append_assoc, textLines_line _ (h l mem_cons_self),
      textLines_unlines t fun k hk => h k (mem_cons_of_mem _ hk), flatMap_cons, append_assoc]

end Mailezine.Gostd
