import Mailezine.Gostd.Strings

/-! Text cut at CRLF.

    `strings.Split(s, "\r\n")` gives the lines of a text and what is left after its last CRLF. A line
    has no CRLF in it, and a text is its lines, each with its CRLF, and the rest. -/

namespace Mailezine.Gostd
open List

/-- The end of a line. -/
def crlf : Str := [0x0d, 0x0a]

/-- A text without an end of line in it. -/
def OneLine (l : Str) : Prop := ¬crlf <:+: l

instance (l : Str) : Decidable (OneLine l) := inferInstanceAs (Decidable (¬_))

/-- Lines, each with its end. -/
def unlines (ls : List Str) : Str := ls.flatMap (· ++ crlf)

@[simp] theorem unlines_nil : unlines [] = [] := rfl

@[simp] theorem unlines_cons (l : Str) (ls : List Str) : unlines (l :: ls) = l ++ crlf ++ unlines ls := rfl

theorem unlines_append (ls ms : List Str) : unlines (ls ++ ms) = unlines ls ++ unlines ms :=
  flatMap_append

theorem crlf_isPrefixOf_cons {b : UInt8} {r : Str} :
    crlf.isPrefixOf (b :: r) = true ↔ b = 0x0d ∧ r.head? = some 0x0a := by
  cases r with
  | nil => simp [crlf]
  | cons c r =>
    simp only [crlf, List.isPrefixOf, Bool.and_true, Bool.and_eq_true, beq_iff_eq, head?_cons,
      Option.some.injEq]
    exact and_congr eq_comm eq_comm

theorem oneLine_nil : OneLine [] := by decide

theorem oneLine_cons {b : UInt8} {r : Str} :
    OneLine (b :: r) ↔ ¬(b = 0x0d ∧ r.head? = some 0x0a) ∧ OneLine r := by
  rw [OneLine, infix_cons_iff, not_or, ← isPrefixOf_iff_prefix, crlf_isPrefixOf_cons]
  rfl

theorem OneLine.tail {b : UInt8} {r : Str} (h : OneLine (b :: r)) : OneLine r := (oneLine_cons.mp h).2

/-- A text of one line is read up to the CRLF behind it. -/
theorem splitFrom_line : ∀ {l : Str} (cur s : Str), OneLine l →
    splitFrom crlf 0 cur (l ++ crlf ++ s) = (cur.reverse ++ l) :: split crlf s
  | [], cur, s, _ => by
    have hp : crlf.isPrefixOf (0x0d :: 0x0a :: s) = true := crlf_isPrefixOf_cons.mpr ⟨rfl, rfl⟩
    change splitFrom crlf 0 cur (0x0d :: 0x0a :: s) = _
    rw [splitFrom, if_pos hp, append_nil]
    rfl
  | b :: l, cur, s, h => by
    have hb : ¬crlf.isPrefixOf (b :: (l ++ crlf ++ s)) = true := by
      rw [crlf_isPrefixOf_cons]
      rintro ⟨rfl, hhead⟩
      cases l with
      | nil => cases hhead
      | cons c l => exact (oneLine_cons.mp h).1 ⟨rfl, hhead⟩
    change splitFrom crlf 0 cur (b :: (l ++ crlf ++ s)) = _
    rw [splitFrom, if_neg hb, splitFrom_line (b :: cur) s h.tail]
    simp

theorem splitFrom_rest : ∀ {l : Str} (cur : Str), OneLine l → splitFrom crlf 0 cur l = [cur.reverse ++ l]
  | [], cur, _ => by simp [splitFrom]
  | b :: l, cur, h => by
    have hb : ¬crlf.isPrefixOf (b :: l) = true := by
      rw [crlf_isPrefixOf_cons]
      exact (oneLine_cons.mp h).1
    rw [splitFrom, if_neg hb, splitFrom_rest (b :: cur) h.tail]
    simp

theorem split_line {l : Str} (h : OneLine l) (s : Str) : split crlf (l ++ crlf ++ s) = l :: split crlf s :=
  splitFrom_line [] s h

theorem split_rest {l : Str} (h : OneLine l) : split crlf l = [l] := splitFrom_rest [] h

theorem split_lines (s : Str) : ∀ {ls : List Str}, (∀ l ∈ ls, OneLine l) →
    split crlf (unlines ls ++ s) = ls ++ split crlf s
  | [], _ => rfl
  | l :: ls, h => by
    rw [unlines_cons, append_assoc, split_line (h l (by simp)), split_lines s fun k hk => h k (by simp [hk])]
    rfl

/-- The lines of a text and the rest are what it is split into. -/
theorem split_unlines {ls : List Str} {rest : Str} (h : ∀ l ∈ ls, OneLine l) (hr : OneLine rest) :
    split crlf (unlines ls ++ rest) = ls ++ [rest] := by
  rw [split_lines rest h, split_rest hr]

/-- Every text is some lines and a rest. -/
theorem exists_lines : ∀ s : Str, ∃ ls rest, (∀ l ∈ ls, OneLine l) ∧ OneLine rest ∧ s = unlines ls ++ rest
  | [] => ⟨[], [], by simp, oneLine_nil, rfl⟩
  | b :: s => by
    obtain ⟨ls, rest, hls, hrest, rfl⟩ := exists_lines s
    cases ls with
    | nil =>
      by_cases hb : b = 0x0d ∧ rest.head? = some 0x0a
      · -- the byte makes a CRLF with the one behind it
        obtain ⟨rfl, hhead⟩ := hb
        obtain ⟨r, rfl⟩ := head?_eq_some_iff.mp hhead
        exact ⟨[[]], r, by simp [oneLine_nil], hrest.tail, rfl⟩
      · exact ⟨[], b :: rest, by simp, oneLine_cons.mpr ⟨hb, hrest⟩, rfl⟩
    | cons l ls =>
      have hl := hls l (by simp)
      have hls' : ∀ k ∈ ls, OneLine k := fun k hk => hls k (by simp [hk])
      by_cases hb : b = 0x0d ∧ l.head? = some 0x0a
      · obtain ⟨rfl, hhead⟩ := hb
        obtain ⟨r, rfl⟩ := head?_eq_some_iff.mp hhead
        refine ⟨[] :: r :: ls, rest, ?_, hrest, by simp [crlf]⟩
        simpa using ⟨oneLine_nil, hl.tail, hls'⟩
      · refine ⟨(b :: l) :: ls, rest, ?_, hrest, by simp⟩
        simpa using ⟨oneLine_cons.mpr ⟨hb, hl⟩, hls'⟩

theorem split_ne_nil (s : Str) : split crlf s ≠ [] := by
  obtain ⟨ls, rest, hls, hrest, rfl⟩ := exists_lines s
  simp [split_unlines hls hrest]

/-- A CRLF in a text separates what the parts before and behind it are split into. -/
theorem split_append_crlf (s t : Str) : split crlf (s ++ crlf ++ t) = split crlf s ++ split crlf t := by
  obtain ⟨ls, rest, hls, hrest, rfl⟩ := exists_lines s
  obtain ⟨ms, rest', hms, hrest', rfl⟩ := exists_lines t
  have hall : ∀ l ∈ ls ++ rest :: ms, OneLine l := by
    intro l hl
    rcases mem_append.mp hl with hl | hl
    · exact hls l hl
    · rcases mem_cons.mp hl with rfl | hl
      · exact hrest
      · exact hms l hl
  have htext : unlines ls ++ rest ++ crlf ++ (unlines ms ++ rest') = unlines (ls ++ rest :: ms) ++ rest' := by
    simp [unlines_append]
  rw [htext, split_unlines hall hrest', split_unlines hls hrest, split_unlines hms hrest']
  simp

theorem join_lines (ls : List Str) (rest : Str) : join crlf (ls ++ [rest]) = unlines ls ++ rest := by
  induction ls with
  | nil => simp [join, List.intercalate]
  | cons l ls ih =>
    cases hls : ls ++ [rest] with
    | nil => simp at hls
    | cons m ms =>
      have hstep : join crlf (l :: m :: ms) = l ++ crlf ++ join crlf (m :: ms) := by
        simp [join, List.intercalate, List.intersperse]
      rw [cons_append, hls, hstep, ← hls, ih, unlines_cons, ← append_assoc]

theorem oneLine_of_mem_split {s l : Str} (h : l ∈ split crlf s) : OneLine l := by
  obtain ⟨ls, rest, hls, hrest, rfl⟩ := exists_lines s
  rw [split_unlines hls hrest] at h
  rcases mem_append.mp h with h | h
  · exact hls l h
  · rwa [mem_singleton.mp h]

/-- A text that ends with a CRLF is lines without a rest. -/
theorem exists_unlines {s : Str} (h : crlf <:+ s) : ∃ ls, (∀ l ∈ ls, OneLine l) ∧ ls ≠ [] ∧ s = unlines ls := by
  obtain ⟨ls, rest, hls, hrest, hs⟩ := exists_lines s
  obtain ⟨t, ht⟩ := h
  have hparts := split_append_crlf t []
  rw [append_nil, ht, hs, split_unlines hls hrest, split_rest oneLine_nil] at hparts
  obtain ⟨hinit, hlast⟩ := append_inj' hparts rfl
  rw [(cons.inj hlast).1, append_nil] at hs
  exact ⟨ls, hls, hinit ▸ split_ne_nil t, hs⟩

/-- Where a text is found, it stands. -/
theorem index_prefix {sep : Str} : ∀ {s : Str} {i : Nat}, index sep s = some i → sep <+: s.drop i
  | [], i, h => by
    unfold index at h
    split_ifs at h with hsep
    rw [hsep]
    exact nil_prefix
  | b :: r, i, h => by
    unfold index at h
    split_ifs at h with hsep
    · cases h
      exact isPrefixOf_iff_prefix.mp hsep
    · obtain ⟨j, hj, rfl⟩ := Option.map_eq_some_iff.mp h
      rw [drop_succ_cons]
      exact index_prefix hj

end Mailezine.Gostd
