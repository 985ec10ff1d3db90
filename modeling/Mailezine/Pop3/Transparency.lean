import Mailezine.Gostd.Lines
import Mailezine.Pop3.Session

/-! What a client reads from RETR and TOP.

    The client reads the lines up to the lone dot and removes one leading dot from each. TRANSPARENT: of a
    message made of lines it gets the lines, or those that TOP is to show, and what it has not read then is
    what the server writes next. -/

namespace Mailezine.Pop3
open Gostd List

/-- A line without CR and LF. -/
def Plain (l : Str) : Prop := 0x0d ∉ l ∧ 0x0a ∉ l

instance (l : Str) : Decidable (Plain l) := inferInstanceAs (Decidable (_ ∧ _))

/-- The header, the blank line and the first lines of the body. -/
def top (n : Nat) (ls : List Str) : List Str := ls.takeWhile (· ≠ []) ++ (ls.dropWhile (· ≠ [])).take (n + 1)

/-- The bytes on the connection. -/
def wire (events : List Event) : Str := unlines (events.filterMap fun
  | .reply line => some line
  | _ => none)

/-- The client: the lines up to the lone dot, without the stuffing, and the lines after it. -/
def readText : List Str → Option (List Str × List Str)
  | [] => none
  | l :: rest =>
    if l = ascii "." then some ([], rest)
    else (readText rest).map fun p => ((if l.head? = some 0x2e then l.tail else l) :: p.1, p.2)

/-- The client on what it receives: a status line, then the text. -/
def receive (bytes : Str) : Option (List Str × List Str) :=
  match split crlf bytes with
  | status :: lines => if (ascii "+OK").isPrefixOf status then readText lines else none
  | [] => none

/-! ### The lines of the message -/

theorem rawLines_line {l : Str} (h : 0x0a ∉ l) (s : Str) :
    rawLines (l ++ crlf ++ s) = (l ++ crlf) :: rawLines s := by
  induction l with
  | nil => simp [rawLines, crlf]
  | cons b l ih =>
    rw [mem_cons, not_or] at h
    simp only [cons_append, rawLines, ih h.2, if_neg (Ne.symm h.1)]

theorem rawLines_unlines : ∀ {ls : List Str}, (∀ l ∈ ls, Plain l) → rawLines (unlines ls) = ls.map (· ++ crlf)
  | [], _ => rfl
  | l :: ls, h => by
    rw [unlines_cons, rawLines_line (h l (by simp)).2, rawLines_unlines fun k hk => h k (by simp [hk])]
    rfl

theorem trimCRLF_line {l : Str} (h : Plain l) : trimCRLF (l ++ crlf) = l := by
  have hdrop : l.reverse.dropWhile (fun b => b = 0x0d || b = 0x0a) = l.reverse := by
    cases hr : l.reverse with
    | nil => rfl
    | cons b r =>
      have hb : b ∈ l := mem_reverse.mp (hr ▸ mem_cons_self)
      refine dropWhile_cons_of_neg ?_
      simp [ne_of_mem_of_not_mem hb h.1, ne_of_mem_of_not_mem hb h.2]
  simp [trimCRLF, crlf, hdrop]

theorem dotCopy_unlines {ls : List Str} (h : ∀ l ∈ ls, Plain l) : dotCopy (unlines ls) = ls.map dotStuff := by
  rw [dotCopy, rawLines_unlines h, List.map_map]
  exact map_congr_left fun l hl => congrArg dotStuff (trimCRLF_line (h l hl))

theorem topLines_body (n : Nat) : ∀ {ls : List Str} {sent : Nat}, (∀ l ∈ ls, Plain l) →
    topLines n true sent (ls.map (· ++ crlf)) = (ls.take (n - sent)).map dotStuff
  | [], _, _ => by simp [topLines]
  | l :: ls, sent, h => by
    simp only [map_cons, topLines, trimCRLF_line (h l (by simp))]
    split_ifs with hn
    · simp [Nat.sub_eq_zero_of_le (Int.ofNat_le.mp hn)]
    · rw [topLines_body n fun k hk => h k (by simp [hk]), show n - sent = n - (sent + 1) + 1 by omega]
      rfl

theorem topLines_eq (n : Nat) : ∀ {ls : List Str}, (∀ l ∈ ls, Plain l) →
    topLines n false 0 (ls.map (· ++ crlf)) = (top n ls).map dotStuff
  | [], _ => rfl
  | l :: ls, h => by
    have hls : ∀ k ∈ ls, Plain k := fun k hk => h k (by simp [hk])
    simp only [map_cons, topLines, trimCRLF_line (h l (by simp))]
    split_ifs with hl
    · simp [topLines_body n hls, top, hl, dotStuff]
    · rw [topLines_eq n hls]
      simp [top, hl]

/-! ### The client -/

theorem readText_stuffed (rest : List Str) : ∀ ls : List Str,
    readText (ls.map dotStuff ++ ascii "." :: rest) = some (ls, rest)
  | [] => by simp [readText]
  | l :: ls => by
    have hdot : dotStuff l ≠ ascii "." := by
      intro hd
      unfold dotStuff at hd
      split_ifs at hd with hl
      · rw [(cons.inj hd).2] at hl
        cases hl
      · rw [hd] at hl
        exact hl rfl
    have hback : (if (dotStuff l).head? = some 0x2e then (dotStuff l).tail else dotStuff l) = l := by
      unfold dotStuff
      split_ifs with hl <;> simp_all
    rw [map_cons, cons_append, readText, if_neg hdot, readText_stuffed rest ls, Option.map_some, hback]

theorem oneLine_of_cr {l : Str} (h : 0x0d ∉ l) : OneLine l := fun hin => h (hin.subset (by simp [crlf]))

theorem cr_decimal (n : Int) : 0x0d ∉ decimal n := by
  have hnat : ∀ k, 0x0d ∉ decimalNat k := by
    intro k hmem
    obtain ⟨c, hc, he⟩ := List.mem_map.mp hmem
    have hdigit := Nat.isDigit_of_mem_toDigits (by decide) (by decide) hc
    have hcode := congrArg UInt8.toNat he
    simp only [Char.isDigit, Bool.and_eq_true, decide_eq_true_eq, ge_iff_le, UInt32.le_iff_toNat_le] at hdigit
    change c.val.toNat % 2 ^ 8 = 13 at hcode
    change 48 ≤ c.val.toNat ∧ c.val.toNat ≤ 57 at hdigit
    omega
  unfold decimal
  split_ifs
  · simp [hnat]
  · exact hnat _

/-- A response of status, stuffed lines and the lone dot. -/
theorem receive_response {user status : Str} {m : Message} {ls : List Str}
    (hok : (ascii "+OK").isPrefixOf status = true) (hstatus : 0x0d ∉ status) (hls : ∀ l ∈ ls, Plain l) (after : Str) :
    receive (wire (.opens user m :: .reply status :: (ls.map dotStuff).map .reply ++ [.reply (ascii ".")]) ++ after) =
      some (ls, split crlf after) := by
  have hwire : wire (.opens user m :: .reply status :: (ls.map dotStuff).map .reply ++ [.reply (ascii ".")]) =
      unlines (status :: ls.map dotStuff ++ [ascii "."]) := by
    simp [wire, filterMap_append, filterMap_map, Function.comp_def]
  have hone : ∀ l ∈ status :: ls.map dotStuff ++ [ascii "."], OneLine l := by
    intro l hl
    rw [cons_append, mem_cons, mem_append, mem_singleton, List.mem_map] at hl
    rcases hl with rfl | ⟨k, hk, rfl⟩ | rfl
    · exact oneLine_of_cr hstatus
    · refine oneLine_of_cr ?_
      unfold dotStuff
      split_ifs
      · simpa using (hls k hk).1
      · exact (hls k hk).1
    · decide
  rw [receive, hwire, split_lines after hone, cons_append, cons_append, append_assoc]
  simp only [if_pos hok]
  exact readText_stuffed _ ls

/-- TRANSPARENT: a client recovers the message from RETR and its top from TOP, and is in step with the
    server then. -/
theorem transparent (ans : Answers) (s : Session) (m : Message) (ls : List Str) (after : Str)
    (hauth : s.authed = true) (hls : ∀ l ∈ ls, Plain l) (hopen : ans.openMessage s.user m.uid = some (unlines ls)) :
    (∀ fields, s.message fields = some m →
      receive (wire (handleRetr ans s fields).events ++ after) = some (ls, split crlf after)) ∧
    ∀ (word arg count : Str) (n : Nat), (atoi arg).bind s.messageAt = some m → atoi count = some (n : Int) →
      receive (wire (handleTop ans s [word, arg, count]).events ++ after) = some (top n ls, split crlf after) := by
  refine ⟨fun fields hm => ?_, fun word arg count n hm hn => ?_⟩
  · simp only [handleRetr, Session.needAuth, hauth, hm, hopen, dotCopy_unlines hls]
    exact receive_response rfl (by simp [cr_decimal, ascii]) hls after
  · have htop : ∀ l ∈ top n ls, Plain l := by
      intro l hl
      refine hls l ?_
      rw [← takeWhile_append_dropWhile (p := (· ≠ [])) (l := ls)]
      exact mem_append.mpr ((mem_append.mp hl).imp_right mem_of_mem_take)
    have hcount : (atoi count).filter (0 ≤ ·) = some (n : Int) := by simp [hn]
    simp only [handleTop, Session.needAuth, hauth, hm, hcount, hopen, rawLines_unlines hls, topLines_eq n hls]
    exact receive_response rfl (by simp [cr_decimal, ascii]) htop after

/-- A message of dots and blank lines, and what the server writes next. -/
theorem transparent_dots :
    let ls := [ascii ".", [], ascii "..", []]
    let s : Session := { authed := true, msgs := [⟨7, 11, []⟩] }
    let ans : Answers := { openMessage := fun _ _ => some (unlines ls) }
    receive (wire (handleRetr ans s [ascii "RETR", ascii "1"]).events ++ ascii "+OK") = some (ls, [ascii "+OK"]) ∧
      receive (wire (handleTop ans s [ascii "TOP", ascii "1", ascii "1"]).events ++ ascii "+OK") =
        some ([ascii ".", [], ascii ".."], [ascii "+OK"]) := by
  intro ls s ans
  obtain ⟨hretr, htop⟩ := transparent ans s ⟨7, 11, []⟩ ls (ascii "+OK") rfl (by decide) rfl
  exact ⟨hretr _ (by decide), htop _ _ _ 1 (by decide) (by decide)⟩

end Mailezine.Pop3
