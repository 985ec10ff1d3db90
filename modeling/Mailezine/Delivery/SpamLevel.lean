import Mailezine.Delivery.Pipeline
import Mailezine.Gostd.TextLines
import Mathlib.Data.List.TakeWhile

/-! The spam level that a script sees.

    The pipeline takes the level of the sender out of the message and puts its own before it; the script
    reads the first one. What takes it out cuts the header at CRLF, the reader at LF too, and it knows
    names only without blanks around them; and what stands first in the message may continue the last
    line that was put before it. The reader is not the pipeline's own: it is a parameter, of which only
    the lines, the end of the header and the names are known. -/

namespace Mailezine.Delivery
open Gostd List

/-! ### The reader -/

def isBlank (b : UInt8) : Bool := b = 0x20 || b = 0x09

def trimBlanks (s : Str) : Str := ((s.dropWhile isBlank).reverse.dropWhile isBlank).reverse

/-- `SpamTestHeader`. -/
def spamTestHeader : Str := ascii "X-Spam-Level"

/-- The line starts a field of this name; letter case and the blanks around a name do not count. -/
def startsField (key line : Str) : Bool :=
  !continues line &&
    (line.findIdx? (· = 0x3a)).any fun c => (trimBlanks (line.take c)).map lowerByte = key.map lowerByte

/-- The fields of a name: each is its first line and the lines that continue it. -/
def fieldsNamed (key : Str) : List Str → List (List Str)
  | [] => []
  | line :: rest =>
    if startsField key line then (line :: rest.takeWhile continues) :: fieldsNamed key rest
    else fieldsNamed key rest

/-- The lines of the header: they end at LF or CRLF, and the first empty line ends the header. -/
def headerOf (data : Str) : List Str := (textLines data).takeWhile (· ≠ [])

/-- The header parser of the scripts. -/
structure HeaderReader where
  /-- `ReadHeader`, which may fail, and the values of a field. -/
  values : (key data : Str) → Except Str (List Str)
  /-- What it makes of the lines of a field. -/
  value : List Str → Str
  /-- A header that it reads has the fields of its lines. -/
  reads : ∀ {key data vs}, values key data = .ok vs → vs = (fieldsNamed key (headerOf data)).map value

namespace HeaderReader
variable (R : HeaderReader)

/-- The value that `SpamTest` looks at, if the header can be read: otherwise `Route` runs no script. -/
def spamLevel (data : Str) : Except Str (Option Str) :=
  (R.values spamTestHeader data).map fun vs => vs.head?.map trimSpace

/-- The level in the lines of a header. -/
def levelOf (lines : List Str) : Option Str :=
  ((fieldsNamed spamTestHeader lines).head?.map R.value).map trimSpace

theorem eq_levelOf {data : Str} {level : Option Str} (h : R.spamLevel data = .ok level) :
    level = R.levelOf (headerOf data) := by
  unfold spamLevel at h
  cases hvs : R.values spamTestHeader data with
  | error e => simp [hvs, Except.map] at h
  | ok vs =>
    rw [hvs] at h
    rw [← Except.ok.inj h, R.reads hvs]
    simp [levelOf, head?_map]

end HeaderReader

/-- The level that the script sees is the one that the pipeline has put before the message, and none if it has
    put none. -/
def Unforged (R : HeaderReader) (p : Pipeline) (u : Unicode) (ans : DeliverAnswers) (peer : Option Str)
    (data : Str) : Prop :=
  ∀ headers stored level, classified u ans.classify (traceHeaders p u ans peer data) = .ok headers →
    prepared p u ans peer data = .ok stored → R.spamLevel stored = .ok level →
      level = R.levelOf (headerOf (prependHeaders headers []))

/-! ### When it is -/

/-- The lines that are put before the message. -/
def prependedLines (headers : List Str) : List Str := (textLines (prependHeaders headers [])).dropLast

/-- The lines of a header, cut at CRLF, that belong to no field of this name. -/
def linesLeft (u : Unicode) (data name : Str) : List Str :=
  let lines := split crlf (splitBlock data).1
  linesWithout lines ((splitHeaderFields lines).filter fun f => [u.toLower name].contains (u.toLower f.name))

/-- What is left of the sender's header, cut at its LFs and up to the first empty line. -/
def senderLines (u : Unicode) (data : Str) : List Str :=
  ((linesLeft u data spamTestHeader).flatMap (split [0x0a])).takeWhile (· ≠ [])

/-- The first field of a name is the last of all. -/
def endsInField (key : Str) : List Str → Bool
  | [] => false
  | line :: rest => if startsField key line then rest.all continues else endsInField key rest

/-- Where the lines of the pipeline have no level, no line that is left of the sender's header starts one. -/
def NoneLeft (u : Unicode) (headers : List Str) (data : Str) : Prop :=
  [] ∉ prependedLines headers → fieldsNamed spamTestHeader (prependedLines headers) = [] →
    ∀ line ∈ senderLines u data, startsField spamTestHeader line = false

/-- Nothing that is left of the sender's header is read as a level: no line starts one, and where the lines of
    the pipeline end in one, the first line does not continue it. -/
structure Guarded (u : Unicode) (headers : List Str) (data : Str) : Prop where
  none : NoneLeft u headers data
  last : [] ∉ prependedLines headers → endsInField spamTestHeader (prependedLines headers) = true →
    (senderLines u data).head?.any continues = false

theorem fieldsNamed_eq_nil_iff {key : Str} : ∀ {lines : List Str},
    fieldsNamed key lines = [] ↔ ∀ line ∈ lines, startsField key line = false
  | [] => by simp [fieldsNamed]
  | line :: rest => by
    rw [fieldsNamed]
    cases hline : startsField key line with
    | true => simp [hline]
    | false => simp [hline, fieldsNamed_eq_nil_iff]

/-- The first field of a name stays the first when lines come behind it that neither start nor continue it. -/
theorem head?_fieldsNamed_append {key : Str} {more : List Str} : ∀ {lines : List Str},
    (fieldsNamed key lines = [] → ∀ line ∈ more, startsField key line = false) →
    (endsInField key lines = true → more.head?.any continues = false) →
    (fieldsNamed key (lines ++ more)).head? = (fieldsNamed key lines).head?
  | [], hnone, _ => by rw [nil_append, fieldsNamed_eq_nil_iff.mpr (hnone rfl)]; rfl
  | line :: rest, hnone, hlast => by
    rw [cons_append, fieldsNamed, fieldsNamed]
    rw [fieldsNamed] at hnone
    rw [endsInField] at hlast
    cases hline : startsField key line with
    | false =>
      simp only [hline, Bool.false_eq_true, if_false] at hnone hlast ⊢
      exact head?_fieldsNamed_append hnone hlast
    | true =>
      simp only [hline, if_true, head?_cons, Option.some.injEq, cons.injEq, true_and] at hlast ⊢
      rw [takeWhile_append]
      split_ifs with hlen
      · have hall := (List.takeWhile_prefix continues).eq_of_length hlen
        have hhead := hlast (all_eq_true.mpr (takeWhile_eq_self_iff.mp hall))
        have hmore : more.takeWhile continues = [] := by
          cases more with
          | nil => rfl
          | cons m more => exact takeWhile_cons_of_neg (by simpa using hhead)
        rw [hmore, append_nil, hall]
      · rfl

/-! ### The message -/

theorem exists_lines_prepended (headers : List Str) : ∃ ls, (∀ l ∈ ls, OneLine l) ∧
    ∀ data, prependHeaders headers data = unlines ls ++ data := by
  induction headers with
  | nil => exact ⟨[], by simp, fun data => rfl⟩
  | cons h headers ih =>
    obtain ⟨ls, hls, hdata⟩ := ih
    obtain ⟨ms, hms, -, hh⟩ := exists_unlines (s := if crlf.isSuffixOf h then h else h ++ crlf) (by
      split_ifs with hsuf
      · exact isSuffixOf_iff_suffix.mp hsuf
      · exact suffix_append ..)
    refine ⟨ms ++ ls, fun l hl => (mem_append.mp hl).elim (hms l) (hls l), fun data => ?_⟩
    rw [prependHeaders, flatMap_cons, append_assoc, hh, unlines_append, append_assoc, ← hdata data]
    rfl

theorem textLines_prepended (headers : List Str) (data : Str) :
    textLines (prependHeaders headers data) = prependedLines headers ++ textLines data := by
  obtain ⟨ls, hls, hdata⟩ := exists_lines_prepended headers
  have hnil : textLines [] = [[]] := rfl
  rw [prependedLines, hdata, hdata, textLines_unlines _ hls, textLines_unlines _ hls, hnil,
    dropLast_concat]

theorem body_cases (data : Str) : (splitBlock data).2 = [] ∨ ∃ t, (splitBlock data).2 = crlf ++ crlf ++ t := by
  unfold splitBlock
  cases hi : index (crlf ++ crlf) data with
  | none => exact .inl rfl
  | some i =>
    obtain ⟨t, ht⟩ := index_prefix hi
    exact .inr ⟨t, ht.symm⟩

theorem oneLine_linesLeft {u : Unicode} {data name l : Str} (h : l ∈ linesLeft u data name) : OneLine l := by
  unfold linesLeft linesWithout at h
  obtain ⟨⟨l, i⟩, hl, rfl⟩ := List.mem_map.mp h
  exact oneLine_of_mem_split (fst_mem_of_mem_zipIdx (mem_of_mem_filter hl))

/-- The header of a text that is lines before a body. -/
theorem headerOf_join {ls : List Str} (hls : ∀ l ∈ ls, OneLine l) {body : Str}
    (hbody : body = [] ∨ ∃ t, body = crlf ++ crlf ++ t) :
    headerOf (join crlf ls ++ body) = (ls.flatMap (split [0x0a])).takeWhile (· ≠ []) := by
  have hstop : ∀ front back : List Str, (front ++ [] :: back).takeWhile (· ≠ []) = front.takeWhile (· ≠ []) := by
    intro front back
    rw [takeWhile_append]
    split_ifs with hlen
    · rw [takeWhile_cons_of_neg (by simp), append_nil]
      exact ((List.takeWhile_prefix _).eq_of_length hlen).symm
    · rfl
  rcases eq_nil_or_concat' ls with rfl | ⟨init, l, rfl⟩
  · rcases hbody with rfl | ⟨t, rfl⟩
    · rfl
    · have hlines : textLines (crlf ++ (crlf ++ t)) = [] :: textLines (crlf ++ t) := textLines_line _ oneLine_nil
      change (textLines (crlf ++ crlf ++ t)).takeWhile _ = _
      rw [append_assoc, hlines]
      rfl
  · have hinit : ∀ k ∈ init, OneLine k := fun k hk => hls k (by simp [hk])
    have hl : OneLine l := hls l (by simp)
    rw [join_lines]
    rcases hbody with rfl | ⟨t, rfl⟩
    · rw [append_nil, headerOf, textLines_unlines _ hinit, textLines_oneLine hl, flatMap_append]
      simp
    · have hlines : textLines (crlf ++ t) = [] :: textLines t := textLines_line _ oneLine_nil
      have htext : unlines init ++ l ++ (crlf ++ crlf ++ t) = unlines (init ++ [l]) ++ (crlf ++ t) := by
        simp [unlines_append]
      rw [htext, headerOf, textLines_unlines _ hls, hlines, hstop]

theorem headerOf_strip (u : Unicode) (data : Str) :
    headerOf (stripHeaderFields u data [spamTestHeader]) = senderLines u data :=
  headerOf_join (fun _ hl => oneLine_linesLeft hl) (body_cases data)

theorem headerOf_prependHeaders_of_mem {headers : List Str} (h : [] ∈ prependedLines headers) (data : Str) :
    headerOf (prependHeaders headers data) = headerOf (prependHeaders headers []) := by
  have hlen : ((prependedLines headers).takeWhile (· ≠ [])).length ≠ (prependedLines headers).length := by
    intro hlen
    have := takeWhile_eq_self_iff.mp ((List.takeWhile_prefix _).eq_of_length hlen) [] h
    simp at this
  simp only [headerOf, textLines_prepended, takeWhile_append, if_neg hlen]

theorem headerOf_prependHeaders {headers : List Str} (h : [] ∉ prependedLines headers) (data : Str) :
    headerOf (prependHeaders headers data) = prependedLines headers ++ headerOf data := by
  have hall : ∀ line ∈ prependedLines headers, decide (line ≠ []) = true :=
    fun line hline => decide_eq_true fun he => h (he ▸ hline)
  rw [headerOf, textLines_prepended, takeWhile_append_of_pos hall]
  rfl

/-- SPAM LEVEL: the level that the script sees is the pipeline's own when nothing that is left of the sender's
    header is read as one; and where the pipeline has put no level before a message that can be read, only
    then. -/
theorem unforged_of_guarded (R : HeaderReader) (p : Pipeline) (u : Unicode) (ans : DeliverAnswers)
    (peer : Option Str) (data : Str) :
    ((∀ headers, classified u ans.classify (traceHeaders p u ans peer data) = .ok headers →
      Guarded u headers data) → Unforged R p u ans peer data) ∧
    (Unforged R p u ans peer data → ∀ headers stored level,
      classified u ans.classify (traceHeaders p u ans peer data) = .ok headers →
      prepared p u ans peer data = .ok stored → R.spamLevel stored = .ok level → NoneLeft u headers data) := by
  have hstored : ∀ {headers stored}, classified u ans.classify (traceHeaders p u ans peer data) = .ok headers →
      prepared p u ans peer data = .ok stored →
      stored = prependHeaders headers (stripHeaderFields u data [spamTestHeader]) := by
    intro headers stored hheaders h
    rw [prepared, hheaders] at h
    exact (Except.ok.inj h).symm
  have hnil : headerOf [] = [] := rfl
  refine ⟨fun h headers stored level hheaders hprep hlevel => ?_,
    fun h headers stored level hheaders hprep hlevel hmem hown => ?_⟩
  · rw [R.eq_levelOf hlevel, hstored hheaders hprep]
    by_cases hmem : [] ∈ prependedLines headers
    · rw [headerOf_prependHeaders_of_mem hmem]
    · have hguard := h headers hheaders
      rw [headerOf_prependHeaders hmem, headerOf_prependHeaders hmem, headerOf_strip, hnil, append_nil,
        HeaderReader.levelOf, HeaderReader.levelOf,
        head?_fieldsNamed_append (hguard.none hmem) (hguard.last hmem)]
  · have hsame := h headers stored level hheaders hprep hlevel
    rw [R.eq_levelOf hlevel, hstored hheaders hprep, headerOf_prependHeaders hmem, headerOf_prependHeaders hmem,
      headerOf_strip, hnil, append_nil, HeaderReader.levelOf, HeaderReader.levelOf, hown] at hsame
    have hnone : fieldsNamed spamTestHeader (prependedLines headers ++ senderLines u data) = [] := by
      simpa using hsame
    exact fun line hline => fieldsNamed_eq_nil_iff.mp hnone line (mem_append_right _ hline)

/-! ### A reader -/

/-- A line that `ReadHeader` refuses: it has no colon, or a name with a byte that no name has. -/
def malformed (line : Str) : Bool :=
  !continues line && (line.findIdx? (· = 0x3a)).all fun c =>
    (trimBlanks (line.take c)).any fun b => b < 0x21 || 0x7e < b

/-- The value of a field, from what is behind the colon and the lines that continue it. -/
def foldedValue : List Str → Str
  | [] => []
  | line :: rest =>
    join [0x20] (((line.drop (line.findIdx (· = 0x3a) + 1) :: rest).map trimBlanks).filter (· ≠ []))

/-- `ReadHeader` of go-message. -/
def goMessage : HeaderReader where
  values key data :=
    if (headerOf data).head?.any continues || (headerOf data).any malformed
    then .error (ascii "malformed MIME header")
    else .ok ((fieldsNamed key (headerOf data)).map foldedValue)
  value := foldedValue
  reads h := by
    split_ifs at h
    exact (Except.ok.inj h).symm

/-- A classifier that finds nothing. -/
def harmless : DeliverAnswers where
  classify := some (.ok ⟨ascii "no action", 0, []⟩)

/-- A level of the sender that the pipeline takes for one is gone. -/
theorem unforged_of_guarded_plain :
    Unforged goMessage {} asciiOnly {} none (ascii "A: 1\r\nx-spam-level: *****\r\n\r\n") := by
  refine (unforged_of_guarded ..).1 fun headers hheaders => ?_
  cases hheaders
  exact ⟨fun _ _ => by decide +kernel, fun _ _ => by decide +kernel⟩

/-- A level behind a bare LF and one with a blank behind its name are seen where no classifier is configured,
    and a first line that starts with a blank is added to the level of the pipeline. -/
theorem level_forged :
    let seen := fun ans data => (prepared {} asciiOnly ans none data).toOption.bind fun stored =>
      (goMessage.spamLevel stored).toOption
    seen {} (ascii "A: 1\nX-Spam-Level: *****\r\n\r\n") = some (some (ascii "*****")) ∧
    seen {} (ascii "X-Spam-Level : *****\r\n\r\n") = some (some (ascii "*****")) ∧
    seen harmless (ascii " *****\r\nA: 1\r\n\r\n") = some (some (ascii "*****")) ∧
    ¬Unforged goMessage {} asciiOnly {} none (ascii "A: 1\nX-Spam-Level: *****\r\n\r\n") ∧
    ¬Unforged goMessage {} asciiOnly harmless none (ascii " *****\r\nA: 1\r\n\r\n") := by
  refine ⟨by decide +kernel, by decide +kernel, by decide +kernel, fun h => ?_, fun h => ?_⟩
  · exact absurd (h _ _ (some (ascii "*****")) rfl rfl (by decide +kernel)) (by decide +kernel)
  · exact absurd (h _ _ (some (ascii "*****")) rfl rfl (by decide +kernel)) (by decide +kernel)

end Mailezine.Delivery
