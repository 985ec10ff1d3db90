import Mathlib.Data.List.Nodup
import Mailezine.Delivery.Visits

/-! Where a Sieve script sends a message, and where the pipeline puts it.

    The interpreter, the projection of its actions to one result and the pipeline each have their own
    notion of keeping a message. What comes of the three is compared with what the executed commands
    ask for. -/

namespace Mailezine.Delivery
open Gostd Schemes Sieve List

/-! ### Mailbox names -/

theorem lower_of_fold (u : Unicode) (r : Str) : ∀ {s t : Str}, fold s = t →
    (∀ b ∈ t, b ≤ 0x7f ∧ b ≠ 0x6b ∧ b ≠ 0x73) → u.toLower (s ++ r) = t ++ u.toLower r := by
  intro s
  fun_induction fold s with
  | case1 => rintro t rfl _; rfl
  | case2 s ih =>
    rintro t rfl h
    exact absurd rfl (h 0x6b (by simp)).2.1
  | case3 s ih =>
    rintro t rfl h
    exact absurd rfl (h 0x73 (by simp)).2.2
  | case4 b s _ _ ih =>
    rintro t rfl h
    have hb := (h _ (mem_cons_self ..)).1
    have hlow : b ≤ 0x7f ∧ lowerByte b = if 0x41 ≤ b ∧ b ≤ 0x5a then b + 0x20 else b := by
      refine ⟨?_, rfl⟩
      split at hb
      case isTrue hup => exact UInt8.le_trans hup.2 (by decide)
      case isFalse => exact hb
    rw [cons_append, u.toLower_cons hlow.1, hlow.2, ih rfl fun c hc => h c (mem_cons_of_mem _ hc),
      cons_append]

theorem toLower_equalFold (u : Unicode) {s : Str} (r : Str) (h : equalFold s (ascii "inbox") = true) :
    u.toLower (s ++ r) = ascii "inbox" ++ u.toLower r := by
  have hfold : fold s = ascii "inbox" := (of_decide_eq_true h).trans (by decide)
  exact lower_of_fold u r hfold (by decide +kernel)

/-- Names of one mailbox differ in letter case only. -/
theorem toLower_normalizeMailboxName (u : Unicode) (name : Str) :
    u.toLower (normalizeMailboxName name) = u.toLower name := by
  have hinbox : ∀ r, u.toLower (inbox ++ r) = ascii "inbox" ++ u.toLower r :=
    fun r => toLower_equalFold u r (by decide)
  unfold normalizeMailboxName
  split
  case isTrue h =>
    have hr := toLower_equalFold u [] h
    rw [append_nil] at hr
    rw [hr, ← hinbox, append_nil]
  case isFalse =>
    split
    case h_1 idx _ =>
      split
      case isTrue h => rw [hinbox, ← toLower_equalFold u (name.drop idx) h, take_append_drop]
      case isFalse => rfl
    case h_2 => rfl

theorem normalizeMailboxName_ne_nil {name : Str} (h : name ≠ []) : normalizeMailboxName name ≠ [] := by
  unfold normalizeMailboxName
  split
  · decide
  · split
    · split
      · simp [inbox, ascii]
      · exact h
    · exact h

@[simp] theorem normalizeMailboxName_inbox : normalizeMailboxName inbox = inbox := by decide

/-! ### What was executed and what is recorded -/

/-- The names that the executed commands file into. -/
def filed (l : List Deed) : List Str := l.filterMap Deed.filed

/-- The addresses that the executed commands redirect to. -/
def redirected (l : List Deed) : List Str := l.filterMap Deed.redirected

theorem record_sublist : ∀ (seen : List Str) (l : List Deed), (record seen l).Sublist l
  | _, [] => .slnil
  | seen, a :: l => by
    cases a with
    | fileInto m copy =>
      rw [record]
      split
      · exact (record_sublist seen l).cons _
      · exact (record_sublist _ l).cons_cons _
    | _ => exact (record_sublist seen l).cons_cons _

/-- Every name is recorded once it was not there before. -/
theorem mem_filed_record : ∀ {seen : List Str} {l : List Deed} {m : Str},
    m ∈ filed l → m ∈ seen ∨ m ∈ filed (record seen l)
  | seen, a :: l, m, h => by
    cases a with
    | fileInto n copy =>
      rw [record]
      rcases mem_cons.mp (show m ∈ n :: filed l from h) with rfl | h
      · split
        case isTrue hin => exact .inl hin
        case isFalse => exact .inr (mem_cons_self ..)
      · split
        · exact mem_filed_record h
        · rcases @mem_filed_record (seen ++ [n]) l m h with hin | hin
          · rcases mem_append.mp hin with hin | hin
            · exact .inl hin
            · exact .inr (mem_singleton.mp hin ▸ mem_cons_self ..)
          · exact .inr (mem_cons_of_mem _ hin)
    | _ => exact mem_filed_record (l := l) h

theorem redirected_record : ∀ (seen : List Str) (l : List Deed), redirected (record seen l) = redirected l
  | _, [] => rfl
  | seen, a :: l => by
    cases a with
    | fileInto m copy =>
      rw [record]
      split
      · exact redirected_record seen l
      · exact redirected_record _ l
    | redirect addr copy => exact congrArg (addr :: ·) (redirected_record seen l)
    | _ => exact redirected_record seen l

/-- Commands other than fileinto are all recorded. -/
theorem mem_record {a : Deed} (ha : a.filed = none) : ∀ {seen : List Str} {l : List Deed}, a ∈ l → a ∈ record seen l
  | seen, b :: l, h => by
    have htail : a ∈ l → ∀ seen, a ∈ record seen l := fun h seen => mem_record ha h
    rcases mem_cons.mp h with rfl | hl
    · cases a with
      | fileInto => cases ha
      | _ => exact mem_cons_self ..
    · cases b with
      | fileInto m copy =>
        rw [record]
        split
        · exact htail hl seen
        · exact mem_cons_of_mem _ (htail hl _)
      | _ => exact mem_cons_of_mem _ (htail hl seen)

/-! ### What is stored -/

/-- Whether the interpreter adds an implicit keep. -/
def implicit (l : List Deed) (stop : Bool) : Bool := !stop && !(record [] l).any Deed.cancels

/-- The deeds behind the actions of a run. -/
def recorded (l : List Deed) (stop : Bool) : List Deed :=
  record [] l ++ if implicit l stop then [.keep] else []

/-- The names behind the mailboxes of the result. -/
def boxNames (l : List Deed) (stop : Bool) : List Str := (recorded l stop).filterMap Deed.mailbox

/-- The mailboxes that the pipeline stores into. -/
def boxes (u : Unicode) (l : List Deed) (stop : Bool) : List Str :=
  if dedupeFold u (boxNames l stop) = [] then [inbox] else dedupeFold u (boxNames l stop)

/-- The names that the executed commands ask for: those filed into, and the inbox when the message is kept
    or nothing cancels the implicit keep. -/
def names (l : List Deed) : List Str :=
  filed l ++ if .keep ∈ l ∨ l.any Deed.cancels = false then [inbox] else []

/-- The mailboxes that the executed commands ask for. -/
def wanted (l : List Deed) : List Str := (names l).map normalizeMailboxName

/-- What a script without discard has to keep to. -/
structure Ordinary (u : Unicode) (l : List Deed) (stop : Bool) : Prop where
  /-- No name and no address is empty. -/
  named : [] ∉ filed l ∧ [] ∉ redirected l
  /-- Names that differ in letter case only are names of one mailbox. -/
  distinct : ∀ a ∈ names l, ∀ b ∈ names l, u.toLower a = u.toLower b →
    normalizeMailboxName a = normalizeMailboxName b
  /-- A script that only redirects does so with `:copy`. -/
  redirects : filed l = [] → .keep ∉ l → l.any Deed.cancels = false
  /-- A script that files the message, but neither keeps it nor files it into the inbox, does not stop when
      all is done with `:copy`, and when not all is, stops or cancels the implicit keep with the first
      fileinto of a name or with a redirect. -/
  implicit : filed l ≠ [] → .keep ∉ l → (∀ n ∈ filed l, u.toLower n ≠ u.toLower inbox) →
    if l.any Deed.cancels then stop || (record [] l).any Deed.cancels else !stop

theorem ordinary_iff {u : Unicode} {l : List Deed} {stop : Bool} : (([] ∉ filed l ∧ [] ∉ redirected l) ∧
      (∀ a ∈ names l, ∀ b ∈ names l, u.toLower a = u.toLower b → normalizeMailboxName a = normalizeMailboxName b) ∧
      (filed l = [] → .keep ∉ l → l.any Deed.cancels = false) ∧
      (filed l ≠ [] → .keep ∉ l → (∀ n ∈ filed l, u.toLower n ≠ u.toLower inbox) →
        if l.any Deed.cancels then stop || (record [] l).any Deed.cancels else !stop)) ↔ Ordinary u l stop :=
  ⟨fun ⟨h₁, h₂, h₃, h₄⟩ => ⟨h₁, h₂, h₃, h₄⟩, fun ⟨h₁, h₂, h₃, h₄⟩ => ⟨h₁, h₂, h₃, h₄⟩⟩

instance (u : Unicode) (l : List Deed) (stop : Bool) : Decidable (Ordinary u l stop) :=
  decidable_of_iff _ ordinary_iff

theorem mem_filed_iff {l : List Deed} {n : Str} : n ∈ filed (record [] l) ↔ n ∈ filed l := by
  refine ⟨fun h => ((record_sublist [] l).filterMap Deed.filed).subset h, fun h => ?_⟩
  exact (mem_filed_record h).resolve_left not_mem_nil

theorem mem_mailboxes {l : List Deed} {n : Str} :
    n ∈ l.filterMap Deed.mailbox ↔ n ∈ filed l ∨ n = inbox ∧ .keep ∈ l := by
  induction l with
  | nil => simp [filed]
  | cons a l ih =>
    cases a with
    | fileInto m copy =>
      rw [show (Deed.fileInto m copy :: l).filterMap Deed.mailbox = m :: l.filterMap Deed.mailbox from rfl,
        show filed (.fileInto m copy :: l) = m :: filed l from rfl, mem_cons, mem_cons, ih]
      simp [or_assoc]
    | keep =>
      rw [show (Deed.keep :: l).filterMap Deed.mailbox = inbox :: l.filterMap Deed.mailbox from rfl,
        show filed (.keep :: l) = filed l from rfl, mem_cons, ih]
      constructor
      · rintro (rfl | h | ⟨rfl, h⟩)
        · exact .inr ⟨rfl, by simp⟩
        · exact .inl h
        · exact .inr ⟨rfl, by simp⟩
      · rintro (h | ⟨rfl, -⟩)
        · exact .inr (.inl h)
        · exact .inl rfl
    | _ => exact ih.trans (or_congr Iff.rfl (and_congr Iff.rfl (by simp)))

theorem mem_boxNames {l : List Deed} {stop : Bool} {n : Str} :
    n ∈ boxNames l stop ↔ n ∈ filed l ∨ n = inbox ∧ (.keep ∈ l ∨ implicit l stop = true) := by
  have hkeep : .keep ∈ record [] l ↔ .keep ∈ l :=
    ⟨fun h => (record_sublist [] l).subset h, fun h => mem_record rfl h⟩
  rw [boxNames, recorded, filterMap_append, mem_append, mem_mailboxes, mem_filed_iff, hkeep]
  cases implicit l stop <;> simp [Deed.mailbox]
  tauto

/-- What comes last is dropped when its key was there before. -/
theorem dedupeBy_concat {key : Str → Str} {s : Str} : ∀ {seen l : List Str},
    (key s ∈ seen ∨ ∃ n ∈ l, n ≠ [] ∧ key n = key s) → dedupeBy key seen (l ++ [s]) = dedupeBy key seen l
  | seen, [], h => by
    have hin : key s ∈ seen := h.resolve_right (by simp)
    simp [dedupeBy, hin]
  | seen, a :: l, h => by
    rw [cons_append, dedupeBy, dedupeBy]
    split
    case isTrue hskip =>
      refine dedupeBy_concat ?_
      rcases h with h | ⟨n, hn, hne, hk⟩
      · exact .inl h
      · rcases mem_cons.mp hn with rfl | hn
        · exact .inl (hk ▸ hskip.resolve_left hne)
        · exact .inr ⟨n, hn, hne, hk⟩
    case isFalse =>
      rw [dedupeBy_concat]
      rcases h with h | ⟨n, hn, hne, hk⟩
      · exact .inl (mem_cons_of_mem _ h)
      · rcases mem_cons.mp hn with rfl | hn
        · exact .inl (hk ▸ mem_cons_self ..)
        · exact .inr ⟨n, hn, hne, hk⟩

section Boxes
variable {u : Unicode} {l : List Deed} {stop : Bool}

variable {n : Str}

theorem boxes_eq (h : n ∈ boxNames l stop) (hne : n ≠ []) :
    boxes u l stop = dedupeFold u (boxNames l stop) := by
  refine if_neg fun hnil => ?_
  rcases @exists_key_dedupeBy u.toLower [] _ n h hne with hin | ⟨t, ht, -⟩
  · cases hin
  · rw [show dedupeBy u.toLower [] (boxNames l stop) = [] from hnil] at ht
    cases ht

theorem ne_nil_of_mem_boxes {t : Str} (h : t ∈ boxes u l stop) : t ≠ [] := by
  unfold boxes at h
  split at h
  · rw [mem_singleton.mp h]
    decide
  · exact (mem_of_mem_dedupeBy h).2.1

theorem nodup_boxes : ((boxes u l stop).map u.toLower).Nodup := by
  unfold boxes
  split
  · simp
  · exact nodup_dedupeBy _ _

/-- One mailbox for each spelling. -/
theorem eq_of_mem_boxes {t t' : Str} (h : t ∈ boxes u l stop) (h' : t' ∈ boxes u l stop)
    (he : u.toLower t = u.toLower t') : t = t' :=
  inj_on_of_nodup_map nodup_boxes h h' he

/-- Copies go to distinct mailboxes. -/
theorem nodup_stored : ((boxes u l stop).map normalizeMailboxName).Nodup := by
  have hlow : (((boxes u l stop).map normalizeMailboxName).map u.toLower).Nodup := by
    have hsame : ∀ a ∈ boxes u l stop, (u.toLower ∘ normalizeMailboxName) a = u.toLower a :=
      fun a _ => toLower_normalizeMailboxName u a
    rw [List.map_map, map_congr_left hsame]
    exact nodup_boxes
  exact hlow.of_map _

theorem mem_boxNames_of_mem_boxes {t : Str} (hn : n ∈ boxNames l stop) (hne : n ≠ [])
    (h : t ∈ boxes u l stop) : t ∈ boxNames l stop := by
  rw [boxes_eq hn hne] at h
  exact (mem_of_mem_dedupeBy h).1

/-- Every name has its spelling among the mailboxes. -/
theorem exists_mem_boxes (h : n ∈ boxNames l stop) (hne : n ≠ []) :
    ∃ t ∈ boxes u l stop, u.toLower t = u.toLower n := by
  rw [boxes_eq h hne]
  exact (@exists_key_dedupeBy u.toLower [] _ n h hne).resolve_left not_mem_nil

/-- The inbox of an implicit keep is dropped when a name with its spelling was filed. -/
theorem inbox_mem_filed (hkeep : .keep ∉ l) (hn : n ∈ filed l) (hne : n ≠ [])
    (hlow : u.toLower n = u.toLower inbox) (h : inbox ∈ boxes u l stop) : inbox ∈ filed l := by
  have hmem : ∀ m, m ∈ (record [] l).filterMap Deed.mailbox ↔ m ∈ filed l := fun m => by
    rw [mem_mailboxes, mem_filed_iff]
    exact or_iff_left fun hk => hkeep ((record_sublist [] l).subset hk.2)
  rw [boxes_eq (mem_boxNames.mpr (.inl hn)) hne] at h
  have hnames : dedupeFold u (boxNames l stop) = dedupeFold u ((record [] l).filterMap Deed.mailbox) := by
    unfold boxNames recorded
    split
    · rw [filterMap_append]
      exact dedupeBy_concat (.inr ⟨n, (hmem n).mpr hn, hne, hlow⟩)
    · rw [append_nil]
  rw [hnames] at h
  exact (hmem _).mp (mem_of_mem_dedupeBy h).1

theorem mem_names : n ∈ names l ↔ n ∈ filed l ∨ n = inbox ∧ (.keep ∈ l ∨ l.any Deed.cancels = false) := by
  rw [names, mem_append]
  refine or_congr Iff.rfl ?_
  split
  case isTrue h => rw [mem_singleton, and_iff_left h]
  case isFalse h => exact ⟨fun hn => absurd hn not_mem_nil, fun hn => absurd hn.2 h⟩

/-- A script that files nothing leaves the message to the inbox. -/
theorem inbox_mem_boxes (hf : filed l = []) : inbox ∈ boxes u l stop ∧ ∀ t ∈ boxes u l stop, t = inbox := by
  have hall : ∀ t ∈ boxes u l stop, t = inbox := by
    intro t ht
    unfold boxes at ht
    split at ht
    · exact mem_singleton.mp ht
    · rcases mem_boxNames.mp (mem_of_mem_dedupeBy ht).1 with hin | ⟨rfl, -⟩
      · rw [hf] at hin
        cases hin
      · rfl
  refine ⟨?_, hall⟩
  have hne : boxes u l stop ≠ [] := by
    unfold boxes
    split
    · exact cons_ne_nil _ _
    · assumption
  obtain ⟨t, ht⟩ := exists_mem_of_ne_nil _ hne
  exact hall t ht ▸ ht

theorem implicit_of_not_cancels (hc : l.any Deed.cancels = false) (hs : stop = false) : implicit l stop = true := by
  have hrec : (record [] l).any Deed.cancels = false := by
    rw [List.any_eq_false] at hc ⊢
    exact fun a ha => hc a ((record_sublist [] l).subset ha)
  simp [implicit, hs, hrec]

section Rules
variable (h : Ordinary u l stop)
include h

/-- Under the rules a name of the result stands for a mailbox that is asked for. -/
theorem Ordinary.wanted_of_mem {t : Str} (ht : t ∈ boxes u l stop) : normalizeMailboxName t ∈ wanted l := by
  have hname : ∀ a ∈ names l, normalizeMailboxName a ∈ wanted l := fun a ha => List.mem_map_of_mem ha
  cases hf : filed l with
  | nil =>
    rw [(inbox_mem_boxes hf).2 t ht]
    refine hname inbox (mem_names.mpr (.inr ⟨rfl, ?_⟩))
    exact (em _).imp_right (h.redirects hf)
  | cons n rest =>
    have hn : n ∈ filed l := by rw [hf]; exact mem_cons_self ..
    have hne : n ≠ [] := fun he => h.named.1 (he ▸ hn)
    rcases mem_boxNames.mp (mem_boxNames_of_mem_boxes (mem_boxNames.mpr (.inl hn)) hne ht) with hin | ⟨rfl, hk | hi⟩
    · exact hname t (mem_names.mpr (.inl hin))
    · exact hname inbox (mem_names.mpr (.inr ⟨rfl, .inl hk⟩))
    · -- an implicit keep that the executed commands cancel is one that the fold drops again
      cases hc : l.any Deed.cancels with
      | false => exact hname inbox (mem_names.mpr (.inr ⟨rfl, .inr hc⟩))
      | true =>
        by_cases hkeep : .keep ∈ l
        · exact hname inbox (mem_names.mpr (.inr ⟨rfl, .inl hkeep⟩))
        by_cases hno : ∀ n ∈ filed l, u.toLower n ≠ u.toLower inbox
        · have hrule := h.implicit (by rw [hf]; exact cons_ne_nil _ _) hkeep hno
          rw [hc, if_pos rfl] at hrule
          have hi : (!stop && !(record [] l).any Deed.cancels) = true := hi
          rw [← Bool.not_or, hrule] at hi
          cases hi
        · simp only [not_forall, not_not] at hno
          obtain ⟨k, hk, hlow⟩ := hno
          have hkne : k ≠ [] := fun he => h.named.1 (he ▸ hk)
          exact hname inbox (mem_names.mpr (.inl (inbox_mem_filed hkeep hk hkne hlow ht)))

/-- Under the rules every mailbox that is asked for is stored into. -/
theorem Ordinary.stored_of_mem {a : Str} (ha : a ∈ names l) :
    normalizeMailboxName a ∈ (boxes u l stop).map normalizeMailboxName := by
  -- whatever stands in for a name under its spelling is a name of the same mailbox
  have hspell : ∀ n ∈ names l, n ∈ boxNames l stop → n ≠ [] →
      normalizeMailboxName n ∈ (boxes u l stop).map normalizeMailboxName := by
    intro n hn hbox hne
    obtain ⟨t, ht, hlow⟩ := exists_mem_boxes (u := u) hbox hne
    have htn : t ∈ names l := by
      rcases mem_boxNames.mp (mem_boxNames_of_mem_boxes hbox hne ht) with hin | ⟨rfl, -⟩
      · exact mem_names.mpr (.inl hin)
      · by_cases hk : .keep ∈ l ∨ l.any Deed.cancels = false
        · exact mem_names.mpr (.inr ⟨rfl, hk⟩)
        · have hin : n ∈ filed l := (mem_names.mp hn).resolve_right fun hr => hk hr.2
          exact mem_names.mpr (.inl (inbox_mem_filed (fun hkeep => hk (.inl hkeep)) hin hne hlow.symm ht))
    exact List.mem_map.mpr ⟨t, ht, h.distinct t htn n hn hlow⟩
  have hfiled : ∀ n ∈ filed l, normalizeMailboxName n ∈ (boxes u l stop).map normalizeMailboxName := fun n hn =>
    hspell n (mem_names.mpr (.inl hn)) (mem_boxNames.mpr (.inl hn)) fun he => h.named.1 (he ▸ hn)
  rcases mem_names.mp ha with hin | ⟨rfl, hk⟩
  · exact hfiled a hin
  · cases hf : filed l with
    | nil => exact List.mem_map_of_mem (inbox_mem_boxes hf).1
    | cons n rest =>
      by_cases hlow : ∀ n ∈ filed l, u.toLower n ≠ u.toLower inbox
      · refine hspell inbox ha (mem_boxNames.mpr (.inr ⟨rfl, ?_⟩)) (by decide)
        by_cases hkeep : .keep ∈ l
        · exact .inl hkeep
        · have hc := hk.resolve_left hkeep
          have hrule := h.implicit (by rw [hf]; exact cons_ne_nil _ _) hkeep hlow
          rw [hc, if_neg Bool.false_ne_true] at hrule
          exact .inr (implicit_of_not_cancels hc (by simpa using hrule))
      · simp only [not_forall, not_not] at hlow
        obtain ⟨k, hkf, hlow⟩ := hlow
        rw [← h.distinct k (mem_names.mpr (.inl hkf)) inbox ha hlow]
        exact hfiled k hkf

theorem Ordinary.stored_iff (m : Str) : m ∈ (boxes u l stop).map normalizeMailboxName ↔ m ∈ wanted l := by
  constructor
  · intro hm
    obtain ⟨t, ht, rfl⟩ := List.mem_map.mp hm
    exact h.wanted_of_mem ht
  · intro hm
    obtain ⟨a, ha, rfl⟩ := List.mem_map.mp hm
    exact h.stored_of_mem ha

end Rules

/-- The rules hold when the right mailboxes are stored into. -/
theorem ordinary_of_stored (h : ∀ m, m ∈ (boxes u l stop).map normalizeMailboxName ↔ m ∈ wanted l)
    (hr : [] ∉ redirected l) : Ordinary u l stop := by
  have hget : ∀ a ∈ names l, ∃ t ∈ boxes u l stop, normalizeMailboxName t = normalizeMailboxName a := fun a ha =>
    List.mem_map.mp ((h _).mpr (List.mem_map_of_mem ha))
  have hinbox : inbox ∈ boxes u l stop → .keep ∉ l → (∀ n ∈ filed l, u.toLower n ≠ u.toLower inbox) →
      l.any Deed.cancels = false := by
    intro hin hkeep hno
    obtain ⟨a, ha, he⟩ := List.mem_map.mp ((h inbox).mp (List.mem_map.mpr ⟨inbox, hin, by simp⟩))
    rcases mem_names.mp ha with ha | ⟨-, hk | hc⟩
    · refine absurd ?_ (hno a ha)
      rw [← toLower_normalizeMailboxName u a, he]
    · exact absurd hk hkeep
    · exact hc
  have hnamed : [] ∉ filed l := fun hin => by
    obtain ⟨t, ht, he⟩ := hget [] (mem_names.mpr (.inl hin))
    exact normalizeMailboxName_ne_nil (ne_nil_of_mem_boxes ht) (he.trans (by decide))
  refine ⟨⟨hnamed, hr⟩, fun a ha b hb he => ?_, fun hf hkeep => ?_, fun hf hkeep hno => ?_⟩
  · obtain ⟨t, ht, hta⟩ := hget a ha
    obtain ⟨t', ht', htb⟩ := hget b hb
    have hlow : u.toLower t = u.toLower t' := by
      rw [← toLower_normalizeMailboxName u t, ← toLower_normalizeMailboxName u t', hta, htb,
        toLower_normalizeMailboxName, toLower_normalizeMailboxName, he]
    rw [← hta, ← htb, eq_of_mem_boxes ht ht' hlow]
  · exact hinbox (inbox_mem_boxes hf).1 hkeep fun n hn => by rw [hf] at hn; cases hn
  · obtain ⟨n, hn⟩ := exists_mem_of_ne_nil _ hf
    have hne : n ≠ [] := fun he => hnamed (he ▸ hn)
    have hfrom : ∀ t ∈ boxes u l stop, u.toLower t = u.toLower inbox → t = inbox ∧ implicit l stop = true := by
      intro t ht hlow
      rcases mem_boxNames.mp (mem_boxNames_of_mem_boxes (mem_boxNames.mpr (.inl hn)) hne ht) with hin | ⟨rfl, hk | hi⟩
      · exact absurd hlow (hno t hin)
      · exact absurd hk hkeep
      · exact ⟨rfl, hi⟩
    cases hc : l.any Deed.cancels with
    | true =>
      rw [if_pos rfl]
      by_contra hrule
      have hi : implicit l stop = true := by
        rw [implicit, ← Bool.not_or, eq_false_of_ne_true hrule]
        rfl
      obtain ⟨t, ht, hlow⟩ := exists_mem_boxes (u := u) (mem_boxNames.mpr (.inr ⟨rfl, .inr hi⟩)) (by decide)
      have hfalse := hinbox ((hfrom t ht hlow).1 ▸ ht) hkeep hno
      rw [hc] at hfalse
      cases hfalse
    | false =>
      rw [if_neg Bool.false_ne_true]
      obtain ⟨t, ht, he⟩ := hget inbox (mem_names.mpr (.inr ⟨rfl, .inr hc⟩))
      have hlow : u.toLower t = u.toLower inbox := by
        rw [← toLower_normalizeMailboxName u t, he, toLower_normalizeMailboxName]
      exact (Bool.and_eq_true_iff.mp (hfrom t ht hlow).2).1

end Boxes

/-! ### From the script to the mailboxes -/

/-- The mailboxes that copies went to. -/
def copiesIn (events : List Event) : List Str :=
  events.filterMap fun
    | .stored _ mailbox _ => some mailbox
    | _ => none

/-- What a script has to keep to: no discard together with anything else, and without discard the rules. -/
def Routable (u : Unicode) (l : List Deed) (stop : Bool) : Prop :=
  if .discard ∈ l then filed l = [] ∧ redirected l = [] ∧ .keep ∉ l else Ordinary u l stop

instance (u : Unicode) (l : List Deed) (stop : Bool) : Decidable (Routable u l stop) :=
  inferInstanceAs (Decidable
    (if .discard ∈ l then filed l = [] ∧ redirected l = [] ∧ .keep ∉ l else Ordinary u l stop))

section Result
variable {ν : Type} {u : Unicode} {x : Runtime ν} {script : Block ν} {vars : ν}

/-- The result of a script that ends without error and without reject. -/
theorem route_deeds (hend : ∀ e, (script.run x { vars := vars }).2 ≠ .fail e)
    (hrej : .reject ∉ script.deeds x { vars := vars }) :
    ∃ res, route u x script vars = .ok res ∧
      res.mailboxes = dedupeFold u (boxNames (script.deeds x { vars := vars }) (stopped x script { vars := vars })) ∧
      res.redirects = dedupe (redirected (script.deeds x { vars := vars })) ∧
      (res.discard = true ↔ .discard ∈ script.deeds x { vars := vars }) ∧ res.reject = [] := by
  have hexec : ∃ d, execute x script { vars := vars } = .ok d := by
    unfold execute
    rcases hrun : script.run x { vars := vars } with ⟨d, flow⟩
    cases flow with
    | fail e => exact absurd (congrArg Prod.snd hrun) (hend e)
    | stop => exact ⟨d, rfl⟩
    | next =>
      dsimp only
      split <;> exact ⟨_, rfl⟩
  obtain ⟨d, hd⟩ := hexec
  have hdeeds : d.appliedActions.filterMap AppliedAction.deed =
      recorded (script.deeds x { vars := vars }) (stopped x script { vars := vars }) := execute_deeds hd
  obtain ⟨hm, hr, hdis, hj⟩ := foldl_add u d.appliedActions {}
  rw [hdeeds] at hm hr hdis hj
  generalize script.deeds x { vars := vars } = l at *
  generalize stopped x script { vars := vars } = stop at *
  have hmem : ∀ a : Deed, a.filed = none → a ≠ .keep → (a ∈ recorded l stop ↔ a ∈ l) := by
    intro a ha hne
    unfold recorded
    rw [mem_append]
    constructor
    · rintro (h | h)
      · exact (record_sublist [] l).subset h
      · split at h
        · exact absurd (mem_singleton.mp h) hne
        · cases h
    · exact fun h => .inl (mem_record ha h)
  have hred : (recorded l stop).filterMap Deed.redirected = redirected l := by
    have hkeep : (if implicit l stop then [Deed.keep] else []).filterMap Deed.redirected = [] := by
      split <;> rfl
    rw [recorded, filterMap_append, hkeep, append_nil]
    exact redirected_record [] l
  refine ⟨actionsToResult u d.appliedActions, by rw [route, hd]; rfl, ?_, ?_, ?_, ?_⟩
  · exact congrArg (dedupeFold u) hm
  · exact congrArg dedupe (hr.trans hred)
  · exact hdis.trans ((or_iff_right Bool.false_ne_true).trans (hmem .discard rfl (by decide)))
  · exact hj fun h => hrej ((hmem .reject rfl (by decide)).mp h)

end Result

/-- The copies of a visit, apart from replies and redirects. -/
theorem copiesIn_append (l l' : List Event) : copiesIn (l ++ l') = copiesIn l ++ copiesIn l' :=
  filterMap_append

theorem copiesIn_copies (u : Unicode) (sender stored : Str) (v : Visit) (mailboxes : List Str) (res : Result) :
    copiesIn (v.copies u sender stored mailboxes res) = mailboxes.map normalizeMailboxName := by
  unfold copiesIn Visit.copies
  rw [filterMap_map]
  exact congrFun filterMap_eq_map' mailboxes

theorem copiesIn_eq_nil {l : List Event} (h : ∀ e ∈ l, ∀ account mailbox copy, e ≠ .stored account mailbox copy) :
    copiesIn l = [] := by
  refine filterMap_eq_nil_iff.mpr fun e he => ?_
  cases e with
  | stored account mailbox copy => exact absurd rfl (h _ he account mailbox copy)
  | _ => rfl

/-- What a visit stores and sends when the queue takes everything. -/
theorem done_of_decision {p : Pipeline} {u : Unicode} {v : Visit} {sender stored : Str} {mailboxes : List Str}
    {res : Result} (hd : decision p v.ans = .deliver mailboxes res) (hhook : p.redirect = true)
    (hsent : ∀ i, (v.ans.redirect i).isOk = true) :
    copiesIn (v.done p u sender stored) = mailboxes.map normalizeMailboxName ∧
      ∀ a, .redirected sender a stored ∈ v.done p u sender stored ↔ a ∈ res.redirects := by
  have hred := (redirects_eq_iff (p := p) v.ans sender stored res).mpr fun q _ => ⟨hhook, hsent q.2⟩
  have hreply : ∀ e ∈ (res.vacation.map (sendVacation p u v.ans.vacation v.target sender stored)).getD [],
      isReply e = true := by
    cases res.vacation with
    | none => simp
    | some vac => exact isReply_sendVacation _ _ _ _ _
  simp only [Visit.done, hd, hred]
  refine ⟨?_, fun a => ?_⟩
  · rw [copiesIn_append, copiesIn_append, copiesIn_copies, copiesIn_eq_nil, copiesIn_eq_nil]
    · rfl
    · rintro e he account mailbox copy rfl
      cases hreply _ he
    · rintro e he account mailbox copy rfl
      obtain ⟨a, -, h⟩ := List.mem_map.mp he
      cases h
  · simp only [mem_append, List.mem_map]
    constructor
    · rintro ((⟨b, hb, he⟩ | h) | h)
      · cases he
        exact hb
      · cases hreply _ h
      · obtain ⟨n, -, he⟩ := List.mem_map.mp h
        cases he
    · exact fun h => .inl (.inl ⟨a, h, rfl⟩)

theorem count_eq_iff {s t : List Str} (hs : s.Nodup) :
    (∀ m, s.count m = if m ∈ t then 1 else 0) ↔ ∀ m, m ∈ s ↔ m ∈ t := by
  refine forall_congr' fun m => ?_
  rw [hs.count]
  split <;> split <;> simp [*]

/-- Nothing is asked for after a discard that stands alone. -/
theorem wanted_eq_nil_iff {l : List Deed} (h : .discard ∈ l) : wanted l = [] ↔ filed l = [] ∧ .keep ∉ l := by
  have hc : l.any Deed.cancels = true := List.any_eq_true.mpr ⟨.discard, h, rfl⟩
  rw [wanted, map_eq_nil_iff, names, append_eq_nil_iff, hc]
  refine and_congr Iff.rfl ?_
  by_cases hk : .keep ∈ l <;> simp [hk]

/-- ROUTED: when script, stores and queue do not fail, the message is stored once in each mailbox that the
    executed commands ask for and nowhere else, and goes to every address, exactly when the script keeps
    to the rules. -/
theorem routing_correct_iff {ν : Type} (u : Unicode) (x : Runtime ν) (script : Block ν) (vars : ν) (p : Pipeline)
    (v : Visit) (sender stored raw : Str) (hsieve : p.sieve = true) (hhook : p.redirect = true)
    (hscript : v.ans.script = .ok true) (hroute : v.ans.route = route u x script vars)
    (hend : ∀ e, (script.run x { vars := vars }).2 ≠ .fail e)
    (hrej : .reject ∉ script.deeds x { vars := vars })
    (hok : (deliverToTarget p u v.ans v.target sender v.targets stored raw).failed = false)
    (hsent : ∀ i, (v.ans.redirect i).isOk = true) :
    let l := script.deeds x { vars := vars }
    let events := (deliverToTarget p u v.ans v.target sender v.targets stored raw).events
    ((∀ m, (copiesIn events).count m = if m ∈ wanted l then 1 else 0) ∧
        ∀ a ∈ redirected l, .redirected sender a stored ∈ events) ↔
      Routable u l (stopped x script { vars := vars }) := by
  intro l events
  obtain ⟨res, hres, hm, hr, hdis, hnorej⟩ := route_deeds (u := u) hend hrej
  have hev : events = v.done p u sender stored := events_deliverToTarget hok
  rw [hev, Routable]
  split
  case isTrue hin =>
    have hd : decision p v.ans = .discard := by
      simp only [decision, hsieve, if_true, hscript, hroute, hres, hdis.mpr hin]
    have hdone : v.done p u sender stored = [] := by simp only [Visit.done, hd]
    rw [hdone, show copiesIn [] = [] from rfl, count_eq_iff nodup_nil]
    have hnone : (∀ m, m ∈ ([] : List Str) ↔ m ∈ wanted l) ↔ filed l = [] ∧ .keep ∉ l := by
      rw [← wanted_eq_nil_iff hin, eq_nil_iff_forall_not_mem]
      exact forall_congr' fun m => ⟨fun h hw => (by cases h.mpr hw),
        fun h => ⟨by simp, fun hw => absurd hw h⟩⟩
    have hsend : (∀ a ∈ redirected l, Event.redirected sender a stored ∈ ([] : List Event)) ↔ redirected l = [] := by
      rw [eq_nil_iff_forall_not_mem]
      exact forall_congr' fun a => ⟨fun h ha => (by cases h ha), fun h ha => absurd ha h⟩
    rw [hnone, hsend]
    tauto
  case isFalse hout =>
    have hd : decision p v.ans = .deliver (boxes u l (stopped x script { vars := vars })) res := by
      have hfalse : res.discard = false := by
        cases hb : res.discard with
        | false => rfl
        | true => exact absurd (hdis.mp hb) hout
      simp only [decision, hsieve, if_true, hscript, hroute, hres, hfalse, hnorej, hm]
      simp [boxes, l]
    obtain ⟨hcopies, hsend⟩ := @done_of_decision p u v sender stored _ res hd hhook hsent
    rw [hcopies, count_eq_iff nodup_stored]
    have hred : (∀ a ∈ redirected l, Event.redirected sender a stored ∈ v.done p u sender stored) ↔
        [] ∉ redirected l := by
      simp only [hsend, hr, mem_dedupe]
      exact ⟨fun h hin => (h [] hin).2 rfl, fun h a ha => ⟨ha, fun he => h (he ▸ ha)⟩⟩
    rw [hred]
    exact ⟨fun ⟨hst, hno⟩ => ordinary_of_stored hst hno, fun ho => ⟨ho.stored_iff, ho.named.2⟩⟩

/-! ### Scripts that go as they should, and one that does not -/

/-- A run without variables. -/
def bare : Runtime Unit := { expandVars := fun _ s => s }

/-- A visit whose script is the given one. -/
def visitOf (script : Block Unit) : Visit where
  target := ascii "a@x"
  targets := [ascii "a@x"]
  ans := { script := .ok true, route := route asciiOnly bare script () }

/-- A copy in `A`, a redirect with `:copy` and the implicit keep. -/
def copying : Block Unit :=
  .cmd (.fileInto (ascii "A") none true false) (.cmd (.redirect (ascii "b@y") true) .done)

theorem routing_correct_copying :
    let events := (deliverToTarget {} asciiOnly (visitOf copying).ans (ascii "a@x") (ascii "s@y") [ascii "a@x"]
      (ascii "m") (ascii "m")).events
    wanted (copying.deeds bare { vars := () }) = [ascii "A", inbox] ∧
      (∀ m, (copiesIn events).count m = if m ∈ wanted (copying.deeds bare { vars := () }) then 1 else 0) := by
  refine ⟨by decide +kernel, ?_⟩
  refine ((routing_correct_iff asciiOnly bare copying () {} (visitOf copying) (ascii "s@y") (ascii "m")
    (ascii "m") rfl rfl
    rfl rfl (fun e h => by cases h) (by decide +kernel) (by decide +kernel) fun i => rfl).mpr ?_).1
  decide +kernel

/-- `fileinto :copy "A"; stop`: nothing cancels the implicit keep, but the inbox gets no copy. -/
theorem stop_loses_implicit_keep :
    let script : Block Unit := .cmd (.fileInto (ascii "A") none true false) (.cmd .stop .done)
    let events := (deliverToTarget {} asciiOnly (visitOf script).ans (ascii "a@x") (ascii "s@y") [ascii "a@x"]
      (ascii "m") (ascii "m")).events
    wanted (script.deeds bare { vars := () }) = [ascii "A", inbox] ∧ copiesIn events = [ascii "A"] := by
  decide +kernel

end Mailezine.Delivery
