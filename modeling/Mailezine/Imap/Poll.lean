import Mailezine.Imap.Session
import Mailezine.Schemes.Numbered

/-! What a client makes of the responses of one `Poll`.

    The client keeps one entry for each message it was told of: its UID and flags once it knows
    them. Poll writes EXISTS only when the listing is longer than the snapshot, and before the
    expunges; when messages were both added and removed the removals eat into the announced count.
    `poll_synced_iff` says exactly when the client ends in step with the new snapshot. -/

namespace Mailezine.Imap
open Mailstore Schemes List

/-- What the client knows of the mailbox: UID and flags of every entry, `none` for an entry it only
    knows to exist. -/
abbrev Client := List (Option (Nat × List Str))

/-- The client's entries for messages it knows. -/
def Client.of (msgs : List Message) : Client := msgs.map fun m => some (m.uid, m.flags)

/-- How one untagged response changes the client's entries. -/
def Client.apply (c : Client) : Response → Client
  | .numMessages n => c.take n ++ List.replicate (n - c.length) none
  | .messageFlags seq _ flags => c.modify (seq - 1) (·.map fun e => (e.1, flags))
  | .expunge seq => c.eraseIdx (seq - 1)
  | .vanished uids => c.filter fun
    | some e => !uids.contains e.1
    | none => true

/-- The client is in step with a listing: equally many entries, and every message it knows has the
    UID and the flags of the entry with its number. -/
def Client.Synced (client : Client) (msgs : List Message) : Prop :=
  client.length = msgs.length ∧ ∀ (i uid : Nat) (flags : List Str), client[i]? = some (some (uid, flags)) →
    ∃ m, msgs[i]? = some m ∧ m.uid = uid ∧ ∀ f, f ∈ flags ↔ f ∈ m.flags

/-- A listing in strictly increasing UID order. -/
def Increasing (msgs : List Message) : Prop := msgs.Pairwise fun a b => a.uid < b.uid

instance (msgs : List Message) : Decidable (Increasing msgs) :=
  inferInstanceAs (Decidable (List.Pairwise _ _))

/-- The message of this UID is in the listing. -/
def listed (msgs : List Message) (m : Message) : Bool := (byUID msgs m.uid).isSome

/-! ### The maps filled from a listing -/

variable {msgs snap current : List Message} {uid : Nat} {m : Message}

theorem Increasing.uids (h : Increasing msgs) : (msgs.map (·.uid)).Pairwise (· < ·) :=
  pairwise_map.mpr h

theorem Increasing.uidKeys (h : Increasing msgs) : uidKeys msgs = msgs.map (·.uid) :=
  h.uids.nodup.dedup

theorem Increasing.filter (h : Increasing msgs) (p : Message → Bool) : Increasing (msgs.filter p) :=
  Pairwise.filter p h

theorem Increasing.eq_of_uid (h : Increasing msgs) {a b : Message}
    (ha : a ∈ msgs) (hb : b ∈ msgs) (hab : a.uid = b.uid) : a = b :=
  inj_on_of_nodup_map h.uids.nodup ha hb hab

theorem byUID_isSome : (byUID msgs uid).isSome = true ↔ uid ∈ msgs.map (·.uid) := by
  simp [byUID, find?_isSome]

theorem mem_of_byUID (h : byUID msgs uid = some m) : m ∈ msgs ∧ m.uid = uid := by
  refine ⟨?_, by simpa using find?_some h⟩
  exact mem_reverse.mp (mem_of_find?_eq_some h)

theorem Increasing.byUID_self (h : Increasing msgs) (hm : m ∈ msgs) : byUID msgs m.uid = some m := by
  have hs : (byUID msgs m.uid).isSome = true := byUID_isSome.mpr (List.mem_map_of_mem hm)
  obtain ⟨m', hm'⟩ := Option.isSome_iff_exists.mp hs
  obtain ⟨hmem, huid⟩ := mem_of_byUID hm'
  rw [hm', h.eq_of_uid hmem hm huid]

/-- The sequence number of a UID is a position where the UID stands. -/
theorem getElem?_of_seqOf {k : Nat} (h : seqOf msgs uid = some k) :
    1 ≤ k ∧ ∃ m, msgs[k - 1]? = some m ∧ m.uid = uid := by
  obtain ⟨⟨m, k'⟩, hf, rfl⟩ := Option.map_eq_some_iff.mp h
  have hmem := mem_reverse.mp (mem_of_find?_eq_some hf)
  have huid : m.uid = uid := by simpa using find?_some hf
  obtain ⟨hle, hget⟩ := mem_zipIdx_iff_le_and_getElem?_sub.mp hmem
  exact ⟨hle, m, hget, huid⟩

theorem Increasing.seqOf_getElem (h : Increasing msgs) {i : Nat}
    (hi : msgs[i]? = some m) : seqOf msgs m.uid = some (i + 1) := by
  have hs : (seqOf msgs m.uid).isSome = true := by
    simp only [seqOf, Option.isSome_map, find?_isSome]
    refine ⟨(m, i + 1), ?_, by simp⟩
    rw [mem_reverse, mem_zipIdx_iff_le_and_getElem?_sub]
    exact ⟨by omega, by simpa using hi⟩
  obtain ⟨k, hk⟩ := Option.isSome_iff_exists.mp hs
  obtain ⟨hk1, m', hget, huid⟩ := getElem?_of_seqOf hk
  obtain ⟨hlt, hm'⟩ := List.getElem?_eq_some_iff.mp hget
  obtain ⟨hlt', hm⟩ := List.getElem?_eq_some_iff.mp hi
  have hlen : k - 1 < (msgs.map Message.uid).length := by simpa using hlt
  have hlen' : i < (msgs.map Message.uid).length := by simpa using hlt'
  have hinj : (msgs.map Message.uid)[k - 1] = (msgs.map Message.uid)[i] ↔ k - 1 = i :=
    h.uids.nodup.getElem_inj_iff
  have : k - 1 = i := hinj.mp (by simp [hm, hm', huid])
  rw [hk]; congr 1; omega

/-- The sequence numbers of the entries with a property are their positions. -/
theorem Increasing.map_seqIn (h : Increasing msgs) (p : Message → Bool) :
    ((msgs.filter p).map fun m => seqIn msgs m.uid) = positions p 1 msgs := by
  suffices hgen : ∀ (l : List Message) (n : Nat), (∀ i m, l[i]? = some m →
      seqIn msgs m.uid = n + i) → ((l.filter p).map fun m => seqIn msgs m.uid) = positions p n l by
    refine hgen msgs 1 fun i m hi => ?_
    rw [seqIn, h.seqOf_getElem hi, Option.getD_some, Nat.add_comm]
  intro l
  induction l with
  | nil => intro n _; rfl
  | cons a l ih =>
    intro n hn
    have ha : seqIn msgs a.uid = n := hn 0 a rfl
    have hl := ih (n + 1) fun i m hi => by rw [hn (i + 1) m (by simpa using hi)]; omega
    unfold positions
    cases hp : p a with
    | true => simp [hp, ha, hl]
    | false => simp [hp, hl]

/-! ### The responses, one kind after the other -/

theorem apply_pollExists (snap current : List Message) :
    (pollExists snap current).foldl Client.apply (Client.of snap) =
      Client.of snap ++ List.replicate (current.length - snap.length) none := by
  unfold pollExists
  split
  · rename_i h
    have hlen : (Client.of snap).length = snap.length := by simp [Client.of]
    simp only [foldl_cons, foldl_nil, Client.apply, hlen]
    rw [take_of_length_le (by omega)]
  · rename_i h
    simp [show current.length - snap.length = 0 by omega]

/-- Setting the flags at a sequence number sets them for its UID. -/
theorem modify_of_seqOf (h : Increasing snap) {k : Nat}
    (hk : seqOf snap uid = some k) (g : Message → Option (Nat × List Str)) (tail : Client)
    (f : Option (Nat × List Str) → Option (Nat × List Str)) : (snap.map g ++ tail).modify (k - 1) f =
      snap.map (fun a => if a.uid = uid then f (g a) else g a) ++ tail := by
  obtain ⟨hk1, m, hget, huid⟩ := getElem?_of_seqOf hk
  obtain ⟨hlt, hm⟩ := List.getElem?_eq_some_iff.mp hget
  refine ext_getElem? fun i => ?_
  rw [getElem?_modify]
  rcases Nat.lt_or_ge i snap.length with hi | hi
  · rw [getElem?_append_left (by simpa using hi), getElem?_append_left (by simpa using hi),
      getElem?_map, getElem?_map, getElem?_eq_getElem hi]
    have hiff : snap[i].uid = uid ↔ k - 1 = i := by
      constructor
      · intro hu
        have := h.seqOf_getElem (getElem?_eq_getElem hi)
        rw [hu, hk] at this
        simp only [Option.some.injEq] at this
        omega
      · rintro rfl; rw [hm, huid]
    by_cases hki : k - 1 = i
    · simp [hki, hiff.mpr hki]
    · simp [hki, mt hiff.mp hki]
  · rw [getElem?_append_right (by simpa using hi), getElem?_append_right (by simpa using hi)]
    simp [show k - 1 ≠ i by omega]

/-- The flags a client has for a snapshot entry after the FLAGS updates for `uids`. -/
def flagsAfter (current : List Message) (uids : List Nat) (a : Message) : List Str :=
  match byUID current a.uid with
  | some m => if a.uid ∈ uids ∧ sameFlags a m = false then m.flags else a.flags
  | none => a.flags

theorem apply_pollFlag {snap current : List Message} (h : Increasing snap) (tail : Client) :
    ∀ (todo done : List Nat), (todo.filterMap (pollFlag snap current)).foldl Client.apply
        (snap.map (fun a => some (a.uid, flagsAfter current done a)) ++ tail) =
      snap.map (fun a => some (a.uid, flagsAfter current (done ++ todo) a)) ++ tail
  | [], done => by simp
  | uid :: todo, done => by
    have ih := @apply_pollFlag snap current h tail todo (done ++ [uid])
    rw [append_assoc, singleton_append] at ih
    rw [← ih, filterMap_cons]
    -- the entries after this UID's update are those with the UID moved to `done`
    have hskip : (∀ a ∈ snap, a.uid = uid → ∀ m, byUID current uid = some m → sameFlags a m = true) →
        ∀ a ∈ snap, flagsAfter current (done ++ [uid]) a = flagsAfter current done a := by
      intro hs a ha
      unfold flagsAfter
      cases hb : byUID current a.uid with
      | none => rfl
      | some m =>
        by_cases hu : a.uid = uid
        · simp [hs a ha hu m (hu ▸ hb)]
        · simp [hu]
    have hsame : ∀ hs : (∀ a ∈ snap, flagsAfter current (done ++ [uid]) a = flagsAfter current done a),
        snap.map (fun a => some (a.uid, flagsAfter current done a)) =
          snap.map (fun a => some (a.uid, flagsAfter current (done ++ [uid]) a)) :=
      fun hs => map_congr_left fun a ha => by rw [hs a ha]
    cases hp : pollFlag snap current uid with
    | none =>
      rw [hsame (hskip ?_)]
      intro a ha hu m hm
      have hold : byUID snap uid = some a := hu ▸ h.byUID_self ha
      obtain ⟨i, hi⟩ := getElem?_of_mem ha
      have hseq : seqOf snap uid = some (i + 1) := hu ▸ h.seqOf_getElem hi
      by_contra hne
      simp [pollFlag, hold, hm, hseq, hne] at hp
    | some r =>
      unfold pollFlag at hp
      split at hp
      · rename_i o m ho hm
        split_ifs at hp with hsf
        obtain ⟨k, hk, rfl⟩ := Option.map_eq_some_iff.mp hp
        simp only [foldl_cons, Client.apply]
        rw [modify_of_seqOf h hk]
        congr 2
        refine map_congr_left fun a ha => ?_
        by_cases hu : a.uid = uid
        · obtain ⟨homem, houid⟩ := mem_of_byUID ho
          obtain rfl : a = o := h.eq_of_uid ha homem (hu.trans houid.symm)
          have hcur : byUID current a.uid = some m := hu ▸ hm
          simp [hu, flagsAfter, hm, hsf]
        · have : flagsAfter current (done ++ [uid]) a = flagsAfter current done a := by
            simp [flagsAfter, hu]
          rw [if_neg hu, this]
      · cases hp

/-- The removed UIDs are those of the snapshot entries that the listing lacks, in some order. -/
theorem pollRemoved_perm (order : MapOrder) (h : Increasing snap) (current : List Message) :
    (pollRemoved order snap current).Perm ((snap.filter (!listed current ·)).map (·.uid)) := by
  refine ((order.perm 1 (uidKeys snap)).filter _).trans (Perm.of_eq ?_)
  rw [h.uidKeys, List.filter_map]
  congr 2
  funext m
  simp [listed, Function.comp]

/-- The expunges leave the entries of the snapshot that are still listed. -/
theorem apply_expunges (order : MapOrder) (qresync : Bool) (h : Increasing snap)
    (current : List Message) (flags : Message → List Str) (tail : Nat) :
    (expungeResponses qresync snap (pollRemoved order snap current)).foldl Client.apply
        (snap.map (fun a => some (a.uid, flags a)) ++ List.replicate tail none) =
      (snap.filter (listed current)).map (fun a => some (a.uid, flags a)) ++ List.replicate tail none := by
  have hperm := pollRemoved_perm order h current
  unfold expungeResponses
  cases qresync with
  | true =>
    have hfilter : ∀ uids : List Nat, (∀ u, u ∈ uids ↔ u ∈ pollRemoved order snap current) →
        Client.apply (snap.map (fun a => some (a.uid, flags a)) ++ List.replicate tail none)
          (.vanished uids) =
        (snap.filter (listed current)).map (fun a => some (a.uid, flags a)) ++
          List.replicate tail none := by
      intro uids huids
      simp only [Client.apply, filter_append, List.filter_map]
      congr 1
      · congr 1
        refine filter_congr fun a ha => ?_
        have hmem : a.uid ∈ uids ↔ ¬ listed current a = true := by
          rw [huids, hperm.mem_iff, List.mem_map]
          constructor
          · rintro ⟨b, hb, hu⟩
            obtain ⟨hbmem, hbl⟩ := mem_filter.mp hb
            rw [← h.eq_of_uid hbmem ha hu]
            simpa using hbl
          · intro hl
            exact ⟨a, mem_filter.mpr ⟨ha, by simpa using hl⟩, rfl⟩
        by_cases hl : listed current a = true
        · simp [hl, mt hmem.mp (not_not.mpr hl)]
        · simp [hl, hmem.mpr hl]
      · rw [filter_eq_self]
        intro e he
        rw [(mem_replicate.mp he).2]
    simp only [if_true]
    split
    · rename_i hnil
      have hall : ∀ a ∈ snap, listed current a = true := by
        intro a ha
        by_contra hl
        have : a.uid ∈ pollRemoved order snap current :=
          hperm.mem_iff.mpr (List.mem_map_of_mem (mem_filter.mpr ⟨ha, by simpa using hl⟩))
        rw [hnil] at this
        cases this
      rw [filter_eq_self.mpr hall]; rfl
    · simp only [foldl_cons, foldl_nil]
      exact hfilter _ fun u => by simp
  | false =>
    simp only [Bool.false_eq_true, if_false]
    -- descending sequence numbers are the positions of the removed entries, reversed
    have hseqs : ((pollRemoved order snap current).insertionSort
        fun a b => seqIn snap a ≥ seqIn snap b).map (seqIn snap) =
        (positions (!listed current ·) 1 snap).reverse := by
      have hp : (((pollRemoved order snap current).insertionSort
          fun a b => seqIn snap a ≥ seqIn snap b).map (seqIn snap)).Perm
          (positions (!listed current ·) 1 snap).reverse := by
        refine ((perm_insertionSort _ _).map _).trans ((hperm.map _).trans ?_)
        rw [List.map_map, ← h.map_seqIn]
        exact (reverse_perm _).symm
      refine @Perm.eq_of_pairwise Nat (· ≥ ·) _ _ (fun a b _ _ hab hba => le_antisymm hba hab) ?_ ?_ hp
      · rw [pairwise_map]
        exact pairwise_insertionSort (r := fun a b => seqIn snap a ≥ seqIn snap b) _
      · rw [pairwise_reverse]
        exact (positions_pairwise _ _ _).imp Nat.le_of_lt
    have hfold : ∀ (uids : List Nat) (c : Client),
        (uids.map fun uid => Response.expunge (seqIn snap uid)).foldl Client.apply c =
          (uids.map (seqIn snap)).foldl (fun c k => c.eraseIdx (k - 1)) c := by
      intro uids
      induction uids with
      | nil => intro c; rfl
      | cons u us ih => intro c; exact ih _
    rw [hfold, hseqs, foldl_reverse]
    exact foldr_eraseIdx_positions (listed current) (fun a => some (a.uid, flags a))
      (List.replicate tail none) snap []

/-- The client after a poll that did not stop at the version check. -/
theorem client_after_poll (order : MapOrder) (qresync : Bool) {s : Session} {ver : Option Nat}
    (hsel : s.mbox ≠ []) (hver : s.upToDate ver = false)
    (hsnap : Increasing s.snap) (hcur : Increasing current) :
    (s.poll order qresync true ver current).2.foldl Client.apply (Client.of s.snap) =
      (s.snap.filter (listed current)).map
        (fun a => some (a.uid, flagsAfter current (current.map (·.uid)) a)) ++
      List.replicate (current.length - s.snap.length) none := by
  have hflags : ∀ a, flagsAfter current ([] ++ order.run 0 (uidKeys current)) a =
      flagsAfter current (current.map (·.uid)) a := by
    intro a
    have hmem : a.uid ∈ order.run 0 (uidKeys current) ↔ a.uid ∈ current.map (·.uid) := by
      rw [(order.perm 0 _).mem_iff, hcur.uidKeys]
    simp only [flagsAfter, nil_append, hmem]
  have hstart : Client.of s.snap = s.snap.map fun a => some (a.uid, flagsAfter current [] a) :=
    map_congr_left fun a _ => by
      unfold flagsAfter
      cases byUID current a.uid <;> simp
  simp only [Session.poll, hsel, hver, Bool.false_eq_true, or_self, if_false, if_true,
    foldl_append]
  rw [apply_pollExists, hstart, apply_pollFlag hsnap, apply_expunges order qresync hsnap]
  simp only [hflags]

/-! ### In step or not -/

/-- The messages in both listings stand in the same order. -/
theorem kept_uids (hs : Increasing snap) (hc : Increasing current) :
    (snap.filter (listed current)).map (·.uid) = (current.filter (listed snap)).map (·.uid) := by
  refine (hs.filter _).uids.eq_of_mem_iff (hc.filter _).uids fun n => ?_
  simp only [List.mem_map, mem_filter, listed, byUID_isSome]
  constructor
  · rintro ⟨a, ⟨ha, b, hb, hab⟩, rfl⟩
    exact ⟨b, ⟨hb, a, ha, hab.symm⟩, hab⟩
  · rintro ⟨a, ⟨ha, b, hb, hab⟩, rfl⟩
    exact ⟨b, ⟨hb, a, ha, hab.symm⟩, hab⟩

/-- New messages have larger UIDs than the snapshot's, so they stand at the end. -/
theorem current_split (hc : Increasing current)
    (hfresh : ∀ m ∈ current, listed snap m = false → ∀ o ∈ snap, o.uid < m.uid) :
    current.filter (listed snap) ++ current.filter (!listed snap ·) = current := by
  refine filter_append_filter_not (hc.imp_of_mem ?_)
  intro a b ha hb hab hlb
  by_contra hla
  obtain ⟨o, ho, hou⟩ := List.mem_map.mp (byUID_isSome.mp hlb)
  have := hfresh a ha (by simpa using hla) o ho
  omega

/-- A kept message stands at its place among the kept ones in the new listing too. -/
theorem getElem?_of_kept (hs : Increasing snap) (hc : Increasing current)
    (hfresh : ∀ m ∈ current, listed snap m = false → ∀ o ∈ snap, o.uid < m.uid) {i : Nat}
    {a : Message} (hi : (snap.filter (listed current))[i]? = some a) :
    ∃ m, current[i]? = some m ∧ m.uid = a.uid := by
  have hmap : ((current.filter (listed snap)).map (·.uid))[i]? = some a.uid := by
    rw [← kept_uids hs hc, getElem?_map, hi]; rfl
  obtain ⟨m, hm, hu⟩ := Option.map_eq_some_iff.mp (getElem?_map ▸ hmap)
  refine ⟨m, ?_, hu⟩
  have hlt := (List.getElem?_eq_some_iff.mp hm).1
  rw [← current_split hc hfresh, getElem?_append_left hlt, hm]

/-- The announced count fits exactly when messages were not both added and removed. -/
theorem count_fits_iff (hs : Increasing snap) (hc : Increasing current)
    (hfresh : ∀ m ∈ current, listed snap m = false → ∀ o ∈ snap, o.uid < m.uid) :
    (snap.filter (listed current)).length + (current.length - snap.length) = current.length ↔
      (∀ m ∈ current, listed snap m = true) ∨ ∀ o ∈ snap, listed current o = true := by
  have hkept : (snap.filter (listed current)).length = (current.filter (listed snap)).length := by
    simpa using congrArg List.length (kept_uids hs hc)
  have hcur := congrArg List.length (current_split hc hfresh)
  rw [length_append] at hcur
  have hadded : (current.filter (!listed snap ·)).length = 0 ↔ ∀ m ∈ current, listed snap m = true := by
    rw [length_eq_zero_iff, filter_eq_nil_iff]; simp
  have hremoved : (snap.filter (listed current)).length = snap.length ↔
      ∀ o ∈ snap, listed current o = true := by
    rw [length_filter_eq_length_iff]
  have hle : (snap.filter (listed current)).length ≤ snap.length := length_filter_le ..
  rw [← hadded, ← hremoved]
  omega

theorem flagsAfter_eq (hc : Increasing current) {a : Message} (hm : m ∈ current) (hu : m.uid = a.uid) :
    flagsAfter current (current.map (·.uid)) a = if sameFlags a m then a.flags else m.flags := by
  have hmem : a.uid ∈ current.map (·.uid) := hu ▸ List.mem_map_of_mem hm
  have hby : byUID current a.uid = some m := hu ▸ hc.byUID_self hm
  unfold flagsAfter
  rw [hby]
  cases hsf : sameFlags a m <;> simp [hmem, hsf]

/-- SYNC: a poll leaves the client in step with the session's new snapshot exactly when it stopped
    at its version check, or when messages were not both added and removed and no change of flags
    went unnoticed (`sameFlags` holds of two flag lists that are different sets only if the old
    one repeats a flag). -/
theorem poll_synced_iff (order : MapOrder) (qresync : Bool) (s : Session) (ver : Option Nat)
    (current : List Message) (hsel : s.mbox ≠ []) (hsnap : Increasing s.snap) (hcur : Increasing current)
    (hfresh : ∀ m ∈ current, listed s.snap m = false → ∀ o ∈ s.snap, o.uid < m.uid) :
    ((s.poll order qresync true ver current).2.foldl Client.apply (Client.of s.snap)).Synced
        (s.poll order qresync true ver current).1.snap ↔ s.upToDate ver = true ∨
      ((∀ m ∈ current, listed s.snap m = true) ∨ (∀ o ∈ s.snap, listed current o = true)) ∧
      ∀ o ∈ s.snap, ∀ m ∈ current, o.uid = m.uid → sameFlags o m = true → ∀ f, f ∈ o.flags ↔ f ∈ m.flags := by
  cases hver : s.upToDate ver with
  | true =>
    simp only [true_or, iff_true]
    simp only [Session.poll, hver, or_true, if_true, foldl_nil]
    refine ⟨by simp [Client.of], fun i uid flags hi => ?_⟩
    obtain ⟨m, hm, he⟩ := Option.map_eq_some_iff.mp (getElem?_map ▸ hi)
    simp only [Option.some.injEq, Prod.mk.injEq] at he
    exact ⟨m, hm, he.1, fun f => by rw [he.2]⟩
  | false =>
    rw [client_after_poll order qresync hsel hver hsnap hcur]
    have hnew : (s.poll order qresync true ver current).1.snap = current := by
      simp [Session.poll, hsel, hver, Session.adopt]
    rw [hnew]
    simp only [Bool.false_eq_true, false_or]
    unfold Client.Synced
    rw [length_append, length_map, length_replicate,
      count_fits_iff hsnap hcur hfresh]
    refine and_congr_right fun _ => ⟨fun h o ho m hm hom hsf => ?_, fun h i uid flags hi => ?_⟩
    · -- an entry in both listings has its number among the kept ones
      have hkept : o ∈ s.snap.filter (listed current) :=
        mem_filter.mpr ⟨ho, byUID_isSome.mpr (hom ▸ List.mem_map_of_mem hm)⟩
      obtain ⟨i, hi⟩ := getElem?_of_mem hkept
      have hlt := (List.getElem?_eq_some_iff.mp hi).1
      obtain ⟨m', hm', hu', hf⟩ := h i o.uid (flagsAfter current (current.map (·.uid)) o) (by
        rw [getElem?_append_left (by simpa using hlt), getElem?_map, hi]; rfl)
      obtain rfl : m' = m := hcur.eq_of_uid (mem_of_getElem? hm') hm (hu'.trans hom)
      simpa [flagsAfter_eq hcur hm hom.symm, hsf] using hf
    · rcases Nat.lt_or_ge i (s.snap.filter (listed current)).length with hlt | hge
      · rw [getElem?_append_left (by simpa using hlt), getElem?_map] at hi
        obtain ⟨a, ha, he⟩ := Option.map_eq_some_iff.mp hi
        simp only [Option.some.injEq, Prod.mk.injEq] at he
        obtain ⟨rfl, rfl⟩ := he
        obtain ⟨m, hm, hu⟩ := getElem?_of_kept hsnap hcur hfresh ha
        refine ⟨m, hm, hu, fun f => ?_⟩
        have hmem := mem_of_getElem? hm
        rw [flagsAfter_eq hcur hmem hu]
        cases hsf : sameFlags a m with
        | false => simp
        | true =>
          simpa using h a (mem_filter.mp (mem_of_getElem? ha)).1 m hmem hu.symm hsf f
      · -- entries the client only knows to exist
        rw [getElem?_append_right (by simpa using hge)] at hi
        have := mem_of_getElem? hi
        simp [mem_replicate] at this

/-- A session with one message, whose message is replaced by a newer one. -/
def replacedSession : Session := { user := ascii "alice", mbox := ascii "INBOX", snap := [{ uid := 1 }] }

theorem poll_synced_iff_grown :
    let current : List Message := [{ uid := 1, flags := [flagSeen] }, { uid := 2 }]
    ((replacedSession.poll .inserted false true none current).2.foldl Client.apply
      (Client.of replacedSession.snap)).Synced current :=
  (poll_synced_iff .inserted false replacedSession none _ (by decide) (by decide) (by decide)
    (by decide)).mpr (Or.inr ⟨Or.inr (by decide), by simp [replacedSession, sameFlags, flagSetEqual]⟩)

theorem poll_replaced_not_synced :
    ¬ ((replacedSession.poll .inserted false true none [{ uid := 2 }]).2.foldl Client.apply
      (Client.of replacedSession.snap)).Synced
      (replacedSession.poll .inserted false true none [{ uid := 2 }]).1.snap := by
  intro h
  exact absurd h.1 (by decide)

end Mailezine.Imap
