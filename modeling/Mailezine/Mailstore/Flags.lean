import Mailezine.Mailstore.Complete
import Mailezine.Mailstore.Qresync

/-! The flags of a message, from the call that sets them to the call that reads them.

    Flags are parted into system flags and keywords, each part is stored as one text with commas between,
    and a reader splits the texts again. An atom of IMAP may have a comma in it, so what comes back is
    what was given exactly when no flag has one. `Copy` and `Move` take what they read, and lose nothing. -/

namespace Mailezine.Mailstore
open Gostd Schemes Store List

/-! ### The flags of IMAP -/

/-- A character of an atom. -/
def isAtomChar (b : UInt8) : Bool := within 0x21 0x7e b && b ∉ ascii "()\x7b%*\"\\]"

/-- A keyword is an atom. -/
def IsKeyword (s : Str) : Prop := s ≠ [] ∧ ∀ b ∈ s, isAtomChar b = true

/-- A flag is a keyword, or a backslash and an atom. -/
def IsFlag (s : Str) : Prop := IsKeyword s ∨ ∃ atom, s = 0x5c :: atom ∧ IsKeyword atom

theorem IsFlag.ne_nil {s : Str} (h : IsFlag s) : s ≠ [] := by
  rcases h with ⟨h, -⟩ | ⟨atom, rfl, -⟩
  · exact h
  · exact cons_ne_nil _ _

/-! ### Lists in one text -/

theorem comma_not_mem_splitOn : ∀ (s : Str), ∀ part ∈ s.splitOn 0x2c, (0x2c : UInt8) ∉ part
  | [] => by simp
  | b :: r => by
    have ih := comma_not_mem_splitOn r
    unfold List.splitOn at ih ⊢
    rw [splitOnP_cons_eq_if_modifyHead]
    split
    · simpa using ih
    · next hb =>
      intro part hpart
      rcases hr : List.splitOnP (· == (0x2c : UInt8)) r with _ | ⟨p, ps⟩
      · rw [hr] at hpart
        simp at hpart
      · rw [hr] at hpart ih
        rcases mem_cons.mp hpart with rfl | hps
        · have hne : b ≠ 0x2c := by simpa using hb
          simpa [hne.symm] using ih p (by simp)
        · exact ih part (by simp [hps])

theorem joinCSV_eq_nil {parts : List Str} (h : ∀ x ∈ parts, x ≠ []) (hnil : joinCSV parts = []) : parts = [] := by
  rcases parts with _ | ⟨x, _ | ⟨y, rest⟩⟩
  · rfl
  · exact absurd (by simpa [joinCSV, List.intercalate] using hnil) (h x (by simp))
  · simp [joinCSV, List.intercalate] at hnil

theorem comma_not_mem_splitCSV {s part : Str} (h : part ∈ splitCSV s) : (0x2c : UInt8) ∉ part := by
  unfold splitCSV at h
  split at h
  · exact absurd h not_mem_nil
  · exact comma_not_mem_splitOn s part h

/-- A list of texts survives exactly when no text has a comma in it. -/
theorem splitCSV_joinCSV_iff {parts : List Str} (h : ∀ x ∈ parts, x ≠ []) :
    splitCSV (joinCSV parts) = parts ↔ ∀ x ∈ parts, (0x2c : UInt8) ∉ x := by
  constructor
  · intro heq x hx
    rw [← heq] at hx
    exact comma_not_mem_splitCSV hx
  · intro hplain
    by_cases hnil : joinCSV parts = []
    · rw [hnil, joinCSV_eq_nil h hnil]
      rfl
    · have hne : parts ≠ [] := fun he => hnil (by rw [he]; rfl)
      rw [splitCSV, if_neg hnil, joinCSV, splitOn_intercalate 0x2c hplain hne]

/-- What was read from a text is stored as that text. -/
theorem joinCSV_splitCSV (s : Str) : joinCSV (splitCSV s) = s := by
  unfold splitCSV joinCSV
  split
  · next h => rw [h]; rfl
  · exact intercalate_splitOn 0x2c

theorem splitFlags_of_system {flags : List Str} (h : ∀ f ∈ flags, isSystem f = true) :
    splitFlags flags = (flags, []) := by
  have hnone : flags.filter (!isSystem ·) = [] := filter_eq_nil_iff.mpr fun f hf => by simp [h f hf]
  rw [splitFlags, filter_eq_self.mpr h, hnone]

/-! ### Reading a message back -/

/-- A message is read back with these system flags, and with these keywords behind them. -/
def ReadsBack (n : Node) (account mailbox : Str) (uid : Nat) (flags : List Str × List Str) : Prop :=
  ∃ m, ((messageByUID account mailbox uid).exec n).2 = .ok m ∧ m.flags = flags.1 ++ flags.2 ∧ m.keywords = flags.2

/-- There is a message with this UID. -/
def HasMessage (n : Node) (account mailbox : Str) (uid : Nat) : Prop :=
  ∃ m, ((messageByUID account mailbox uid).exec n).2 = .ok m

/-- A document keeps these flags. -/
def KeepsFlags (d : EmailDoc) (flags : List Str × List Str) : Prop :=
  splitCSV (d.flags.getD []) = flags.1 ∧ splitCSV (d.keywords.getD []) = flags.2

section
variable {cfg : Config} {n n' : Node} {account mailbox : Str} {a mb uid id : Nat} {d : EmailDoc}
  {flags : List Str × List Str}

theorem exec_messageByUID (h : n.Wf) (hl : located n account mailbox = some (a, mb)) (uid : Nat) :
    ((messageByUID account mailbox uid).exec n).2 = found (((n.kv.account a).row mb uid).bind fun id =>
      ((n.kv.account a).emails[id]?).map fun d => messageFromEmail (emailFromFields id d)) := by
  unfold messageByUID
  rw [exec_resolve_bind h hl]
  simp only [Prog.exec_bind_pure, exec_emailByIndexUID]
  cases (n.kv.account a).row mb uid with
  | none => rfl
  | some id => cases hd : (n.kv.account a).emails[id]? <;> simp [hd] <;> rfl

theorem readsBack_iff (h : n.Wf) (hl : located n account mailbox = some (a, mb))
    (hr : (n.kv.account a).row mb uid = some id) (hd : (n.kv.account a).emails[id]? = some d) :
    ReadsBack n account mailbox uid flags ↔ KeepsFlags d flags := by
  unfold ReadsBack KeepsFlags
  rw [exec_messageByUID h hl, hr, Option.bind_some, hd]
  constructor
  · rintro ⟨m, hm, hf, hk⟩
    obtain rfl := Except.ok.inj hm
    have hk : splitCSV (d.keywords.getD []) = flags.2 := hk
    refine ⟨?_, hk⟩
    have hf : splitCSV (d.flags.getD []) ++ splitCSV (d.keywords.getD []) = flags.1 ++ flags.2 := hf
    rw [hk] at hf
    exact append_cancel_right hf
  · rintro ⟨hf, hk⟩
    refine ⟨_, rfl, ?_, hk⟩
    change splitCSV _ ++ splitCSV _ = _
    rw [hf, hk]

theorem hasMessage_iff (h : n.Wf) : HasMessage n account mailbox uid ↔
    ∃ a mb id, located n account mailbox = some (a, mb) ∧ (n.kv.account a).row mb uid = some id := by
  unfold HasMessage
  cases hl : located n account mailbox with
  | none =>
    have herr : ((messageByUID account mailbox uid).exec n).2 = .error .notFound := by
      unfold messageByUID
      rw [exec_resolve_bind_none h hl]
    simp [herr]
  | some p =>
    obtain ⟨a, mb⟩ := p
    rw [exec_messageByUID h hl]
    cases hr : (n.kv.account a).row mb uid with
    | none => simp [found, hr]
    | some id =>
      obtain ⟨d, hd, -⟩ := (h.account a).row_doc mb uid id hr
      simp [found, hr, hd]

theorem ReadsBack.doc (h : n.Wf) (hread : ReadsBack n account mailbox uid flags) :
    ∃ a mb id d, located n account mailbox = some (a, mb) ∧ (n.kv.account a).row mb uid = some id ∧
      (n.kv.account a).emails[id]? = some d ∧ KeepsFlags d flags := by
  obtain ⟨a, mb, id, hl, hr⟩ := (hasMessage_iff h).mp (hread.imp fun _ h => h.1)
  obtain ⟨d, hd, -⟩ := (h.account a).row_doc mb uid id hr
  exact ⟨a, mb, id, d, hl, hr, hd, (readsBack_iff h hl hr hd).mp hread⟩

/-! ### What each call stores -/

/-- Flags as they are stored read back as they were given exactly when none has a comma in it. -/
theorem keeps_iff (given : List Str × List Str) (hflags : d.flags = some (joinCSV given.1))
    (hkeywords : d.keywords = some (joinCSV given.2)) (hne : ∀ f ∈ given.1 ++ given.2, f ≠ []) :
    KeepsFlags d given ↔ ∀ f ∈ given.1 ++ given.2, (0x2c : UInt8) ∉ f := by
  rw [KeepsFlags, hflags, hkeywords, Option.getD_some, Option.getD_some,
    splitCSV_joinCSV_iff fun f hf => hne f (mem_append_left _ hf),
    splitCSV_joinCSV_iff fun f hf => hne f (mem_append_right _ hf), forall_mem_append]

theorem forall_splitFlags {P : Str → Prop} {flags : List Str} :
    (∀ f ∈ (splitFlags flags).1 ++ (splitFlags flags).2, P f) ↔ ∀ f ∈ flags, P f := by
  simp only [splitFlags, mem_append, mem_filter, Bool.not_eq_true']
  constructor
  · intro h f hf
    cases hs : isSystem f with
    | true => exact h f (.inl ⟨hf, hs⟩)
    | false => exact h f (.inr ⟨hf, hs⟩)
  · rintro h f (⟨hf, -⟩ | ⟨hf, -⟩) <;> exact h f hf

/-! ### Setting flags -/

theorem keepsFlags_put {given : List Str} (hne : ∀ f ∈ given, f ≠ []) (d : EmailDoc) (m : Nat) :
    KeepsFlags (d.put (flagFields given m)) (splitFlags given) ↔ ∀ f ∈ given, (0x2c : UInt8) ∉ f :=
  (keeps_iff _ rfl rfl (forall_splitFlags.mpr hne)).trans forall_splitFlags

/-- The last update of a document is the one that it keeps. -/
theorem emails_updateEmails_last (before after : List (Nat × EmailDoc)) (f : EmailDoc) (x : Account)
    (hafter : id ∉ after.map (·.1)) : ((before ++ (id, f) :: after).foldl Account.updateEmail x).emails[id]? =
      some ((((before.foldl Account.updateEmail x).emails[id]?).getD {}).put f) := by
  rw [foldl_append, foldl_cons, emails_updateEmails_other after _ id hafter, emails_updateEmail, if_pos rfl]

/-- A batch of updates that ends, for a message, with these flags. -/
theorem updateEmails_keeps {given : List Str} {m : Nat} {before after : List (Nat × EmailDoc)}
    (hne : ∀ f ∈ given, f ≠ []) (hafter : id ∉ after.map (·.1)) (hr : (n.kv.account a).row mb uid = some id)
    (hn' : n' = n.withKV (updateEmailsAtomically a (before ++ (id, flagFields given m) :: after) n.kv))
    (hw : n'.Wf) (hl : located n' account mailbox = some (a, mb)) :
    ReadsBack n' account mailbox uid (splitFlags given) ↔ ∀ f ∈ given, (0x2c : UInt8) ∉ f := by
  have hacct : n'.kv.account a =
      (before ++ (id, flagFields given m) :: after).foldl Account.updateEmail (n.kv.account a) := by
    rw [hn', Node.kv_withKV, updateEmailsAtomically, if_neg (by simp), KV.account_modify, if_pos rfl]
  have hr' : (n'.kv.account a).row mb uid = some id := by
    unfold Account.row
    rw [hacct, emailIdx_updateEmails]
    exact hr
  have hd' := emails_updateEmails_last before after (flagFields given m) (n.kv.account a) hafter
  rw [← hacct] at hd'
  rw [readsBack_iff hw hl hr' hd']
  exact keepsFlags_put hne _ m

theorem setFlags_readsBack {given : List Str} (h : n.Wf) (hne : ∀ f ∈ given, f ≠ [])
    (he : (setFlags account mailbox uid given).exec n = (n', .ok ())) :
    ReadsBack n' account mailbox uid (splitFlags given) ↔ ∀ f ∈ given, (0x2c : UInt8) ∉ f := by
  have hev : Evolves n n' := by
    have hev := exec_evolves Config.plain (.setFlags account mailbox uid given) h
    rwa [show (MailOp.setFlags account mailbox uid given).prog Config.plain =
      setFlags account mailbox uid given from rfl, he] at hev
  unfold setFlags at he
  cases hl : located n account mailbox with
  | none =>
    rw [exec_resolve_bind_none h hl] at he
    cases he
  | some p =>
    obtain ⟨a, mb⟩ := p
    rw [exec_resolve_bind h hl] at he
    simp only at he
    cases hr : (n.kv.account a).row mb uid with
    | none =>
      rw [Prog.exec_bind_error (t := n) (e := .notFound) (by rw [exec_emailByIndexUID, hr]; rfl)] at he
      cases he
    | some id =>
      obtain ⟨d, hd, -⟩ := (h.account a).row_doc mb uid id hr
      obtain ⟨n₁, m, hbump, -, hrow, -⟩ := exec_bump h (located_eq_some.mp hl).2
      rw [Prog.exec_bind_ok (t := n) (a := emailFromFields id d) (by
        rw [exec_emailByIndexUID, hr, Option.bind_some, hd]; rfl), Prog.exec_bind_ok hbump, exec_put] at he
      have hn' : n' = n₁.withKV (updateEmailsAtomically a ([] ++ (id, flagFields given m) :: []) n₁.kv) :=
        (Prod.ext_iff.mp he).1.symm
      exact updateEmails_keeps hne not_mem_nil (by rw [hrow]; exact hr) hn' hev.wf (hev.located hl)

theorem setFlagsBatch_readsBack {before after : List FlagUpdate} {u : FlagUpdate} (h : n.Wf)
    (hne : ∀ f ∈ u.flags, f ≠ []) (hlast : ∀ v ∈ after, v.uid ≠ u.uid)
    (hl : located n account mailbox = some (a, mb)) (hr : (n.kv.account a).row mb u.uid = some id)
    (he : (setFlagsBatch account mailbox (before ++ u :: after)).exec n = (n', .ok ())) :
    ReadsBack n' account mailbox u.uid (splitFlags u.flags) ↔ ∀ f ∈ u.flags, (0x2c : UInt8) ∉ f := by
  have hev : Evolves n n' := by
    have hev := exec_evolves Config.plain (.setFlagsBatch account mailbox (before ++ u :: after)) h
    rwa [show (MailOp.setFlagsBatch account mailbox (before ++ u :: after)).prog Config.plain =
      setFlagsBatch account mailbox (before ++ u :: after) from rfl, he] at hev
  obtain ⟨n₁, m, hbump, -, hrow, -⟩ := exec_bump h (located_eq_some.mp hl).2
  let docs := (n.kv.account a).emailIdx mb
  have hchanges : flagChanges docs m (before ++ u :: after) =
      flagChanges docs m before ++ (id, flagFields u.flags m) :: flagChanges docs m after := by
    have hr : docs[u.uid]? = some id := hr
    simp [flagChanges, filterMap_append, hr]
  unfold setFlagsBatch at he
  rw [if_neg (by simp), exec_resolve_bind h hl] at he
  simp only [emailDocIDs] at he
  rw [Prog.exec_bind_ok (exec_get _ n), Prog.exec_bind_ok hbump, exec_put, hchanges] at he
  refine updateEmails_keeps hne (fun hin => ?_) (by rw [hrow]; exact hr) (Prod.ext_iff.mp he).1.symm hev.wf
    (hev.located hl)
  obtain ⟨change, hmem, rfl⟩ := List.mem_map.mp hin
  obtain ⟨v, hv, hfound⟩ := mem_filterMap.mp hmem
  obtain ⟨id', hid', rfl⟩ := Option.map_eq_some_iff.mp hfound
  exact hlast v hv ((h.account a).row_inj mb v.uid mb u.uid id' hid' hr).2

/-! ### Delivering -/

/-- The system flags and the keywords that a message is delivered with. -/
def Incoming.given (msg : Incoming) : List Str × List Str :=
  ((splitFlags (normalizeFlags msg.flags msg.seen)).1,
    (splitFlags (normalizeFlags msg.flags msg.seen)).2 ++ msg.keywords)

theorem forall_normalizeFlags {P : Str → Prop} (hseen : P flagSeen) {flags : List Str} {seen : Bool} :
    (∀ f ∈ normalizeFlags flags seen, P f) ↔ ∀ f ∈ flags, P f := by
  unfold normalizeFlags
  split
  · simp only [mem_append, mem_singleton, or_imp, forall_and, forall_eq, hseen, and_true]
  · rfl

theorem forall_given {P : Str → Prop} (hseen : P flagSeen) {msg : Incoming} :
    (∀ f ∈ msg.given.1 ++ msg.given.2, P f) ↔ ∀ f ∈ msg.flags ++ msg.keywords, P f := by
  rw [Incoming.given, ← append_assoc, forall_mem_append, forall_splitFlags,
    forall_normalizeFlags hseen, forall_mem_append]

theorem delivery_keeps {msg : Incoming} (hne : ∀ f ∈ msg.flags ++ msg.keywords, f ≠ [])
    (hd : Delivery cfg mailbox msg d) :
    KeepsFlags d msg.given ↔ ∀ f ∈ msg.flags ++ msg.keywords, (0x2c : UInt8) ∉ f := by
  obtain ⟨mb, now, ids, rfl⟩ := hd
  rw [keeps_iff msg.given rfl rfl ((forall_given (by decide)).mpr hne), forall_given (by decide)]

/-- A copy is stored with the texts that were read. -/
theorem copy_keeps {e : Email} {data : Str} (hsys : ∀ f ∈ flags.1, isSystem f = true)
    (hd : KeepsFlags d flags) (he : e = emailFromFields id d) {d' : EmailDoc}
    (hcopy : Delivery cfg mailbox (copyOf e data) d') : KeepsFlags d' flags := by
  obtain ⟨mb, now, ids, rfl⟩ := hcopy
  obtain ⟨hf, hk⟩ := hd
  have hgiven : (copyOf e data).given = flags := by
    have hcopy : (copyOf e data).given = ((splitFlags e.flags).1, (splitFlags e.flags).2 ++ e.keywords) := by
      simp [Incoming.given, copyOf, normalizeFlags]
    rw [hcopy, he]
    change ((splitFlags (splitCSV _)).1, (splitFlags (splitCSV _)).2 ++ splitCSV _) = flags
    rw [hf, hk, splitFlags_of_system hsys]
    rfl
  have hrows : KeepsFlags ((deliverRequest cfg mb mailbox (copyOf e data) now).document ids) flags ↔
      splitCSV (joinCSV (copyOf e data).given.1) = flags.1 ∧
        splitCSV (joinCSV (copyOf e data).given.2) = flags.2 := Iff.rfl
  rw [hrows, hgiven, ← hf, ← hk, joinCSV_splitCSV, joinCSV_splitCSV]
  exact ⟨rfl, rfl⟩

/-! ### Copying and moving -/

/-- Every message among those to be copied that is read with some flags has a copy, reported and new,
    that is read with the same flags. -/
def CopiesFlags (account src dst : Str) (uids : List Nat) (n n' : Node) (mapping : List (Nat × Nat)) : Prop :=
  ∀ (uid : Nat) (flags : List Str × List Str), (uids = [] ∨ u32 uid ∈ uids) → (∀ f ∈ flags.1, isSystem f = true) →
    ReadsBack n account src uid flags → ∃ uid', (u32 uid, u32 uid') ∈ mapping ∧
      ¬HasMessage n account dst uid' ∧ ReadsBack n' account dst uid' flags

theorem not_hasMessage_of_fresh (h : n.Wf) (hev : Evolves n n') (hl : located n' account mailbox = some (a, mb))
    (hlt : (n.kv.account a).lastUID mb < uid) : ¬HasMessage n account mailbox uid := by
  intro hm
  obtain ⟨a', mb', id, hl', hr⟩ := (hasMessage_iff h).mp hm
  obtain ⟨rfl, rfl⟩ := Prod.mk.inj (Option.some.inj ((hev.located hl').symm.trans hl))
  have := (h.account a').row_uid mb' uid id hr
  omega

/-- Copies of what a mailbox lists carry the flags of what is copied. -/
theorem copiesFlags_of_made {src dst : Str} {uids : List Nat} {mapping : List (Nat × Nat)} (h : n.Wf)
    (hev : Evolves n n') (hl : located n account src = some (a, mb))
    (hmade : ∀ e ∈ selectUIDs uids (listing (n.kv.account a) mb), CopyMade cfg dst a n n' mapping e) :
    CopiesFlags account src dst uids n n' mapping := by
  intro uid flags hsel hsys hread
  obtain ⟨a', mb', id, d, hl', hr, hd, hkeep⟩ := hread.doc h
  obtain ⟨rfl, rfl⟩ := Prod.mk.inj (Option.mem_unique hl' hl)
  obtain ⟨d', hd', -, hu, -⟩ := (h.account a').row_doc mb' uid id hr
  obtain rfl := Option.mem_unique hd hd'
  have huid : (emailFromFields id d).uid = u32 uid := by simp [emailFromFields, hu]
  have hmem : emailFromFields id d ∈ selectUIDs uids (listing (n.kv.account a') mb') := by
    refine mem_filter.mpr ⟨(mem_listing (h.account a')).mpr ⟨uid, id, d, hr, hd, hu, rfl⟩, ?_⟩
    rw [huid]
    simpa using hsel
  obtain ⟨mb, uid', id', d', data, hmap, hlt, hidx, hr', hd', hcopy⟩ := hmade _ hmem
  have hreg := hev.registry account a' (located_eq_some.mp hl).1
  have hldst : located n' account dst = some (a', mb) := located_eq_some.mpr ⟨hreg, hidx⟩
  refine ⟨uid', huid ▸ hmap, not_hasMessage_of_fresh h hev hldst hlt, ?_⟩
  exact (readsBack_iff hev.wf hldst hr' hd').mpr (copy_keeps hsys hkeep rfl hcopy)

end

/-- ROUND TRIP: flags that are set or delivered are read back as they were given exactly when none of them
    has a comma in it, and a copy or a moved message is read back with the flags of its source. -/
theorem flags_read_back_iff (cfg : Config) (n : Node) (h : n.Wf) (account : Str) :
    (∀ mailbox uid flags n', (∀ f ∈ flags, IsFlag f) →
      (setFlags account mailbox uid flags).exec n = (n', .ok ()) →
      (ReadsBack n' account mailbox uid (splitFlags flags) ↔ ∀ f ∈ flags, (0x2c : UInt8) ∉ f)) ∧
    (∀ mailbox before u after n', (∀ f ∈ u.flags, IsFlag f) → HasMessage n account mailbox u.uid →
      (∀ v ∈ after, v.uid ≠ u.uid) →
      (setFlagsBatch account mailbox (before ++ u :: after)).exec n = (n', .ok ()) →
      (ReadsBack n' account mailbox u.uid (splitFlags u.flags) ↔ ∀ f ∈ u.flags, (0x2c : UInt8) ∉ f)) ∧
    (∀ mailbox msg, (∀ f ∈ msg.flags, IsFlag f) → (∀ f ∈ msg.keywords, IsKeyword f) →
      ∃ n' uid, (deliver cfg account mailbox msg).exec n = (n', .ok (u32 uid)) ∧
        ¬HasMessage n account mailbox uid ∧ HasMessage n' account mailbox uid ∧
        (ReadsBack n' account mailbox uid msg.given ↔ ∀ f ∈ msg.flags ++ msg.keywords, (0x2c : UInt8) ∉ f)) ∧
    (∀ src dst uids n' mapping, (copy cfg account src dst uids).exec n = (n', .ok mapping) →
      CopiesFlags account src dst uids n n' mapping) ∧
    ∀ src dst uids n' mapping, (move cfg account src dst uids).exec n = (n', .ok mapping) →
      CopiesFlags account src dst uids n n' mapping := by
  refine ⟨fun mailbox uid flags n' hf he => setFlags_readsBack h (fun f hm => (hf f hm).ne_nil) he, ?_, ?_, ?_, ?_⟩
  · intro mailbox before u after n' hf hm hlast he
    obtain ⟨a, mb, id, hl, hr⟩ := (hasMessage_iff h).mp hm
    exact setFlagsBatch_readsBack h (fun f hm => (hf f hm).ne_nil) hlast hl hr he
  · intro mailbox msg hf hk
    obtain ⟨n', a, mb, uid, id, d, he, hev, hreg, hidx, hd, hadd⟩ := exec_deliver_adds cfg account mailbox msg h
    have hl : located n' account mailbox = some (a, mb) := located_eq_some.mpr ⟨hreg, hidx⟩
    refine ⟨n', uid, he, not_hasMessage_of_fresh h hev hl hadd.fresh,
      (hasMessage_iff hev.wf).mpr ⟨a, mb, id, hl, hadd.row⟩, ?_⟩
    rw [readsBack_iff hev.wf hl hadd.row hadd.doc]
    refine delivery_keeps (fun f hm => ?_) hd
    rcases mem_append.mp hm with hm | hm
    · exact (hf f hm).ne_nil
    · exact (hk f hm).1
  · intro src dst uids n' mapping he uid flags hsel hsys hread
    obtain ⟨a, mb, id, d, hl, -⟩ := hread.doc h
    obtain ⟨n₁, mapping₁, he₁, hev, hmade, -⟩ := exec_copy cfg h hl dst uids
    obtain ⟨rfl, hmap⟩ := Prod.mk.inj (he₁.symm.trans he)
    obtain rfl := Except.ok.inj hmap
    exact copiesFlags_of_made h hev hl hmade uid flags hsel hsys hread
  · intro src dst uids n' mapping he uid flags hsel hsys hread
    obtain ⟨a, mb, id, d, hl, -⟩ := hread.doc h
    obtain ⟨n₁, mapping₁, he₁, hev, hmade, -⟩ := exec_move cfg h hl dst uids
    obtain ⟨rfl, hmap⟩ := Prod.mk.inj (he₁.symm.trans he)
    obtain rfl := Except.ok.inj hmap
    exact copiesFlags_of_made h hev hl hmade uid flags hsel hsys hread

/-- A message that is delivered as read, with a keyword. -/
def tagged (keyword : Str) : Incoming := { data := ascii "x", flags := [flagSeen, keyword] }

theorem tagged_work_reads_back :
    ∃ n' uid, (deliver .plain (ascii "a@x") inbox (tagged (ascii "work"))).exec {} = (n', .ok (u32 uid)) ∧
      ReadsBack n' (ascii "a@x") inbox uid ([flagSeen], [ascii "work"]) := by
  obtain ⟨-, -, hdeliver, -⟩ := flags_read_back_iff .plain {} wf_empty (ascii "a@x")
  have hflags : ∀ f ∈ (tagged (ascii "work")).flags, IsFlag f := by
    intro f hf
    have hf : f = flagSeen ∨ f = ascii "work" := by simpa [tagged] using hf
    rcases hf with rfl | rfl
    · exact .inr ⟨ascii "Seen", by decide, by decide, by decide +kernel⟩
    · exact .inl ⟨by decide, by decide +kernel⟩
  obtain ⟨n', uid, he, -, -, hread⟩ := hdeliver inbox (tagged (ascii "work")) hflags (by simp [tagged])
  exact ⟨n', uid, he, hread.mpr (by decide +kernel)⟩

/-- A keyword with a comma in it comes back as two. -/
theorem keyword_comes_back_split : isAtomChar 0x2c = true ∧
    ((deliver .plain (ascii "a@x") inbox (tagged (ascii "a,b")) >>= fun uid =>
      messageByUID (ascii "a@x") inbox uid).exec {}).2.toOption.map (fun m => (m.flags, m.keywords)) =
        some ([flagSeen, ascii "a", ascii "b"], [ascii "a", ascii "b"]) := by
  decide +kernel

end Mailezine.Mailstore
