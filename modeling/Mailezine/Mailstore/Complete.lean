import Mailezine.Mailstore.Views
import Mailezine.Mailstore.Crash

/-! Calls of the mailstore that run to their end, one after the other.

    The operations on messages fail only before they write, listing the mailboxes of an address founds what
    it is to list, and creating, renaming and deleting a mailbox change its account in one known way. -/

namespace Mailezine.Mailstore
open Gostd Schemes Store List

section
variable {cfg : Config} {n n' : Node} {account mailbox name : Str} {a mb : Nat}

/-! ### Operations that do not fail half-way -/

theorem exec_deliver_ok (cfg : Config) (h : n.Wf) (account mailbox : Str) (msg : Incoming) :
    ∃ uid, ((deliver cfg account mailbox msg).exec n).2 = .ok uid := by
  obtain ⟨n', a, mb, uid, id, d, he, -⟩ := exec_deliver_adds cfg account mailbox msg h
  exact ⟨u32 uid, by rw [he]⟩

theorem exec_emailByIndexUID (a mb uid : Nat) (n : Node) : (emailByIndexUID a mb uid).exec n =
    (n, found (((n.kv.account a).row mb uid).bind fun id =>
      ((n.kv.account a).emails[id]?).map (emailFromFields id))) := by
  unfold emailByIndexUID
  rw [Prog.exec_bind_ok (exec_get _ n)]
  unfold Account.row
  cases hr : ((n.kv.account a).emailIdx mb)[uid]? with
  | none => rfl
  | some id =>
    rw [Prog.exec_bind_ok (t := n) (a := id) rfl, Prog.exec_bind_ok (exec_get _ n), Option.bind_some]
    cases (n.kv.account a).emails[id]? <;> rfl

/-- A call on a mailbox that is not there writes nothing. -/
theorem done_or_idle {α : Type} (h : n.Wf) {f : Nat × Nat → Op α}
    (hf : ∀ a mb, located n account mailbox = some (a, mb) →
      (∃ v, ((f (a, mb)).exec n).2 = .ok v) ∨ ((f (a, mb)).exec n).1 = n) :
    (∃ v, ((resolve account mailbox >>= f).exec n).2 = .ok v) ∨ ((resolve account mailbox >>= f).exec n).1 = n := by
  cases hl : located n account mailbox with
  | none =>
    rw [exec_resolve_bind_none h hl]
    exact Or.inr rfl
  | some p =>
    rw [exec_resolve_bind h hl]
    exact hf p.1 p.2 hl

/-- Flags are written, or nothing was. -/
theorem exec_setFlags_failed (h : n.Wf) (account mailbox : Str) (uid : Nat) (flags : List Str) :
    (∃ v, ((setFlags account mailbox uid flags).exec n).2 = .ok v) ∨
      ((setFlags account mailbox uid flags).exec n).1 = n := by
  refine done_or_idle h fun a mb _ => ?_
  simp only
  rcases he : (((n.kv.account a).row mb uid).bind fun id =>
    ((n.kv.account a).emails[id]?).map (emailFromFields id)) with _ | e
  · rw [Prog.exec_bind_error (t := n) (e := .notFound) (by rw [exec_emailByIndexUID, he]; rfl)]
    exact Or.inr rfl
  · rw [Prog.exec_bind_ok (t := n) (a := e) (by rw [exec_emailByIndexUID, he]; rfl)]
    exact Or.inl ⟨(), rfl⟩

theorem exec_setFlagsBatch_failed (h : n.Wf) (account mailbox : Str) (updates : List FlagUpdate) :
    (∃ v, ((setFlagsBatch account mailbox updates).exec n).2 = .ok v) ∨
      ((setFlagsBatch account mailbox updates).exec n).1 = n := by
  unfold setFlagsBatch
  split_ifs
  · exact Or.inl ⟨(), rfl⟩
  · exact done_or_idle h fun a mb _ => Or.inl ⟨(), rfl⟩

theorem exec_expungeUIDs_failed (h : n.Wf) (account mailbox : Str) (uids : List Nat) (requireDeleted : Bool) :
    (∃ deleted, ((expungeUIDs account mailbox uids requireDeleted).exec n).2 = .ok deleted) ∨
      ((expungeUIDs account mailbox uids requireDeleted).exec n).1 = n := by
  refine done_or_idle h fun a mb hl => ?_
  obtain ⟨n', deleted, he, -⟩ := exec_expungeUIDs h hl uids requireDeleted
  rw [expungeUIDs, exec_resolve_bind h hl] at he
  exact Or.inl ⟨deleted, by rw [he]⟩

theorem exec_copy_failed (cfg : Config) (h : n.Wf) (account src dst : Str) (uids : List Nat) :
    (∃ mapping, ((copy cfg account src dst uids).exec n).2 = .ok mapping) ∨
      ((copy cfg account src dst uids).exec n).1 = n := by
  refine done_or_idle h fun a mb hl => ?_
  obtain ⟨n', mapping, he, -⟩ := exec_copy cfg h hl dst uids
  rw [copy, exec_resolve_bind h hl] at he
  exact Or.inl ⟨mapping, by rw [he]⟩

theorem exec_move_failed (cfg : Config) (h : n.Wf) (account src dst : Str) (uids : List Nat) :
    (∃ mapping, ((move cfg account src dst uids).exec n).2 = .ok mapping) ∨
      ((move cfg account src dst uids).exec n).1 = n := by
  refine done_or_idle h fun a mb hl => ?_
  obtain ⟨n', mapping, he, -⟩ := exec_move cfg h hl dst uids
  rw [move, exec_resolve_bind h hl] at he
  exact Or.inl ⟨mapping, by rw [he]⟩

/-- An operation on messages that fails has written nothing. -/
theorem exec_mailOp_failed (cfg : Config) (h : n.Wf) (op : MailOp) :
    (∃ v, ((op.prog cfg).exec n).2 = .ok v) ∨ ((op.prog cfg).exec n).1 = n := by
  have heffect : ∀ {α : Type} (p : Op α), ((∃ v, (p.exec n).2 = .ok v) ∨ (p.exec n).1 = n) →
      (∃ v, ((effect p).exec n).2 = .ok v) ∨ ((effect p).exec n).1 = n := by
    intro α p hp
    unfold effect
    rw [Prog.exec_attempt]
    exact hp.imp (fun ⟨v, hv⟩ => ⟨(), by rw [hv]; rfl⟩) id
  cases op with
  | deliver account mailbox msg => exact heffect _ (Or.inl (exec_deliver_ok cfg h account mailbox msg))
  | setFlags account mailbox uid flags =>
    exact exec_setFlags_failed h account mailbox uid flags
  | setFlagsBatch account mailbox updates =>
    exact exec_setFlagsBatch_failed h account mailbox updates
  | expunge account mailbox uids => exact heffect _ (exec_expungeUIDs_failed h account mailbox uids true)
  | deleteUIDs account mailbox uids => exact heffect _ (exec_expungeUIDs_failed h account mailbox uids false)
  | copy account src dst uids => exact heffect _ (exec_copy_failed cfg h account src dst uids)
  | move account src dst uids => exact heffect _ (exec_move_failed cfg h account src dst uids)

/-! ### Listing the mailboxes of an address -/

/-- What is subscribed stays subscribed. -/
theorem subscribedIn_of_sameBox {x y : Account} {nm : Str} (h : SameBox nm x y) (hs : subscribedIn x nm = true) :
    subscribedIn y nm = true := by
  cases hidx : x.nameIdx[nm]? with
  | none => simp [subscribedIn, hidx] at hs
  | some mb =>
    simp only [subscribedIn, hidx, Option.bind_some] at hs
    simpa only [subscribedIn, h.idx mb hidx, Option.bind_some, h.doc mb hidx] using hs

theorem exec_ensureDefaults : ∀ (names : List Str) (n : Node), n.Wf →
    ∃ n', (ensureDefaults a names).exec n = (n', .ok ()) ∧ Evolves n n' ∧
      (∀ nm, subscribedIn (n.kv.account a) nm = true → subscribedIn (n'.kv.account a) nm = true) ∧
      (∀ nm ∈ names, subscribedIn (n'.kv.account a) nm = true) ∧
      ((∀ nm ∈ names, subscribedIn (n.kv.account a) nm = true) → n'.store = n.store)
  | [], n, h => ⟨n, rfl, Evolves.refl h, fun _ h => h, by simp, fun _ => rfl⟩
  | name :: rest, n, h => by
    obtain ⟨n₁, mb, he₁, hev₁, hidx, hkept, hbox⟩ := exec_ensureMailbox h a name
    have hstore : subscribedIn (n.kv.account a) name = true → n₁.store = n.store :=
      fun hs => hkept fun hnone => by simp [subscribedIn, hnone] at hs
    have hsub₁ : ∀ nm, subscribedIn (n.kv.account a) nm = true → subscribedIn (n₁.kv.account a) nm = true := by
      intro nm hs
      rcases hbox a with hacct | ⟨-, hnone, hacct⟩
      · rwa [hacct]
      · rw [hacct]
        exact subscribedIn_of_sameBox (sameBox_addMailbox (h.account a) hnone) hs
    obtain ⟨md, hmd, -⟩ := (hev₁.wf.account a).name_mailbox name mb hidx
    have hdoc : (mailboxDocID a name).exec n₁ = (n₁, .ok mb) := by
      rw [exec_mailboxDocID hev₁.wf, hidx]; rfl
    unfold ensureDefaults
    rw [Prog.exec_bind_ok he₁, Prog.exec_bind_ok hdoc, Prog.exec_bind_ok (exec_mailboxFields hmd)]
    split_ifs with hsub
    · obtain ⟨n', he, hev, hkeep, hall, hsame⟩ := exec_ensureDefaults rest n₁ hev₁.wf
      refine ⟨n', he, hev₁.trans hev, fun nm hs => hkeep nm (hsub₁ nm hs), fun nm hmem => ?_, fun hs => ?_⟩
      · rcases mem_cons.mp hmem with rfl | hmem
        · exact hkeep nm ((subscribedIn_eq hidx hmd).trans hsub)
        · exact hall nm hmem
      · exact (hsame fun nm hmem => hsub₁ nm (hs nm (by simp [hmem]))).trans (hstore (hs name (by simp)))
    · have hev₂ := evolves_subscribe hev₁.wf hidx true
      have hacct₂ : (n₁.withKV (putMailboxFields a mb { subscribed := some true } n₁.kv)).kv.account a =
          (n₁.kv.account a).putMailbox mb { subscribed := some true } := by
        rw [Node.kv_withKV, putMailboxFields, KV.account_modify, if_pos rfl]
      have hself : subscribedIn ((n₁.kv.account a).putMailbox mb { subscribed := some true }) name = true := by
        have hmd' := mailboxes_putMailbox (f := { subscribed := some true }) hmd mb
        rw [if_pos rfl] at hmd'
        rw [subscribedIn_eq (x := (n₁.kv.account a).putMailbox mb _) hidx hmd']
        rfl
      obtain ⟨n', he, hev, hkeep, hall, -⟩ := exec_ensureDefaults rest _ hev₂.wf
      rw [hacct₂] at hkeep
      refine ⟨n', (Prog.exec_bind_ok (exec_put _ n₁)).trans he, hev₁.trans (hev₂.trans hev),
        fun nm hs => hkeep nm ?_, fun nm hmem => ?_, fun hs => ?_⟩
      · by_cases hne : name = nm
        · exact hne ▸ hself
        · exact subscribedIn_of_sameBox (sameBox_putMailbox (hev₁.wf.account a) hidx hne) (hsub₁ nm hs)
      · rcases mem_cons.mp hmem with rfl | hmem
        · exact hkeep nm hself
        · exact hall nm hmem
      · have := hsub₁ name (hs name (by simp))
        rw [subscribedIn_eq hidx hmd] at this
        exact absurd this hsub

theorem exec_readEntries (a : Nat) (n : Node) : ∀ l : List (Nat × MailboxDoc),
    (∀ r ∈ l, (n.kv.account a).mailboxes[r.1]? = some r.2) → (readEntries a (l.map (·.1))).exec n =
      (n, .ok (l.map fun r => entryOf r.2 [] ((n.kv.account a).lastUID r.1 + 1)))
  | [], _ => rfl
  | r :: l, h => by
    have ih := exec_readEntries a n l fun q hq => h q (by simp [hq])
    rw [map_cons, readEntries, Prog.exec_bind_ok (exec_mailboxFields (h r (by simp)))]
    unfold uidNext
    rw [Prog.exec_bind_ok (exec_get _ n), Prog.exec_bind_ok ih]
    rfl

/-- The mailboxes that are listed are those that are seen afterwards. -/
theorem exec_listMailboxes (cfg : Config) (h : n.Wf) (account : Str) : ∃ n' boxes,
    (listMailboxes cfg account).exec n = (n', .ok boxes) ∧
      seen cfg n' account .mailboxes = some (.mailboxes boxes) ∧
      ∀ ans, seen cfg n account .mailboxes = some ans → n'.store = n.store := by
  obtain ⟨n₁, a, he₁, hev₁, hreg₁, -⟩ := exec_ensureAccount_any h account
  obtain ⟨n₂, mb, he₂, hev₂, hidx, hkept₂, -⟩ := exec_ensureMailbox hev₁.wf a inbox
  have hreg₂ := hev₂.registry account a hreg₁
  obtain ⟨n₃, he₃, hs₃, hw₃⟩ := exec_ensureAccount hev₂.wf hreg₂
  have hev₃ := Evolves.of_store hs₃ hw₃
  obtain ⟨n₄, he₄, hev₄, -, hall, hsame₄⟩ := exec_ensureDefaults (a := a) cfg.defaultMailboxes n₃ hw₃
  have hev := hev₃.trans hev₄
  have hens : (ensureDefaultMailboxes cfg account).exec n₂ = (n₄, .ok ()) := by
    unfold ensureDefaultMailboxes
    rw [Prog.exec_bind_ok he₃, he₄]
  have hread : (readEntries a ((n₄.kv.account a).mailboxes.toList.map (·.1))).exec n₄ =
      (n₄, .ok (entries (n₄.kv.account a))) :=
    exec_readEntries a n₄ _ fun r hr => mem_scan.mp hr
  refine ⟨n₄, mailboxList (entries (n₄.kv.account a)) (letters (n₄.kv.account a)), ?_, ?_, fun ans hseen => ?_⟩
  · unfold listMailboxes listMailboxIDs emailsOf
    rw [Prog.exec_bind_ok he₁, Prog.exec_bind_ok he₂, Prog.exec_bind_ok hens, Prog.exec_bind_ok (exec_get _ n₄),
      Prog.exec_bind_ok hread, Prog.exec_bind_ok (exec_get _ n₄)]
    rfl
  · have hprov : provisioned cfg (n₄.kv.account a) = true := by
      unfold provisioned
      rw [(hev.account a).name inbox mb hidx]
      simpa using hall
    exact Option.bind_eq_some_iff.mpr ⟨a, hev.registry account a hreg₂, by simp only [View.of, hprov, if_true]⟩
  · -- an address that shows its mailboxes has all that would be founded
    obtain ⟨c, hc, hv⟩ := Option.bind_eq_some_iff.mp hseen
    obtain ⟨hprov, -⟩ := Option.ite_none_right_eq_some.mp hv
    obtain ⟨hin, hdef⟩ := Bool.and_eq_true_iff.mp hprov
    obtain ⟨n₁', he₁', hs₁, -⟩ := exec_ensureAccount h hc
    rw [he₁] at he₁'
    obtain ⟨rfl, rfl⟩ : n₁ = n₁' ∧ a = c := by simpa using he₁'
    have hkv₁ : n₁.kv = n.kv := congrArg Facade.kv hs₁
    obtain ⟨mb₀, hmb₀⟩ := Option.isSome_iff_exists.mp hin
    have hs₂ : n₂.store = n₁.store := hkept₂ (by rw [hkv₁, hmb₀]; simp)
    have hs := hs₃.trans (hs₂.trans hs₁)
    refine (hsame₄ fun nm hmem => ?_).trans hs
    rw [show n₃.kv = n.kv from congrArg Facade.kv hs]
    exact List.all_eq_true.mp hdef nm hmem

/-! ### Creating, renaming and deleting mailboxes -/

/-- A call ends with the views outside `W` as they were, and with all of them when it fails. -/
def EndsLeaving {α : Type} (cfg : Config) (account : Str) (W : View → Answer → Prop) (n : Node)
    (o : Node × Except Err α) : Prop :=
  Leaves cfg account W n o.1 ∧ ((∃ v, o.2 = .ok v) ∨ Leaves cfg account (fun _ _ => False) n o.1)

/-- A mailbox is added to the account, or the call fails and leaves every account. -/
theorem endsLeaving_createMailbox (cfg : Config) (hn : n.Wf) (account mailbox : Str)
    (hd : Distinct ((createMailbox account mailbox).exec n).1) :
    EndsLeaving cfg account (fun v _ => v = .mailboxes) n ((createMailbox account mailbox).exec n) := by
  obtain ⟨n₁, a, he, ⟨hw, -, hkeep, -⟩, hreg, hacct⟩ := exec_ensureAccount_any hn account
  have hexec : (createMailbox account mailbox).exec n = _ := Prog.exec_bind_ok he
  cases hidx : (n₁.kv.account a).nameIdx[mailbox]? with
  | some mb =>
    have hfail : (createMailbox account mailbox).exec n = (n₁, .error .exists) := by
      rw [hexec, Prog.exec_attempt, exec_mailboxDocID hw, hidx]; rfl
    rw [hfail]
    exact ⟨.of_accounts hkeep hacct, Or.inr (.of_accounts hkeep hacct)⟩
  | none =>
    rw [hexec, Prog.exec_attempt, exec_mailboxDocID hw, hidx] at hd ⊢
    refine ⟨.of_account (y := (n.kv.account a).addMailbox mailbox) hd hreg hkeep (fun c => ?_) fun v ans hW hv => ?_,
      Or.inl ⟨_, rfl⟩⟩
    · let id := (n₁.kv.account a).lastMailbox + 1
      have hfinal := ((((Became.refl a n₁).modify
        (fun x => (x.takeMailboxID id).putMailbox id { sentinel := true }) n₁.store.now).modify
        (·.putMailbox id (newMailboxFields mailbox id)) n₁.store.now).modify (·.putName mailbox id) n₁.store.now)
      rw [addMailbox_eq _ mailbox rfl] at hfinal
      rw [← hacct, ← hacct]
      exact hfinal.account c
    · cases hbox : v.box with
      | none => exact absurd (by cases v <;> simp_all [View.box]) hW
      | some nm =>
        rw [hacct] at hidx
        exact (sameBox_addMailbox (hn.account a) hidx).of hbox hv

theorem exec_relabel (new : Str) {y : Account} (emails : List Email) (h : Became a y n n') : ∃ t,
    (Prog.forEach (fun e : Email => put (updateEmailsAtomically a [(e.docID, { mailbox := some new })]))
      emails).exec n' = (t, .ok ()) ∧ Became a (y.relabel new (emails.map (·.docID))) n t := by
  obtain ⟨_, -, hr, ht⟩ := (idle_relabel (g := ()) (Q := fun _ r t => r = .ok () ∧
    Became a (y.relabel new (emails.map (·.docID))) n t) emails n' y h fun t ht => ⟨rfl, ht⟩).exec
    (I := fun _ _ => True) (fun _ s _ => Idle.refl s) (fun _ _ _ _ _ _ => trivial) trivial
  exact ⟨_, Prod.ext rfl hr, ht⟩

/-- Renaming a mailbox leaves the mailboxes of other names. -/
theorem sameBox_renamed {x : Account} (hx : x.Wf) {old new : Str} (hidx : x.nameIdx[old]? = some mb)
    (hold : old ≠ name) (hnew : new ≠ name) {ids : List Nat} (hids : ∀ id ∈ ids, ∃ uid, x.row mb uid = some id) :
    SameBox name x ((x.rename mb old new).relabel new ids) := by
  obtain ⟨E, c, l, heq, hE⟩ := relabel_eq new ids (x.rename mb old new)
  have hput := sameBox_putMailbox (f := { name := some new }) hx hidx hold
  rw [heq]
  refine ⟨fun mb' hmb' => ?_, hput.doc, fun _ _ => rfl, fun mb' hmb' => ⟨rfl, fun uid id hr => ?_⟩⟩
  · change ((x.nameIdx.erase old).insert new mb)[name]? = some mb'
    rw [getElem?_insert_row, if_neg hnew, getElem?_erase_row, if_neg hold]
    exact hmb'
  · change E[id]? = x.emails[id]?
    rw [hE, if_neg]
    · rfl
    · intro hmem
      obtain ⟨uid', hr'⟩ := hids id hmem
      exact name_ne_of_idx hx hidx hmb' hold (hx.row_inj mb uid' mb' uid id hr' hr).1

/-- A mailbox is renamed with its messages, or the call fails and leaves the node. -/
theorem endsLeaving_renameMailbox (cfg : Config) (hn : n.Tidy) (account oldName newName : Str) (hd : Distinct n) :
    EndsLeaving cfg account (boxViews [oldName, newName]) n ((renameMailbox account oldName newName).exec n) := by
  cases hl : located n account oldName with
  | none =>
    rw [renameMailbox, exec_resolve_bind_none hn.toWf hl]
    exact ⟨.refl n, Or.inr (.refl n)⟩
  | some p =>
    obtain ⟨a, mb⟩ := p
    obtain ⟨hreg, hidx⟩ := located_eq_some.mp hl
    have hexec : (renameMailbox account oldName newName).exec n = _ :=
      exec_resolve_bind hn.toWf hl _
    cases hnew : (n.kv.account a).nameIdx[newName]? with
    | some mb' =>
      rw [hexec, Prog.exec_attempt, exec_mailboxDocID hn.toWf, hnew]
      exact ⟨.refl n, Or.inr (.refl n)⟩
    | none =>
      let n₁ := n.withKV (updateMailboxAtomically a mb { name := some newName }
        [.dropName oldName, .putName newName mb] n.kv)
      have hren : Became a ((n.kv.account a).rename mb oldName newName) n n₁ :=
        (Became.refl a n).modify (·.rename mb oldName newName) n.store.now
      have hlist : listing (n₁.kv.account a) mb = listing (n.kv.account a) mb := by
        rw [hren.self]; exact (sameView_rename _ mb oldName newName).listing
      obtain ⟨n₂, he₂, hb₂⟩ := exec_relabel newName (listing (n.kv.account a) mb) hren
      have hdone : (renameMailbox account oldName newName).exec n = (n₂.forgetMailbox a oldName, .ok ()) := by
        rw [hexec, Prog.exec_attempt, exec_mailboxDocID hn.toWf, hnew]
        refine (Prog.exec_bind_ok (exec_put _ n)).trans ((Prog.exec_bind_ok (exec_mailboxEmails a mb n₁)).trans ?_)
        rw [hlist]
        exact Prog.exec_bind_ok he₂
      rw [hdone]
      refine ⟨.of_account (y := _) ?_ ?_ ?_ hb₂.account fun v ans hW hv => ?_, Or.inl ⟨_, rfl⟩⟩
      · intro email email' c hc hc'
        refine hd email email' c ?_ ?_ <;> rw [← hb₂.registry] <;> assumption
      · rw [← hb₂.registry] at hreg; exact hreg
      · intro email c hc
        rw [← hb₂.registry] at hc; exact hc
      · obtain ⟨nm, hbox, hnot⟩ := not_boxViews hW
        simp only [mem_cons, not_mem_nil, or_false, not_or] at hnot
        refine (sameBox_renamed (hn.account a) hidx (Ne.symm hnot.1) (Ne.symm hnot.2) fun id hid => ?_).of hbox hv
        exact (mem_docIDs_listing (hn.account a) id).mp hid

theorem exec_deleteEach_ok : ∀ (emails : List Email) (n : Node), n.Wf →
    (n.kv.account a).nameIdx[mailbox]? = some mb → AllThere (n.kv.account a) mb emails →
    ∃ n', (Prog.forEach (fun e : Email => deleteEmail a e.docID mb 0 false) emails).exec n = (n', .ok ()) ∧
      Evolves n n'
  | [], n, h, _, _ => ⟨n, rfl, Evolves.refl h⟩
  | e :: rest, n, h, hidx, hall => by
    obtain ⟨uid, hr⟩ := hall.row e (by simp)
    obtain ⟨n₁, he, hev, -, hkeep, -⟩ := exec_deleteEmail_there (m := 0) h hidx hr
    obtain ⟨n', hrest, hev'⟩ :=
      exec_deleteEach_ok rest n₁ hev.wf ((hev.account a).name mailbox mb hidx) (hall.tail (hkeep.row h))
    exact ⟨n', (Prog.exec_bind_ok he).trans hrest, hev.trans hev'⟩

theorem mints_emptyMailbox (account mailbox : Str) : (Crash.emptyMailbox account mailbox).Each Mints :=
  (mints_resolve account mailbox).bind fun p => (mints_mailboxEmails p.1 p.2).bind fun emails =>
    (Prog.Each.forEach (fun e : Email => mints_deleteEmail p.1 e.docID p.2 0 false) emails).bind
      fun _ => mints_done _

theorem left_emptyMailbox (cfg : Config) (hn : n.Tidy) (hr : Roll n) (account mailbox : Str) :
    Left cfg account (boxViews [mailbox]) n ((Crash.emptyMailbox account mailbox).exec n).1 := by
  let ω := viewer cfg account [mailbox]
  refine left_exec (g := (fun _ => none : Bumped)) (Q := fun _ _ _ => True) hn hr
    (mints_emptyMailbox account mailbox) ?_
  have htake : (boxRights account [mailbox]).take account mailbox := ⟨rfl, by simp⟩
  refine Prog.Safe.bind (ω.resolve (fun t a mb ht hres => ?_) fun _ _ => trivial)
  refine Prog.Safe.bind (ω.mailboxEmails fun u emails hu hl => ?_)
  have hev := ω.evolves hu
  refine Prog.Safe.bind ((ω.deleteEach (hres.grows hev) htake trivial hl).safe hev.wf fun v g' r _ => ?_)
  cases r <;> trivial

theorem sameBox_dropMailbox {x : Account} (hx : x.Wf) (hidx : x.nameIdx[mailbox]? = some mb)
    (hne : mailbox ≠ name) : SameBox name x ((x.dropMailbox mb).dropName mailbox) := by
  refine ⟨fun mb' hmb' => ?_, fun mb' hmb' => ?_, fun _ _ => rfl, fun _ _ => ⟨rfl, fun _ _ _ => rfl⟩⟩
  · change (x.nameIdx.erase mailbox)[name]? = some mb'
    rw [getElem?_erase_row, if_neg hne]
    exact hmb'
  · change (x.mailboxes.erase mb)[mb']? = x.mailboxes[mb']?
    rw [getElem?_erase_row, if_neg (name_ne_of_idx hx hidx hmb' hne)]

/-- A mailbox is deleted with its messages, or the call fails and leaves the node. -/
theorem left_deleteMailbox (cfg : Config) (hn : n.Tidy) (hr : Roll n) (account mailbox : Str) :
    Left cfg account (boxViews [mailbox]) n ((deleteMailbox account mailbox).exec n).1 ∧
      ((∃ v, ((deleteMailbox account mailbox).exec n).2 = .ok v) ∨
        ((deleteMailbox account mailbox).exec n).1 = n) := by
  have htidy : ((deleteMailbox account mailbox).exec n).1.Tidy :=
    (BoxOp.accounted cfg (.deleteMailbox account mailbox) hn).tidy
  have hroll := roll_exec (mints_deleteMailbox account mailbox) hr
  have hlast := last_le_exec (mints_deleteMailbox account mailbox) n
  have hempty := left_emptyMailbox cfg hn hr account mailbox
  rw [Crash.deleteMailbox_eq] at htidy hroll hlast ⊢
  cases hl : located n account mailbox with
  | none =>
    have hfail : (Crash.emptyMailbox account mailbox).exec n = (n, .error .notFound) :=
      exec_resolve_bind_none hn.toWf hl _
    rw [Prog.exec_bind_error hfail]
    exact ⟨.refl hn hr, Or.inr rfl⟩
  | some p =>
    obtain ⟨a, mb⟩ := p
    obtain ⟨hreg, hidx⟩ := located_eq_some.mp hl
    obtain ⟨n₁, he, hev⟩ := exec_deleteEach_ok _ n hn.toWf hidx (allThere_listing hn.toWf a mb)
    have hdone : (Crash.emptyMailbox account mailbox).exec n = (n₁, .ok (a, mb)) := by
      unfold Crash.emptyMailbox
      rw [exec_resolve_bind hn.toWf hl]
      simp only
      rw [Prog.exec_bind_ok (exec_mailboxEmails a mb n), Prog.exec_bind_ok he]
      rfl
    have hidx₁ := (hev.account a).name mailbox mb hidx
    obtain ⟨md, hmd, -⟩ := (hev.wf.account a).name_mailbox mailbox mb hidx₁
    rw [Prog.exec_bind_ok hdone, (Crash.removeMailbox_eq mailbox hmd).1] at htidy hroll hlast ⊢
    rw [hdone] at hempty
    refine ⟨⟨htidy, hroll, hlast, fun hlt => (hempty.leaves hlt).trans ?_⟩, Or.inl ⟨_, rfl⟩⟩
    refine .of_account (y := ((n₁.kv.account a).dropMailbox mb).dropName mailbox) (hroll.distinct hlt)
      (hev.registry account a hreg) (fun _ _ hc => hc) (fun c => ?_) fun v ans hW hv => ?_
    · change (KV.modify (n₁.kv.modify a (·.dropMailbox mb)) a (·.dropName mailbox)).account c = _
      rw [KV.account_modify, KV.account_modify]
      split_ifs with hc
      · rw [hc]
      · rfl
    · obtain ⟨nm, hbox, hnot⟩ := not_boxViews hW
      exact (sameBox_dropMailbox (hev.wf.account a) hidx₁ fun h => hnot (by simp [h])).of hbox hv

/-! ### Deleting an account -/

theorem exec_claims (now : Nat) : ∀ (blobs : List Str) (t : Node), Crash.Purged a n t →
    t.store.blobs = n.store.blobs →
    ∃ t', (Prog.forEach (fun b => put fun kv => kv.putClaim b now) blobs).exec t = (t', .ok ()) ∧
      Crash.Purged a n t' ∧ t'.store.blobs = n.store.blobs
  | [], t, h, hb => ⟨t, rfl, h, hb⟩
  | _ :: rest, _, h, hb => exec_claims now rest _ ⟨h.account, h.registry, h.ids⟩ hb

/-- The account of an address that is deleted leaves nothing behind. -/
theorem tidy_deleteAccount (hn : n.Tidy) (account : Str) : ((deleteAccount account).exec n).1.Tidy := by
  cases hreg : n.kv.registry[account]? with
  | none =>
    have hfail : (deleteAccount account).exec n = (n, .error .notFound) :=
      Prog.exec_bind_error (by rw [exec_getE, accountByEmail_eq, hreg]; rfl)
    rw [hfail]
    exact hn
  | some a =>
    obtain ⟨t, he, ht, hb⟩ := exec_claims (unix n.store.now) ((n.kv.account a).links.toList.map (·.1))
      _ (Crash.purged_purgeRows a n) rfl
    have hdone : (deleteAccount account).exec n =
        ((t.withKV (dropRegistry account t.kv)).forgetAccount account a, .ok ()) := by
      unfold deleteAccount
      rw [Prog.exec_bind_ok (t := n) (a := a) (by rw [exec_getE, accountByEmail_eq, hreg]; rfl),
        Prog.exec_bind_ok (exec_get _ n), Prog.exec_bind_ok (exec_put _ n), Prog.exec_bind_ok (exec_peek _ _)]
      exact Prog.exec_bind_ok he
    rw [hdone]
    have hsettled : Crash.Settled n := by
      refine ⟨fun c => ⟨fun nm id hid => ?_, fun id md hmd => ?_⟩, hn.ids_account, hn.ids_mailbox⟩
      · obtain ⟨md, hmd, hname⟩ := (hn.account c).name_mailbox nm id hid
        exact ⟨md, hmd, by rw [hname]; rfl⟩
      · exact ((hn.account c).mailbox_name id md hmd).1
    have hids : Crash.Settled ((t.withKV (dropRegistry account t.kv)).forgetAccount account a) := ht.settled hsettled
    have hacct : ∀ c, (t.kv.account c).Tidy := by
      intro c
      rw [ht.account]
      split_ifs
      · exact tidy_empty
      · exact hn.tidy c
    refine ⟨⟨fun c => (hacct c).toWf, fun c id d b hd hdb => ?_, hids.ids_account, hids.ids_mailbox⟩, hacct⟩
    change b ∈ t.store.blobs
    change (t.kv.account c).emails[id]? = some d at hd
    rw [hb]
    rw [ht.account] at hd
    split_ifs at hd
    · cases hd
    · exact hn.blob c id d b hd hdb

end

end Mailezine.Mailstore
