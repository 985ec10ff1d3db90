import Mailezine.Mailstore.Complete

/-! Coherence of the metadata cache.

    Calls go through the decorator one after the other, and the mailstore may fail a call between any two
    of its accesses. COHERENT: what the decorator answers is what the mailstore would answer, in every run
    in which no memoized status is outdated by a subscription and no call fails half-way that has written
    something that is memoized. -/

namespace Mailezine.Mailstore
open Gostd Schemes Store List

/-! ### What a call changes -/

/-- The views of its address that a call may change. -/
def Call.changes (cfg : Config) : Call → View → Answer → Prop
  | .mail op => boxViews op.boxes
  | .append _ mailbox _ => boxViews [mailbox]
  | .createMailbox _ _ => fun v _ => v = .mailboxes
  | .deleteMailbox _ mailbox => boxViews [mailbox]
  | .renameMailbox _ oldName newName => boxViews [oldName, newName]
  | .setSubscribed _ mailbox subscribed => fun v ans => v = .mailboxes ∨ otherwise [mailbox] subscribed v ans
  | .ensureDefaultMailboxes _ => otherwise cfg.defaultMailboxes true
  | .listMailboxes _ => otherwise cfg.defaultMailboxes true
  | .deleteAccount _ => fun _ _ => True
  | _ => fun _ _ => False

/-- The views that are changed by a call that returns an error. -/
def Call.spoils (cfg : Config) : Call → View → Answer → Prop
  | .ensureDefaultMailboxes _ => otherwise cfg.defaultMailboxes true
  | .listMailboxes _ => otherwise cfg.defaultMailboxes true
  | .deleteAccount _ => fun _ _ => True
  | _ => fun _ _ => False

/-- The account is tidy after every access. -/
def Call.stepwise : Call → Bool
  | .createMailbox _ _ => false
  | .deleteMailbox _ _ => false
  | .renameMailbox _ _ _ => false
  | .deleteAccount _ => false
  | _ => true

section
variable {cfg : Config} {n n' : Node} {account : Str} {call : Call} {v : View} {ans : Answer}

theorem safe_return {γ α β : Type} {R : Node → Node → Prop} {G : γ → Node → Node → γ → Prop} {g : γ} {p : Op α}
    {f : α → β} (h : Prog.Safe R G (fun _ _ _ => True) g p n) :
    Prog.Safe R G (fun _ _ _ => True) g (p >>= fun a => pure (f a)) n := by
  refine Prog.Safe.bind (h.mono fun _ r _ _ => ?_)
  cases r <;> trivial

/-- Every access of a stepwise call leaves the views that the call does not change. -/
theorem Call.watch (cfg : Config) (hcall : call.stepwise = true) (hn : n.Wf) :
    Prog.Safe (fun n t => n.Wf ∧ Idle n t) (fun _ n n' _ => Shows cfg call.account (call.changes cfg) n n')
      (fun _ _ _ => True) (fun _ => none : Bumped) (call.prog cfg) n := by
  have ρ : Regime _ _ _ := watcher (γ := Bumped) cfg call.account (call.changes cfg)
  cases call with
  | mail op => exact safe_return ((viewer cfg op.account op.boxes).mailOp op.within_boxRights _ hn)
  | append account mailbox msg =>
    exact safe_return ((viewer cfg account [mailbox]).deliver ⟨rfl, by simp⟩ (fun _ _ _ => trivial)
      fun _ _ => trivial)
  | setSubscribed account mailbox subscribed =>
    exact safe_return (watch_setSubscribed _ cfg account mailbox subscribed)
  | ensureDefaultMailboxes account =>
    exact safe_return (ρ.ensureDefaultMailboxes cfg (watch_founds _ cfg account) fun _ _ _ => trivial)
  | listMailboxes account =>
    exact safe_return (ρ.listMailboxes cfg (fun ht hreg => shows_addMailbox ht hreg (.inl rfl))
      (watch_founds _ cfg account))
  | mailboxStatus account mailbox =>
    refine safe_return (Prog.Safe.bind (ρ.cachedAccountID (fun t a _ _ => ?_) fun _ _ _ => trivial))
    refine Prog.Safe.bind (ρ.cachedMailboxDocID (fun t mb _ _ => ?_) fun _ _ => trivial)
    refine Prog.Safe.bind (Prog.Safe.bind (ρ.mailboxFields (fun t md _ _ => ?_) fun _ _ _ => trivial))
    refine Prog.Safe.bind (ρ.get fun t _ => ?_)
    exact Prog.Safe.bind (ρ.mailboxEmails fun _ _ _ _ => trivial)
  | listMessages account mailbox => exact safe_return (ρ.listMessages fun _ _ _ => trivial)
  | messageByUID account mailbox uid =>
    refine safe_return (Prog.Safe.bind (ρ.resolve (fun t a mb _ _ => ?_) fun _ _ => trivial))
    exact Prog.Safe.bind (ρ.emailByIndexUID (fun _ _ _ _ _ _ => trivial) fun _ _ => trivial)
  | mailboxModSeq account mailbox => exact safe_return (ρ.mailboxModSeq fun _ _ _ _ => trivial)
  | expungedSince account mailbox since =>
    refine safe_return (Prog.Safe.attempt (ρ.resolve (fun t a mb _ _ => ?_) fun _ _ => trivial))
    exact Prog.Safe.bind (ρ.get fun _ _ => trivial)
  | openMessage account mailbox uid =>
    refine safe_return (Prog.Safe.bind (ρ.resolve (fun t a mb _ _ => ?_) fun _ _ => trivial))
    refine Prog.Safe.bind (ρ.emailByIndexUID (fun _ _ _ _ _ _ => ?_) fun _ _ => trivial)
    exact ρ.getBlob (fun _ _ _ => trivial) fun _ _ => trivial
  | createMailbox | deleteMailbox | renameMailbox | deleteAccount => simp [Call.stepwise] at hcall

theorem exec_thenReturn {α : Type} (p : Op α) (r : Answer) (n : Node) :
    (thenReturn p r).exec n = ((p.exec n).1, (p.exec n).2.map fun _ => r) := Prog.exec_bind_pure p (fun _ => r) n

/-- A call that ends leaves the views that it does not change. -/
theorem Call.left (cfg : Config) (hn : n.Tidy) (hr : Roll n) (hcall : ∀ account, call ≠ .deleteAccount account) :
    Left cfg call.account (call.changes cfg) n ((call.prog cfg).exec n).1 := by
  have hroll := roll_exec (mints_call cfg call) hr
  have hlast := last_le_exec (mints_call cfg call) n
  by_cases hstep : call.stepwise = true
  · exact left_exec hn hr (mints_call cfg call) (call.watch cfg hstep hn.toWf)
  · cases call with
    | createMailbox account mailbox =>
      have htidy := (BoxOp.accounted cfg (.createMailbox account mailbox) hn).tidy
      simp only [BoxOp.prog, effect, Prog.exec_attempt, Prog.exec_done] at htidy
      simp only [Call.prog, exec_thenReturn] at hroll hlast ⊢
      exact ⟨htidy, hroll, hlast, fun hlt =>
        (endsLeaving_createMailbox cfg hn.toWf account mailbox (hroll.distinct hlt)).1⟩
    | deleteMailbox account mailbox =>
      simp only [Call.prog, exec_thenReturn]
      exact (left_deleteMailbox cfg hn hr account mailbox).1
    | renameMailbox account oldName newName =>
      have htidy := (BoxOp.accounted cfg (.renameMailbox account oldName newName) hn).tidy
      simp only [Call.prog, exec_thenReturn] at hroll hlast ⊢
      exact ⟨htidy, hroll, hlast, fun hlt =>
        (endsLeaving_renameMailbox cfg hn account oldName newName (hr.distinct (hlast.trans_lt hlt))).1⟩
    | deleteAccount account => exact absurd rfl (hcall account)
    | _ => simp [Call.stepwise] at hstep

/-- A call that returns an error leaves the views that it does not spoil. -/
theorem Call.left_failed (cfg : Config) (hn : n.Tidy) (hr : Roll n) (hcall : ∀ account, call ≠ .deleteAccount account)
    {e : Err} (he : ((call.prog cfg).exec n).2 = .error e) :
    Left cfg call.account (call.spoils cfg) n ((call.prog cfg).exec n).1 := by
  have hleft := call.left cfg hn hr hcall
  -- it is enough that the call has spoiled nothing
  suffices h : ((call.prog cfg).exec n).1.kv.lastAccount < 2 ^ 32 →
      Leaves cfg call.account (call.spoils cfg) n ((call.prog cfg).exec n).1 from
    ⟨hleft.tidy, hleft.roll, hleft.last, h⟩
  intro hlt
  have hfailed : ∀ {α : Type} {p : Op α} {r : Answer}, ((thenReturn p r).exec n).2 = .error e →
      ¬∃ v, (p.exec n).2 = .ok v := by
    rintro α p r he ⟨v, hv⟩
    rw [exec_thenReturn, hv] at he
    exact absurd he (by simp [Except.map])
  cases call with
  | mail op =>
    have hsame := (exec_mailOp_failed cfg hn.toWf op).resolve_left (hfailed he)
    simp only [Call.prog, exec_thenReturn, hsame]
    exact .refl n
  | append account mailbox msg => exact absurd (exec_deliver_ok cfg hn.toWf account mailbox msg) (hfailed he)
  | createMailbox account mailbox =>
    simp only [Call.prog, exec_thenReturn] at hlt hleft ⊢
    have hends := endsLeaving_createMailbox cfg hn.toWf account mailbox (hleft.roll.distinct hlt)
    exact hends.2.resolve_left (hfailed he)
  | deleteMailbox account mailbox =>
    have hsame := (left_deleteMailbox cfg hn hr account mailbox).2.resolve_left (hfailed he)
    simp only [Call.prog, exec_thenReturn, hsame]
    exact .refl n
  | renameMailbox account oldName newName =>
    have hlt' := hleft.last.trans_lt hlt
    simp only [Call.prog, exec_thenReturn] at hlt ⊢
    exact (endsLeaving_renameMailbox cfg hn account oldName newName (hr.distinct hlt')).2.resolve_left
      (hfailed he)
  | setSubscribed account mailbox subscribed =>
    cases hl : located n account mailbox with
    | none =>
      have hfail : (Mailstore.setSubscribed account mailbox subscribed).exec n = (n, .error .notFound) :=
        exec_resolve_bind_none hn.toWf hl _
      simp only [Call.prog, exec_thenReturn, hfail]
      exact .refl n
    | some p =>
      refine absurd ⟨(), ?_⟩ (hfailed he)
      exact congrArg Prod.snd (exec_resolve_bind hn.toWf hl _)
  | deleteAccount account => exact absurd rfl (hcall account)
  | ensureDefaultMailboxes | listMailboxes => exact hleft.leaves hlt
  | mailboxStatus | listMessages | messageByUID | mailboxModSeq | expungedSince | openMessage =>
    exact hleft.leaves hlt

/-! ### What the mailstore answers -/

theorem exec_mailboxStatus (cfg : Config) (h : n.Wf) (account mailbox : Str) :
    ∃ n', ((Call.mailboxStatus account mailbox).prog cfg).exec n =
      (n', found (seen cfg n account (.status mailbox))) ∧ n'.store = n.store := by
  obtain ⟨n', hs, hw, hnone, hsome⟩ := exec_cached_bind h account mailbox fun a mb => do
    let st ← readMailboxMeta a mb mailbox
    let emails ← mailboxEmails a mb
    pure (st, countEmails emails)
  have hkv : n'.kv = n.kv := congrArg Facade.kv hs
  have hseen : seen cfg n account (.status mailbox) = (located n account mailbox).bind fun p =>
      ((n.kv.account p.1).mailboxes[p.2]?).map fun md =>
        .status (metaOf (n.kv.account p.1) mailbox p.2 md, countEmails (listing (n.kv.account p.1) p.2)) := by
    simp [seen, View.of, located, Option.bind_assoc, Option.bind_map]
  simp only [Call.prog, Prog.exec_bind_pure, hseen]
  unfold mailboxStatus
  cases hl : located n account mailbox with
  | none =>
    rw [hnone hl]
    exact ⟨n', rfl, hs⟩
  | some p =>
    obtain ⟨a, mb⟩ := p
    obtain ⟨md, hmd, -⟩ := (hw.account a).name_mailbox mailbox mb (by rw [hkv]; exact (located_eq_some.mp hl).2)
    have hmeta : (readMailboxMeta a mb mailbox).exec n' = (n', .ok (metaOf (n'.kv.account a) mailbox mb md)) := by
      unfold readMailboxMeta uidNext
      rw [Prog.exec_bind_ok (exec_mailboxFields hmd), Prog.exec_bind_ok (exec_get _ n')]
      rfl
    rw [hsome a mb hl, Prog.exec_bind_ok hmeta, Prog.exec_bind_ok (exec_mailboxEmails a mb n')]
    rw [hkv] at hmd ⊢
    exact ⟨n', by simp [hmd, found, Except.map], hs⟩

theorem exec_listMessages_seen (cfg : Config) (h : n.Wf) (account mailbox : Str) :
    ((Call.listMessages account mailbox).prog cfg).exec n =
      (n, found (seen cfg n account (.messages mailbox))) := by
  simp only [Call.prog, Prog.exec_bind_pure, exec_listMessages h]
  unfold seen located
  cases n.kv.registry[account]? with
  | none => rfl
  | some a =>
    simp only [Option.bind_some, View.of]
    cases (n.kv.account a).nameIdx[mailbox]? <;> rfl

/-- A message that is found in the messages of a mailbox is the one that its UID stands for. -/
theorem exec_messageByUID_seen (cfg : Config) (h : n.Wf) {mailbox : Str} {uid : Nat} {msgs : List Message}
    {m : Message} (hroom : ∀ p, located n account mailbox = some p → (n.kv.account p.1).lastUID p.2 < 2 ^ 32)
    (hseen : seen cfg n account (.messages mailbox) = some (.messages msgs))
    (hfind : msgs.find? (·.uid = uid) = some m) :
    (((Call.messageByUID account mailbox uid).prog cfg).exec n).2 = .ok (.message m) := by
  obtain ⟨a, hreg, hv⟩ := Option.bind_eq_some_iff.mp hseen
  obtain ⟨mb, hidx, hmsgs⟩ := Option.map_eq_some_iff.mp hv
  obtain rfl : _ = msgs := Answer.messages.inj hmsgs
  have hl : located n account mailbox = some (a, mb) := located_eq_some.mpr ⟨hreg, hidx⟩
  obtain ⟨e, he, rfl⟩ := List.mem_map.mp (mem_of_find?_eq_some hfind)
  have hfound := find?_some hfind
  have huid : e.uid = uid := of_decide_eq_true hfound
  obtain ⟨uid', id, d, hr, hd, hu, rfl⟩ := (mem_listing (h.account a)).mp he
  have hlt := ((h.account a).row_uid mb uid' id hr).trans_lt (hroom (a, mb) hl)
  have hmod : uid' % 2 ^ 32 = uid := by simpa [emailFromFields, hu, u32] using huid
  obtain rfl : uid' = uid := (Nat.mod_eq_of_lt hlt).symm.trans hmod
  have hemail : (emailByIndexUID a mb uid').exec n = (n, .ok (emailFromFields id d)) := by
    rw [exec_emailByIndexUID, hr]; simp [hd, found]
  simp only [Call.prog, Prog.exec_bind_pure]
  unfold messageByUID
  rw [exec_resolve_bind h hl]
  simp only
  rw [Prog.exec_bind_ok hemail]
  rfl

/-- The call that asks for a view. -/
def View.ask (account : Str) : View → Call
  | .mailboxes => .listMailboxes account
  | .messages mailbox => .listMessages account mailbox
  | .status mailbox => .mailboxStatus account mailbox

/-- An answer that is memoized is what is seen afterwards. -/
theorem seen_of_exec (cfg : Config) (h : n.Wf) (hans : (((v.ask account).prog cfg).exec n).2 = .ok ans) :
    seen cfg (((v.ask account).prog cfg).exec n).1 account v = some ans := by
  have hfound : ∀ {o : Option Answer}, found o = .ok ans → o = some ans := by
    rintro (_ | o) ho
    · exact absurd ho (by simp [found])
    · rw [Except.ok.inj ho]
  cases v with
  | mailboxes =>
    obtain ⟨n', boxes, he, hseen, -⟩ := exec_listMailboxes cfg h account
    simp only [View.ask, Call.prog, Prog.exec_bind_pure, he] at hans ⊢
    rw [hseen, ← Except.ok.inj hans]
  | messages mailbox =>
    simp only [View.ask, exec_listMessages_seen cfg h] at hans ⊢
    exact hfound hans
  | status mailbox =>
    obtain ⟨n', he, hs⟩ := exec_mailboxStatus cfg h account mailbox
    simp only [View.ask, he] at hans ⊢
    have hkv : n'.kv = n.kv := congrArg Facade.kv hs
    unfold seen at hans ⊢
    rw [hkv]
    exact hfound hans

/-- What is seen is what the mailstore answers. -/
theorem exec_of_seen (cfg : Config) (h : n.Wf) (hseen : seen cfg n account v = some ans) :
    (((v.ask account).prog cfg).exec n).2 = .ok ans := by
  cases v with
  | mailboxes =>
    obtain ⟨n', boxes, he, hseen', hsame⟩ := exec_listMailboxes cfg h account
    have hkv : n'.kv = n.kv := congrArg Facade.kv (hsame ans hseen)
    unfold seen at hseen hseen'
    rw [hkv, hseen] at hseen'
    simp only [View.ask, Call.prog, Prog.exec_bind_pure, he, Option.some.inj hseen']
    rfl
  | messages mailbox => rw [View.ask, exec_listMessages_seen cfg h, hseen]; rfl
  | status mailbox =>
    obtain ⟨n', he, -⟩ := exec_mailboxStatus cfg h account mailbox
    rw [View.ask, he, hseen]; rfl

/-! ### The condition -/

end

/-- A memoized status of the mailbox shows this subscription. -/
def Cached.subscription (c : Cached) (account : Str) (b : Bool) (mailbox : Str) : Bool :=
  match c.memo (mboxKey account mailbox) with
  | some (.status st) => st.1.subscribed == b
  | _ => true

/-- The call subscribes no mailbox whose memoized status shows it otherwise. -/
def Cached.agrees (cfg : Config) (c : Cached) : Call → Bool
  | .setSubscribed account mailbox subscribed => c.subscription account subscribed mailbox
  | .ensureDefaultMailboxes account => cfg.defaultMailboxes.all (c.subscription account true)
  | .listMailboxes account => cfg.defaultMailboxes.all (c.subscription account true)
  | _ => true

/-- Addresses hold no NUL byte and subscriptions agree with the memoized statuses; a call that fails
    half-way is none that creates, renames or deletes a mailbox or an account, and nothing is memoized that
    it would have invalidated. -/
def Cached.allows (cfg : Config) (c : Cached) : CacheAct → Bool
  | .call call => decide (0 ∉ call.account) && c.agrees cfg call
  | .fail call _ => decide (0 ∉ call.account) && c.agrees cfg call && call.stepwise &&
      call.outdates.all fun k => (c.memo k).isNone
  | .tick _ => true

/-- Account numbers have not run out, nor have the UIDs of a mailbox that is asked for one. -/
def Call.inRange (n : Node) (call : Call) : Bool :=
  decide (n.kv.lastAccount < 2 ^ 32) &&
    match call with
    | .messageByUID account mailbox _ =>
      (located n account mailbox).all fun p => (n.kv.account p.1).lastUID p.2 < 2 ^ 32
    | _ => true

/-- Every memoized answer is what is seen. -/
structure Coherent (cfg : Config) (c : Cached) : Prop where
  tidy : c.node.Tidy
  roll : Roll c.node
  memo : c.node.kv.lastAccount < 2 ^ 32 → ∀ (account : Str) (v : View) (ans : Answer), 0 ∉ account →
    c.memo (v.key account) = some ans → seen cfg c.node account v = some ans

section
variable {cfg : Config} {c : Cached} {call : Call} {v : View} {ans : Answer}

theorem coherent_empty (cfg : Config) : Coherent cfg {} :=
  ⟨tidy_node_empty, roll_empty, fun _ _ _ _ _ h => absurd h (by simp)⟩

/-- A memoized status that agrees is not otherwise. -/
theorem not_otherwise {account : Str} {names : List Str} {b : Bool}
    (h : ∀ nm ∈ names, c.subscription account b nm = true) (hmemo : c.memo (v.key account) = some ans)
    (hst : ∀ nm, v = .status nm → ∃ st, ans = .status st) : ¬otherwise names b v ans := by
  rintro ⟨nm, hmem, rfl, hne⟩
  obtain ⟨st, rfl⟩ := hst nm rfl
  have hsub := h nm hmem
  have hkey : c.memo (mboxKey account nm) = some (.status st) := hmemo
  simp only [Cached.subscription, hkey, beq_iff_eq] at hsub
  exact hne st rfl hsub

theorem status_of_seen {n : Node} {account name : Str} (h : seen cfg n account (.status name) = some ans) :
    ∃ st, ans = .status st := by
  obtain ⟨a, -, hv⟩ := Option.bind_eq_some_iff.mp h
  obtain ⟨mb, -, hm⟩ := Option.bind_eq_some_iff.mp hv
  obtain ⟨md, -, rfl⟩ := Option.map_eq_some_iff.mp hm
  exact ⟨_, rfl⟩

theorem boxViews_outdated (ans : Answer) {account : Str} {boxes keys : List Str} (hne : boxes ≠ [])
    (hkeys : ∀ b ∈ boxes, ∀ k ∈ boxKeys account b, k ∈ keys) (h : boxViews boxes v ans) :
    v.key account ∈ keys := by
  cases v with
  | mailboxes =>
    obtain ⟨b, hb⟩ := exists_mem_of_ne_nil boxes hne
    exact hkeys b hb _ (by simp [boxKeys, View.key])
  | messages name => exact hkeys name (h name rfl) _ (by simp [boxKeys, View.key])
  | status name => exact hkeys name (h name rfl) _ (by simp [boxKeys, View.key])

/-- A memoized answer that a call may change is one that the call invalidates. -/
theorem Call.outdated (hagree : c.agrees cfg call = true) (hcall : ∀ account, call ≠ .deleteAccount account)
    (hmemo : c.memo (v.key call.account) = some ans) (hst : ∀ nm, v = .status nm → ∃ st, ans = .status st)
    (h : call.changes cfg v ans) : v.key call.account ∈ call.outdates := by
  cases call with
  | mail op =>
    refine boxViews_outdated ans ?_ (fun b hb k hk => mem_flatMap.mpr ⟨b, hb, hk⟩) h
    cases op <;> simp [MailOp.boxes]
  | append account mailbox msg =>
    exact boxViews_outdated ans (by simp) (fun b hb k hk => by rw [mem_singleton.mp hb] at hk; exact hk) h
  | createMailbox account mailbox =>
    obtain rfl : v = .mailboxes := h
    simp [Call.outdates, View.key, Call.account]
  | deleteMailbox account mailbox =>
    exact boxViews_outdated ans (by simp) (fun b hb k hk => by rw [mem_singleton.mp hb] at hk; exact hk) h
  | renameMailbox account oldName newName =>
    refine boxViews_outdated ans (by simp) (fun b hb k hk => ?_) h
    simp only [mem_cons, not_mem_nil, or_false] at hb
    rcases hb with rfl | rfl <;> simp_all [Call.outdates, boxKeys, Call.account] <;> tauto
  | setSubscribed account mailbox subscribed =>
    rcases h with rfl | h
    · simp [Call.outdates, View.key, Call.account]
    · exact absurd h (not_otherwise (fun nm hnm => by rw [mem_singleton.mp hnm]; exact hagree) hmemo hst)
  | ensureDefaultMailboxes account =>
    exact absurd h (not_otherwise (List.all_eq_true.mp hagree) hmemo hst)
  | listMailboxes account => exact absurd h (not_otherwise (List.all_eq_true.mp hagree) hmemo hst)
  | deleteAccount account => exact absurd rfl (hcall account)
  | mailboxStatus | listMessages | messageByUID | mailboxModSeq | expungedSince | openMessage => exact h.elim

variable {memo : Str → Option Answer}

/-- What is still memoized is still seen, if none of it was changed. -/
theorem Left.coherent {n' : Node} {account : Str} {W : View → Answer → Prop}
    (h : Coherent cfg c) (hleft : Left cfg account W c.node n')
    (hmemo : ∀ (account' : Str) (v : View) (ans : Answer), 0 ∉ account' → memo (v.key account') = some ans →
      seen cfg n' account' v = some ans ∨ c.memo (v.key account') = some ans ∧
        (account' = account → (∀ nm, v = .status nm → ∃ st, ans = .status st) → ¬W v ans)) :
    Coherent cfg ⟨n', memo⟩ := by
  refine ⟨hleft.tidy, hleft.roll, fun hlt account' v ans hnul hk => ?_⟩
  rcases hmemo account' v ans hnul hk with hseen | ⟨hold, hW⟩
  · exact hseen
  · have hseen := h.memo (hleft.last.trans_lt hlt) account' v ans hnul hold
    refine hleft.leaves hlt account' v ans (fun he => hW he ?_) hseen
    rintro nm rfl
    exact status_of_seen hseen

theorem memoKey_ask {key : Str} (h : call.memoKey = some key) :
    ∃ v, call = View.ask call.account v ∧ key = v.key call.account := by
  cases call with
  | listMailboxes account => exact ⟨.mailboxes, rfl, (Option.some.inj h).symm⟩
  | mailboxStatus account mailbox => exact ⟨.status mailbox, rfl, (Option.some.inj h).symm⟩
  | listMessages account mailbox => exact ⟨.messages mailbox, rfl, (Option.some.inj h).symm⟩
  | _ => simp [Call.memoKey] at h

theorem settle_memo {key : Str} (hkey : call.memoKey = some key) :
    call.settle memo (.ok ans) = Function.update memo key (some ans) := by
  cases call with
  | listMailboxes | mailboxStatus | listMessages => rw [← Option.some.inj hkey]; rfl
  | _ => simp [Call.memoKey] at hkey

theorem settle_outdates (hcall : ∀ account, call ≠ .deleteAccount account)
    (hkey : call.memoKey = none) : call.settle memo (.ok ans) = without call.outdates memo := by
  cases call with
  | deleteAccount account => exact absurd rfl (hcall account)
  | listMailboxes | mailboxStatus | listMessages => simp [Call.memoKey] at hkey
  | _ => rfl

theorem settle_error {e : Err} (hcall : ∀ account, call ≠ .deleteAccount account) :
    call.settle memo (.error e) = memo := by
  cases call <;> first | rfl | exact absurd rfl (hcall _)

/-- A call that reaches the mailstore keeps the cache coherent. -/
theorem Coherent.call_miss (h : Coherent cfg c) (hnul : 0 ∉ call.account) (hagree : c.agrees cfg call = true) :
    Coherent cfg ⟨((call.prog cfg).exec c.node).1, call.settle c.memo ((call.prog cfg).exec c.node).2⟩ := by
  by_cases hdel : ∃ account, call = .deleteAccount account
  · obtain ⟨account, rfl⟩ := hdel
    refine ⟨?_, roll_exec (mints_call cfg _) h.roll, fun _ _ _ _ _ hk => ?_⟩
    · simp only [Call.prog, exec_thenReturn]
      exact tidy_deleteAccount h.tidy account
    · exact absurd hk (by simp [Call.settle])
  have hcall : ∀ account, call ≠ .deleteAccount account := fun account he => hdel ⟨account, he⟩
  cases hres : ((call.prog cfg).exec c.node).2 with
  | error e =>
    rw [settle_error hcall]
    refine (call.left_failed cfg h.tidy h.roll hcall hres).coherent h fun account' v ans _ hk =>
      Or.inr ⟨hk, ?_⟩
    rintro rfl hst hspoil
    cases call with
    | ensureDefaultMailboxes account =>
      exact not_otherwise (List.all_eq_true.mp hagree) hk hst hspoil
    | listMailboxes account => exact not_otherwise (List.all_eq_true.mp hagree) hk hst hspoil
    | deleteAccount account => exact hcall account rfl
    | _ => exact hspoil
  | ok ans =>
    have hleft := call.left cfg h.tidy h.roll hcall
    cases hkey : call.memoKey with
    | some key =>
      obtain ⟨v₀, hask, rfl⟩ := memoKey_ask hkey
      rw [settle_memo hkey]
      refine hleft.coherent h fun account' v ans' hnul' hk => ?_
      rw [Function.update_apply] at hk
      split_ifs at hk with heq
      · obtain ⟨rfl, rfl⟩ := View.key_inj hnul' hnul heq
        obtain rfl := Option.some.inj hk
        have hres' : (((v.ask call.account).prog cfg).exec c.node).2 = .ok ans := by rw [← hask]; exact hres
        have hseen := seen_of_exec cfg h.tidy.toWf hres'
        rw [← hask] at hseen
        exact Or.inl hseen
      · refine Or.inr ⟨hk, ?_⟩
        rintro rfl hst hch
        have hout := Call.outdated hagree hcall hk hst hch
        rw [hask] at hout
        cases v₀ <;> exact absurd hout (by simp [View.ask, Call.outdates])
    | none =>
      rw [settle_outdates hcall hkey]
      refine hleft.coherent h fun account' v ans' _ hk => ?_
      unfold without at hk
      split_ifs at hk with hmem
      refine Or.inr ⟨hk, ?_⟩
      rintro rfl hst hch
      exact hmem (Call.outdated hagree hcall hk hst hch)

theorem Coherent.step (h : Coherent cfg c) (act : CacheAct) (hok : c.allows cfg act = true) :
    Coherent cfg (c.step cfg act) := by
  cases act with
  | call call =>
    obtain ⟨hnul, hagree⟩ := Bool.and_eq_true_iff.mp hok
    simp only [Cached.step, Cached.call]
    cases c.hit call with
    | some ans => exact h
    | none => exact h.call_miss (of_decide_eq_true hnul) hagree
  | fail call accesses =>
    obtain ⟨hok, hnone⟩ := Bool.and_eq_true_iff.mp hok
    obtain ⟨hok, hstep⟩ := Bool.and_eq_true_iff.mp hok
    obtain ⟨hnul, hagree⟩ := Bool.and_eq_true_iff.mp hok
    have hcall : ∀ account, call ≠ .deleteAccount account := by
      rintro account rfl
      simp [Call.stepwise] at hstep
    simp only [Cached.step, Cached.fail]
    cases c.hit call with
    | some ans => exact h
    | none =>
      simp only [settle_error hcall]
      refine (left_cut h.tidy h.roll (mints_call cfg call) (call.watch cfg hstep h.tidy.toWf) accesses).coherent h
        fun account' v ans _ hk => Or.inr ⟨hk, ?_⟩
      rintro rfl hst hch
      have hout := List.all_eq_true.mp hnone _ (Call.outdated hagree hcall hk hst hch)
      rw [hk] at hout
      exact absurd hout (by simp)
  | tick now =>
    exact ⟨h.tidy.of_accounts (Evolves.setClock h.tidy.toWf now) fun _ => rfl, h.roll, h.memo⟩

theorem runs_coherent (cfg : Config) (acts : List CacheAct)
    (h : Schemes.steady (Cached.step cfg) (Cached.allows cfg) {} acts = true) :
    Coherent cfg (runs (Cached.step cfg) {} acts) :=
  runs_invariant (I := Coherent cfg) (fun _ act hc hok => hc.step act hok) acts {} (coherent_empty cfg) h

/-- An answer from the cache is the mailstore's. -/
theorem Coherent.hit (h : Coherent cfg c) (hnul : 0 ∉ call.account) (hroom : call.inRange c.node = true)
    (hhit : c.hit call = some ans) : ((call.prog cfg).exec c.node).2 = .ok ans := by
  obtain ⟨hlt, hroom⟩ := Bool.and_eq_true_iff.mp hroom
  have hmemo := h.memo (of_decide_eq_true hlt) call.account
  cases call with
  | listMailboxes account => exact exec_of_seen cfg h.tidy.toWf (hmemo .mailboxes ans hnul hhit)
  | mailboxStatus account mailbox => exact exec_of_seen cfg h.tidy.toWf (hmemo (.status mailbox) ans hnul hhit)
  | listMessages account mailbox => exact exec_of_seen cfg h.tidy.toWf (hmemo (.messages mailbox) ans hnul hhit)
  | messageByUID account mailbox uid =>
    simp only [Cached.hit] at hhit
    cases hm : c.memo (msgsKey account mailbox) with
    | none => simp [hm] at hhit
    | some found =>
      cases found with
      | messages msgs =>
        rw [hm] at hhit
        obtain ⟨m, hfind, rfl⟩ := Option.map_eq_some_iff.mp hhit
        refine exec_messageByUID_seen cfg h.tidy.toWf (fun p hp => ?_) (hmemo (.messages mailbox) _ hnul hm) hfind
        simp only [hp, Option.all_some, decide_eq_true_eq] at hroom
        exact hroom
      | _ => simp [hm] at hhit
  | _ => simp [Cached.hit] at hhit

end

/-- COHERENT: after every run within the condition, what the decorator answers a call is what the mailstore
    would answer it. -/
theorem cache_coherent (cfg : Config) (acts : List CacheAct) (call : Call)
    (hrun : Schemes.steady (Cached.step cfg) (Cached.allows cfg) {} acts = true) (hnul : 0 ∉ call.account)
    (hroom : call.inRange (runs (Cached.step cfg) {} acts).node = true) :
    ((runs (Cached.step cfg) {} acts).call cfg call).2 =
      ((call.prog cfg).exec (runs (Cached.step cfg) {} acts).node).2 := by
  have h := runs_coherent cfg acts hrun
  unfold Cached.call
  cases hhit : (runs (Cached.step cfg) {} acts).hit call with
  | some ans => exact (h.hit hnul hroom hhit).symm
  | none => rfl

/-- A message is delivered, the mailbox is asked for, and a delivery to another one fails half-way. -/
def delivering : List CacheAct :=
  [.call (.append [97] [98] { data := [120] }), .call (.listMessages [97] [98]), .call (.mailboxStatus [97] [98]),
    .fail (.append [97] [99] { data := [121] }) 9]

/-- The message is answered from the cache as the mailstore answers it. -/
theorem cache_coherent_delivering :
    Schemes.steady (Cached.step Config.plain) (Cached.allows Config.plain) {} delivering = true ∧
      ((runs (Cached.step Config.plain) {} delivering).call Config.plain (.messageByUID [97] [98] 1)).2 =
        (((Call.messageByUID [97] [98] 1).prog Config.plain).exec
          (runs (Cached.step Config.plain) {} delivering).node).2 :=
  ⟨by decide +kernel, cache_coherent Config.plain delivering _ (by decide +kernel) (by decide)
    (by decide +kernel)⟩

/-- A mailbox is created, asked for and subscribed. -/
def subscribing : List CacheAct :=
  [.call (.createMailbox [97] [98]), .call (.mailboxStatus [97] [98]), .call (.setSubscribed [97] [98] true)]

/-- The status that was memoized before the subscription is still answered. -/
theorem subscription_goes_stale :
    ((runs (Cached.step Config.plain) {} subscribing).call Config.plain (.mailboxStatus [97] [98])).2 ≠
      (((Call.mailboxStatus [97] [98]).prog Config.plain).exec
        (runs (Cached.step Config.plain) {} subscribing).node).2 := by
  decide +kernel

end Mailezine.Mailstore
