import Mailezine.Mailstore.Registry
import Mailezine.Mailstore.Writers
import Mailezine.Mailstore.Upkeep

/-! What callers see of an account, and what the operations leave of it.

    A view is something that may be memoized: the list of mailboxes, the messages of a mailbox, the status
    of a mailbox. Each view is a function of the stored account alone. An operation of one address leaves
    every view of the other addresses, and every view of its own address that is not of a mailbox it
    writes. -/

namespace Mailezine.Mailstore
open Gostd Schemes Store

/-! ### Views and their keys -/

/-- What may be memoized of an account. -/
inductive View where
  | mailboxes
  | messages (mailbox : Str)
  | status (mailbox : Str)

/-- The key under which a view is memoized. -/
def View.key (account : Str) : View → Str
  | .mailboxes => mboxesKey account
  | .messages mailbox => msgsKey account mailbox
  | .status mailbox => mboxKey account mailbox

/-- The mailbox of a view. -/
def View.box : View → Option Str
  | .mailboxes => none
  | .messages mailbox => some mailbox
  | .status mailbox => some mailbox

/-- The keys of addresses without a NUL byte are all different. -/
theorem View.key_inj {account account' : Str} {v v' : View} (ha : 0 ∉ account) (ha' : 0 ∉ account')
    (h : v.key account = v'.key account') : account = account' ∧ v = v' := by
  have hmsgs : ascii "msgs" = [109, 115, 103, 115] := by decide
  have hmboxes : ascii "mboxes" = [109, 98, 111, 120, 101, 115] := by decide
  have hmbox : ascii "mbox" = [109, 98, 111, 120] := by decide
  cases v <;> cases v' <;>
    simp only [View.key, mboxesKey, msgsKey, mboxKey, hmsgs, hmboxes, hmbox, List.cons_append, List.nil_append,
      List.cons.injEq] at h
  case mailboxes.mailboxes => exact ⟨by simpa using h, rfl⟩
  case messages.messages =>
    obtain ⟨rfl, rfl⟩ := append_nul_inj ha ha' (by simpa using h)
    exact ⟨rfl, rfl⟩
  case status.status =>
    obtain ⟨rfl, rfl⟩ := append_nul_inj ha ha' (by simpa using h)
    exact ⟨rfl, rfl⟩
  all_goals simp at h

/-! ### What is seen -/

/-- The mailbox of this name exists and is subscribed. -/
def subscribedIn (x : Account) (name : Str) : Bool :=
  ((x.nameIdx[name]?).bind fun mb => (x.mailboxes[mb]?).bind (·.subscribed)).getD false

theorem subscribedIn_eq {x : Account} {name : Str} {mb : Nat} {md : MailboxDoc} (hidx : x.nameIdx[name]? = some mb)
    (hmd : x.mailboxes[mb]? = some md) : subscribedIn x name = md.subscribed.getD false := by
  simp [subscribedIn, hidx, hmd]

/-- INBOX and the subscribed default mailboxes are there. -/
def provisioned (cfg : Config) (x : Account) : Bool :=
  (x.nameIdx[inbox]?).isSome && cfg.defaultMailboxes.all (subscribedIn x)

/-- The mailboxes of an account, before their messages are counted. -/
def entries (x : Account) : List MailboxEntry :=
  x.mailboxes.toList.map fun r => entryOf r.2 [] (x.lastUID r.1 + 1)

/-- The messages of an account. -/
def letters (x : Account) : List Email :=
  (x.emails.toList.filter (·.2.sentinel)).map fun r => emailFromFields r.1 r.2

/-- The metadata of a mailbox. -/
def metaOf (x : Account) (name : Str) (mb : Nat) (md : MailboxDoc) : Mailbox :=
  ⟨name, md.uidValidity.getD 0, u32 (x.lastUID mb + 1), md.subscribed.getD false, md.modSeq.getD 0⟩

/-- What an account shows. The list of mailboxes is a view of it only when listing them founds none. -/
def View.of (cfg : Config) (x : Account) : View → Option Answer
  | .mailboxes => if provisioned cfg x then some (.mailboxes (mailboxList (entries x) (letters x))) else none
  | .messages name => (x.nameIdx[name]?).map fun mb => .messages ((listing x mb).map messageFromEmail)
  | .status name => (x.nameIdx[name]?).bind fun mb =>
      (x.mailboxes[mb]?).map fun md => .status (metaOf x name mb md, countEmails (listing x mb))

/-- What an address shows. -/
def seen (cfg : Config) (n : Node) (account : Str) (v : View) : Option Answer :=
  (n.kv.registry[account]?).bind fun a => v.of cfg (n.kv.account a)

/-- The mailbox of this name looks the same. -/
structure SameBox (name : Str) (x y : Account) : Prop where
  idx : ∀ mb : Nat, x.nameIdx[name]? = some mb → y.nameIdx[name]? = some mb
  doc : ∀ mb : Nat, x.nameIdx[name]? = some mb → y.mailboxes[mb]? = x.mailboxes[mb]?
  uid : ∀ mb : Nat, x.nameIdx[name]? = some mb → y.lastUID mb = x.lastUID mb
  view : ∀ mb : Nat, x.nameIdx[name]? = some mb → SameView mb x y

section
variable {cfg : Config} {x y : Account} {n n' n'' : Node} {account name : Str} {v : View} {ans : Answer}

theorem SameBox.of (h : SameBox name x y) (hv : v.box = some name) (hx : v.of cfg x = some ans) :
    v.of cfg y = some ans := by
  cases v with
  | mailboxes => simp [View.box] at hv
  | messages nm =>
    obtain rfl : nm = name := Option.some.inj hv
    obtain ⟨mb, hmb, rfl⟩ := Option.map_eq_some_iff.mp hx
    simp only [View.of, h.idx mb hmb, Option.map_some, (h.view mb hmb).listing]
  | status nm =>
    obtain rfl : nm = name := Option.some.inj hv
    obtain ⟨mb, hmb, hbox⟩ := Option.bind_eq_some_iff.mp hx
    obtain ⟨md, hmd, rfl⟩ := Option.map_eq_some_iff.mp hbox
    simp only [View.of, h.idx mb hmb, Option.bind_some, h.doc mb hmb, hmd, Option.map_some, metaOf, h.uid mb hmb,
      (h.view mb hmb).listing]

/-! ### What is left -/

/-- Every view is as it was, but for those of `account` that `W` lists. -/
def Leaves (cfg : Config) (account : Str) (W : View → Answer → Prop) (n n' : Node) : Prop :=
  ∀ (account' : Str) (v : View) (ans : Answer), (account' = account → ¬W v ans) →
    seen cfg n account' v = some ans → seen cfg n' account' v = some ans

/-- No two addresses stand for one account. -/
def Distinct (n : Node) : Prop :=
  ∀ (email email' : Str) (a : Nat), n.kv.registry[email]? = some a → n.kv.registry[email']? = some a →
    email = email'

variable {W W' : View → Answer → Prop} {a mb : Nat} {kv' : KV}

theorem Leaves.refl (n : Node) : Leaves cfg account W n n := fun _ _ _ _ h => h

theorem Leaves.trans (h : Leaves cfg account W n n') (h' : Leaves cfg account W n' n'') :
    Leaves cfg account W n n'' :=
  fun account' v ans hW hseen => h' account' v ans hW (h account' v ans hW hseen)

/-- Accounts that stay as they are under addresses that stay. -/
theorem Leaves.of_accounts (hreg : ∀ (email : Str) (c : Nat), n.kv.registry[email]? = some c →
      n'.kv.registry[email]? = some c) (hacct : ∀ c, n'.kv.account c = n.kv.account c) :
    Leaves cfg account W n n' := by
  intro account' v ans _ hseen
  obtain ⟨c, hc, hv⟩ := Option.bind_eq_some_iff.mp hseen
  exact Option.bind_eq_some_iff.mpr ⟨c, hreg account' c hc, by rw [hacct]; exact hv⟩

/-- A change of the account of one address. -/
theorem Leaves.of_touches {email : Str} (hd : Distinct n) (hreg : n.kv.registry[email]? = some a)
    (ht : Touches a y n.kv kv') (hy : ∀ v ans, (email = account → ¬W v ans) →
      v.of cfg (n.kv.account a) = some ans → v.of cfg y = some ans) :
    Leaves cfg account W n (n.withKV kv') := by
  intro account' v ans hW hseen
  obtain ⟨c, hc, hv⟩ := Option.bind_eq_some_iff.mp hseen
  refine Option.bind_eq_some_iff.mpr ⟨c, (congrArg (·[account']?) ht.registry).trans hc, ?_⟩
  obtain ⟨l, hl⟩ := ht.account c
  rw [Node.kv_withKV, hl]
  have hlinks : ∀ z : Account, v.of cfg (z.withLinks l) = v.of cfg z := fun z => by cases v <;> rfl
  rw [hlinks]
  split_ifs with hac
  · subst hac
    obtain rfl := hd account' email a hc hreg
    exact hy v ans hW hv
  · exact hv

/-- The account of `account` became `y`, and addresses may have been added. -/
theorem Leaves.of_account (hd : Distinct n') (hreg : n'.kv.registry[account]? = some a)
    (hkeep : ∀ (email : Str) (c : Nat), n.kv.registry[email]? = some c → n'.kv.registry[email]? = some c)
    (hacct : ∀ c, n'.kv.account c = if a = c then y else n.kv.account c)
    (hy : ∀ v ans, ¬W v ans → v.of cfg (n.kv.account a) = some ans → v.of cfg y = some ans) :
    Leaves cfg account W n n' := by
  intro account' v ans hW hseen
  obtain ⟨c, hc, hv⟩ := Option.bind_eq_some_iff.mp hseen
  have hc' := hkeep account' c hc
  refine Option.bind_eq_some_iff.mpr ⟨c, hc', ?_⟩
  rw [hacct]
  split_ifs with hac
  · subst hac
    exact hy v ans (hW (hd account' account a hc' hreg)) hv
  · exact hv

theorem Roll.distinct (h : Roll n) (hlt : n.kv.lastAccount < 2 ^ 32) : Distinct n := (h hlt).2

/-! ### Operations on messages -/

theorem SameBox.of_eq (hidx : y.nameIdx = x.nameIdx) (hdoc : ∀ mb : Nat, x.nameIdx[name]? = some mb →
      y.mailboxes[mb]? = x.mailboxes[mb]? ∧ y.lastUID mb = x.lastUID mb ∧ SameView mb x y) : SameBox name x y :=
  ⟨fun mb h => by rw [hidx]; exact h, fun mb h => (hdoc mb h).1, fun mb h => (hdoc mb h).2.1,
    fun mb h => (hdoc mb h).2.2⟩

theorem sameBox_addMailbox (hx : x.Wf) {new : Str} (hnew : x.nameIdx[new]? = none) :
    SameBox name x (x.addMailbox new) := by
  refine ⟨(hx.grows_addMailbox hnew).name name, fun mb hmb => ?_, fun _ _ => rfl,
    fun mb _ => ⟨rfl, fun _ _ _ => rfl⟩⟩
  obtain ⟨md, hmd, -⟩ := hx.name_mailbox name mb hmb
  rw [mailboxes_addMailbox, if_neg]
  rintro rfl
  rw [hx.no_next_mailbox] at hmd
  cases hmd

theorem name_ne_of_idx (hx : x.Wf) {other : Str} {mb' : Nat} (hidx : x.nameIdx[other]? = some mb')
    (hmb : x.nameIdx[name]? = some mb) (hne : other ≠ name) : mb' ≠ mb := by
  rintro rfl
  obtain ⟨md, hmd, hname⟩ := hx.name_mailbox other mb' hidx
  obtain ⟨md', hmd', hname'⟩ := hx.name_mailbox name mb' hmb
  obtain rfl := Option.mem_unique hmd hmd'
  exact hne (Option.mem_unique hname hname')

theorem sameBox_putMailbox (hx : x.Wf) {other : Str} {f : MailboxDoc} (hidx : x.nameIdx[other]? = some mb)
    (hne : other ≠ name) : SameBox name x (x.putMailbox mb f) := by
  obtain ⟨md, hmd, -⟩ := hx.name_mailbox other mb hidx
  refine .of_eq rfl fun mb' hmb' => ⟨?_, rfl, rfl, fun _ _ _ => rfl⟩
  rw [mailboxes_putMailbox hmd, if_neg (name_ne_of_idx hx hidx hmb' hne)]

theorem updateEmails_mailboxes : ∀ (docs : List (Nat × EmailDoc)) (x : Account),
    (docs.foldl Account.updateEmail x).nameIdx = x.nameIdx ∧
    (docs.foldl Account.updateEmail x).mailboxes = x.mailboxes ∧
    (docs.foldl Account.updateEmail x).lastUID = x.lastUID
  | [], _ => ⟨rfl, rfl, rfl⟩
  | u :: docs, x => updateEmails_mailboxes docs (x.updateEmail u)

/-- A write leaves the mailboxes that there is no right to. -/
theorem Write.sameBox {Ω : Rights} {account' : Str} {g g' : Bumped} (hn : n.Tidy)
    (h : Write cfg Ω (StillThere (fun _ => True) n a) account' a n g y g')
    (hin : ∀ nm, Ω.into account' nm → nm ≠ name) (hraise : ∀ nm, Ω.raise account' nm → nm ≠ name) :
    SameBox name (n.kv.account a) y := by
  have hx := hn.account a
  cases h with
  | create nm hinto hnew => exact sameBox_addMailbox hx hnew
  | bump nm mb hmay hidx => exact sameBox_putMailbox hx hidx (hraise nm hmay)
  | deliver nm mb msg now hinto hidx _ =>
    have hbox : SameBox name (n.kv.account a) _ := sameBox_putMailbox (f :=
      { modSeq := some ((n.kv.account a).modSeq mb + 1) }) hx hidx (hin nm hinto)
    refine .of_eq rfl fun mb' hmb' => ⟨hbox.doc mb' hmb', ?_, ?_, fun uid id hr => ?_⟩
    · have hne := name_ne_of_idx hx hidx hmb' (hin nm hinto)
      exact Function.update_of_ne (fun e => hne e.symm) _ _
    · have hne := name_ne_of_idx hx hidx hmb' (hin nm hinto)
      exact Function.update_of_ne (fun e => hne e.symm) _ _
    · have := (hx.owns hr).id_le
      rw [hx.emails_delivered, if_neg (by omega)]
  | flags nm mb m docs hidx _ _ hdocs =>
    obtain ⟨hnames, hboxes, huids⟩ := updateEmails_mailboxes docs (n.kv.account a)
    refine .of_eq hnames fun mb' hmb' => ⟨by rw [hboxes], by rw [huids], by rw [emailIdx_updateEmails],
      fun uid id hr => ?_⟩
    refine emails_updateEmails_other docs _ id fun hmem => ?_
    obtain ⟨u, hu, rfl⟩ := List.mem_map.mp hmem
    obtain ⟨⟨uid', hheld, hflag⟩, -⟩ := hdocs u hu
    have hne := name_ne_of_idx hx hidx hmb' (hraise nm (.inl ⟨uid', hflag⟩))
    exact hne ((hx.owns hheld.1).only mb' uid hr).1.symm
  | remove nm mb uid id d tomb htake hidx ho hd _ _ =>
    have hne : ∀ mb', (n.kv.account a).nameIdx[name]? = some mb' → mb ≠ mb' := fun mb' hmb' =>
      name_ne_of_idx hx hidx hmb' (hraise nm (.inr htake))
    refine ⟨fun mb' h => ?_, fun mb' _ => ?_, fun mb' _ => ?_, fun mb' hmb' => ⟨?_, fun uid' id' hr => ?_⟩⟩
    · cases tomb <;> exact h
    · cases tomb <;> rfl
    · cases tomb <;> rfl
    · cases tomb <;> exact Function.update_of_ne (fun e => hne mb' hmb' e.symm) _ _
    · rw [emails_delete, if_neg]
      rintro rfl
      exact hne mb' hmb' (ho.only mb' uid' hr).1.symm
  | phantom id d hp hd => exact absurd hp ((hn.tidy a).no_phantom hd)

/-- A write to an account that there is no right to changes nothing. -/
theorem Write.unchanged {Ω : Rights} {held : Nat → Nat → Nat → Prop} {g g' : Bumped} (hn : n.Tidy)
    (h : Write cfg Ω held account a n g y g') (hin : ∀ nm, ¬Ω.into account nm)
    (hraise : ∀ nm, ¬Ω.raise account nm) : n.kv.account a = y := by
  cases h with
  | create nm hi => exact absurd hi (hin nm)
  | bump nm mb hmay => exact absurd hmay (hraise nm)
  | deliver nm mb msg now hi => exact absurd hi (hin nm)
  | flags nm mb m docs _ _ _ hdocs =>
    cases docs with
    | nil => rfl
    | cons u docs =>
      obtain ⟨⟨uid, -, hf⟩, -⟩ := hdocs u (by simp)
      exact absurd (.inl ⟨uid, hf⟩) (hraise nm)
  | remove nm mb uid id d tomb htake => exact absurd (.inr htake) (hraise nm)
  | phantom id d hp hd => exact absurd hp ((hn.tidy a).no_phantom hd)

/-- What an operation may do that writes the mailboxes `boxes` of `account`. -/
def boxRights (account : Str) (boxes : List Str) : Rights where
  into account' name := account' = account ∧ name ∈ boxes
  flag account' name _ := account' = account ∧ name ∈ boxes
  take account' name := account' = account ∧ name ∈ boxes

/-- The views that such an operation may change. -/
def boxViews (boxes : List Str) (v : View) (_ : Answer) : Prop := ∀ name, v.box = some name → name ∈ boxes

theorem not_boxViews {boxes : List Str} (h : ¬boxViews boxes v ans) : ∃ nm, v.box = some nm ∧ nm ∉ boxes := by
  by_contra hall
  exact h fun nm hbox => not_not.mp fun hnot => hall ⟨nm, hbox, hnot⟩

/-- A step of an operation on `account`: accounts stay tidy, and all views but those in `W` stay. -/
structure Shows (cfg : Config) (account : Str) (W : View → Answer → Prop) (n n' : Node) : Prop
    extends Upkeep (fun _ => ¬True) n n' where
  leaves : n.Tidy → Distinct n → Leaves cfg account W n n'

theorem Quiet.shows (h : Quiet n n') (hn : n.Wf) : Shows cfg account W n n' :=
  ⟨h.upkeep hn, fun _ _ => .of_accounts h.registry h.account⟩

theorem Write.weaken {Ω Ω' : Rights} {held : Nat → Nat → Nat → Prop} {g g' : Bumped}
    (h : Write cfg Ω held account a n g y g') (hin : ∀ nm, Ω.into account nm → Ω'.into account nm)
    (hflag : ∀ nm uid, Ω.flag account nm uid → Ω'.flag account nm uid)
    (htake : ∀ nm, Ω.take account nm → Ω'.take account nm)
    (hhush : ∀ nm, Ω.hush account nm → Ω'.hush account nm) : Write cfg Ω' held account a n g y g' := by
  cases h with
  | create nm hi hnew => exact .create nm (hin nm hi) hnew
  | bump nm mb hmay hidx =>
    exact .bump nm mb (hmay.imp (fun ⟨uid, hf⟩ => ⟨uid, hflag nm uid hf⟩) (htake nm)) hidx
  | deliver nm mb msg now hi hidx hb => exact .deliver nm mb msg now (hin nm hi) hidx hb
  | flags nm mb m docs hidx hg hm hdocs =>
    exact .flags nm mb m docs hidx hg hm fun u hu =>
      (hdocs u hu).imp_left fun ⟨uid, hh, hf⟩ => ⟨uid, hh, hflag nm uid hf⟩
  | remove nm mb uid id d tomb ht hidx ho hd hg hq =>
    exact .remove nm mb uid id d tomb (htake nm ht) hidx ho hd hg fun h => hhush nm (hq h)
  | phantom id d hp hd => exact .phantom id d hp hd

theorem Write.shows {boxes : List Str} {account' : Str} {g g' : Bumped} (hn : n.Wf)
    (hreg : n.kv.registry[account']? = some a)
    (h : Write cfg (boxRights account boxes) (StillThere (fun _ => True) n a) account' a n g y g')
    (ht : Touches a y n.kv kv') : Shows cfg account (boxViews boxes) n (n.withKV kv') := by
  have hall : Write cfg (rightsOn (fun _ => True) fun _ => True) (StillThere (fun _ => True) n a) account' a n g
      y g' := h.weaken (fun _ _ => trivial) (fun _ _ _ => trivial) (fun _ _ => trivial) fun _ _ => trivial
  refine ⟨hall.upkeep hn ht, fun htidy hd => ?_⟩
  by_cases he : account' = account
  · refine .of_touches hd hreg ht fun v ans hW hv => ?_
    obtain ⟨name, hbox, hnot⟩ := not_boxViews (hW he)
    refine (h.sameBox htidy ?_ ?_).of hbox hv
    · rintro _ ⟨-, hb⟩ rfl
      exact hnot hb
    · rintro _ (⟨_, -, hb⟩ | ⟨-, hb⟩) rfl <;> exact hnot hb
  · obtain rfl := h.unchanged htidy (fun _ hi => he hi.1) fun _ hr => he (hr.elim (fun ⟨_, h⟩ => h.1) (·.1))
    exact .of_touches hd hreg ht fun _ _ _ hv => hv

/-- The regime of a call that runs alone. -/
theorem watcher {γ : Type} (cfg : Config) (account : Str) (W : View → Answer → Prop) :
    Regime (fun n t => n.Wf ∧ Idle n t) Unmoved fun (_ : γ) n n' _ => Shows cfg account W n n' where
  trans := (alone (γ := γ)).trans
  evolves := (alone (γ := γ)).evolves
  rely := (alone (γ := γ)).rely
  quiet := (alone (γ := γ)).quiet
  guar _ hn hq := hq.shows hn

/-- The regime of an operation on messages that runs alone. -/
theorem viewer (cfg : Config) (account : Str) (boxes : List Str) :
    Writer cfg (boxRights account boxes) (StillThere fun _ => True) (fun n t => n.Wf ∧ Idle n t) Unmoved
      fun _ n n' _ => Shows cfg account (boxViews boxes) n n' where
  toRegime := watcher cfg account (boxViews boxes)
  held_row {_ _ name _ _ _ _} _ hidx _ hr := ⟨hr, name, trivial, hidx⟩
  held_owns hn hs := (hn.account _).owns hs.1
  held_keep {_ _ a _ _ _} h hs := by
    unfold StillThere
    rw [h.account a]
    exact hs
  held_bump {n a mb uid id} _ hev hs := by
    obtain ⟨hr, name, hf, hidx⟩ := hs
    refine ⟨?_, name, hf, (hev.account a).name name mb hidx⟩
    rw [Node.kv_withKV, bumpMailboxModSeq, KV.account_modify, if_pos rfl]
    exact hr
  write hn hreg hw ht := hw.shows hn hreg ht

theorem MailOp.within_boxRights (op : MailOp) : op.Within (boxRights op.account op.boxes) := by
  cases op with
  | deliver | setFlags | expunge | deleteUIDs => exact ⟨rfl, by simp [MailOp.boxes]⟩
  | setFlagsBatch account mailbox updates => exact fun _ _ => ⟨rfl, by simp [MailOp.boxes]⟩
  | copy => exact ⟨rfl, by simp [MailOp.boxes]⟩
  | move account src dst uids =>
    exact ⟨⟨rfl, by simp [MailOp.boxes]⟩, ⟨rfl, by simp [MailOp.boxes]⟩, fun _ => trivial⟩

/-! ### Founding and subscribing mailboxes -/

/-- The statuses that show a mailbox of these names with another subscription. -/
def otherwise (names : List Str) (b : Bool) (v : View) (ans : Answer) : Prop :=
  ∃ name ∈ names, v = .status name ∧ ∀ st, ans = .status st → st.1.subscribed ≠ b

theorem of_putMailbox_subscribed {md : MailboxDoc} {b : Bool} (hx : x.Wf) (hidx : x.nameIdx[name]? = some mb)
    (hmd : x.mailboxes[mb]? = some md) (hv : v.of cfg x = some ans) (hbox : v.box ≠ none)
    (hW : ¬otherwise [name] b v ans) : v.of cfg (x.putMailbox mb { subscribed := some b }) = some ans := by
  obtain ⟨nm, hnm⟩ := Option.ne_none_iff_exists'.mp hbox
  by_cases hne : name = nm
  · subst hne
    cases v with
    | mailboxes => exact absurd rfl hbox
    | messages nm =>
      obtain rfl : nm = name := Option.some.inj hnm
      exact hv
    | status nm =>
      obtain rfl : nm = name := Option.some.inj hnm
      obtain ⟨mb', hmb', hst⟩ := Option.bind_eq_some_iff.mp hv
      obtain rfl := Option.mem_unique hidx hmb'
      obtain ⟨md', hmd', rfl⟩ := Option.map_eq_some_iff.mp hst
      obtain rfl := Option.mem_unique hmd hmd'
      have hsub : md.subscribed.getD false = b := by
        by_contra hne
        exact hW ⟨nm, by simp, rfl, fun st hst => by cases hst; exact hne⟩
      have hidx' : (x.putMailbox mb { subscribed := some b }).nameIdx[nm]? = some mb := hidx
      simp only [View.of, hidx', Option.bind_some, mailboxes_putMailbox hmd, if_true, Option.map_some]
      simp [metaOf, MailboxDoc.put, hsub]
      rfl
  · exact (sameBox_putMailbox hx hidx hne).of hnm hv

theorem shows_addMailbox (hn : n.Wf) (hreg : n.kv.registry[account]? = some a)
    (hname : name = inbox ∨ name ∈ cfg.defaultMailboxes) (hidx : (n.kv.account a).nameIdx[name]? = none) :
    Shows cfg account W n (n.withKV (n.kv.modify a (·.addMailbox name))) := by
  refine ⟨upkeep_addMailbox hn hidx, fun _ hd =>
    .of_touches hd hreg (touches_modify a (·.addMailbox name) n.kv) fun v ans _ hv => ?_⟩
  cases hbox : v.box with
  | some nm => exact (sameBox_addMailbox (hn.account a) hidx).of hbox hv
  | none =>
    -- a list of mailboxes is seen only where the mailbox is already there
    obtain rfl : v = .mailboxes := by cases v <;> simp_all [View.box]
    obtain ⟨hprov, -⟩ := Option.ite_none_right_eq_some.mp hv
    obtain ⟨hin, hdef⟩ := Bool.and_eq_true_iff.mp hprov
    rcases hname with rfl | hmem
    · simp [hidx] at hin
    · have := List.all_eq_true.mp hdef name hmem
      simp [subscribedIn, hidx] at this

/-- Founding the default mailboxes changes only statuses that show one of them unsubscribed. -/
theorem watch_founds {γ : Type} (g : γ) (cfg : Config) (account : Str) : Founds (fun n t => n.Wf ∧ Idle n t)
      (fun _ n n' _ => Shows cfg account (otherwise cfg.defaultMailboxes true) n n') g account
      cfg.defaultMailboxes where
  create ht hreg hmem hidx := shows_addMailbox ht hreg (.inr hmem) hidx
  subscribe {t _ a mb name md} ht hreg hmem hidx hmd hsub hu := by
    obtain ⟨-, now, rfl⟩ := hu
    have htouch := touches_modify a (·.putMailbox mb { subscribed := some true }) (t.setClock now).kv
    refine ⟨htouch.upkeep_putMailbox (ht.setClock now) hidx rfl rfl, fun _ hd =>
      .of_touches hd hreg htouch fun v ans hW hv => ?_⟩
    by_cases hbox : v.box = none
    · obtain rfl : v = .mailboxes := by cases v <;> simp_all [View.box]
      obtain ⟨hprov, -⟩ := Option.ite_none_right_eq_some.mp hv
      have hshown : subscribedIn (t.kv.account a) name = true :=
        List.all_eq_true.mp (Bool.and_eq_true_iff.mp hprov).2 name hmem
      rw [subscribedIn_eq hidx hmd, hsub] at hshown
      cases hshown
    · refine of_putMailbox_subscribed (ht.account a) hidx hmd hv hbox fun h => hW rfl ?_
      obtain ⟨nm, hnm, hrest⟩ := h
      obtain rfl := List.mem_singleton.mp hnm
      exact ⟨nm, hmem, hrest⟩

/-- Logging a change leaves the views. -/
theorem of_logChange (c : Collection) (ch : Store.Change) : v.of cfg (x.logChange c ch) = v.of cfg x := by
  cases v <;> rfl

theorem watch_setSubscribed {γ : Type} (g : γ) (cfg : Config) (account mailbox : Str) (b : Bool) :
    Prog.Safe (fun n t => n.Wf ∧ Idle n t)
      (fun _ n n' _ => Shows cfg account (fun v ans => v = .mailboxes ∨ otherwise [mailbox] b v ans) n n')
      (fun _ _ _ => True) g (setSubscribed account mailbox b) n := by
  let ρ := watcher (γ := γ) cfg account fun v ans => v = .mailboxes ∨ otherwise [mailbox] b v ans
  refine Prog.Safe.bind (ρ.resolve (fun t a mb ht hres => ?_) fun _ _ => trivial)
  rintro _ ⟨hw, now, rfl⟩
  obtain ⟨md, hmd, -⟩ := (hw.account a).name_mailbox mailbox mb hres.idx
  have htouch := touches_modify a (fun x => (x.putMailbox mb { subscribed := some b }).logChange .mailbox
    ⟨mb, .update, none⟩) (t.setClock now).kv
  have hseq : ∀ m, ({ subscribed := some b } : MailboxDoc).modSeq = some m →
      (t.kv.account a).modSeq mb ≤ m := fun m h => by simp at h
  have hev : Evolves (t.setClock now) _ := htouch.evolves (hw.setClock now)
    (((hw.account a).putMailbox hmd rfl hseq).logChange _ _)
    ((Account.grows_putMailbox hmd rfl hseq).logChange _ _) (hw.blob a)
  refine ⟨g, ⟨.of_touches htouch hev (fun _ _ _ _ _ _ hr => hr)
    fun hx => (hx.putMailbox hmd rfl hseq).logChange _ _, fun _ hd => ?_⟩, trivial⟩
  refine .of_touches hd hres.reg htouch fun v ans hW hv => ?_
  obtain ⟨hne, hother⟩ := not_or.mp (hW rfl)
  refine (of_logChange _ _).trans (of_putMailbox_subscribed (hw.account a) hres.idx hmd hv ?_ hother)
  cases v <;> simp_all [View.box]

/-! ### What a call leaves -/

/-- What a call on `account` that writes the views `W` leaves of the node: as long as account numbers last,
    all other views. -/
structure Left (cfg : Config) (account : Str) (W : View → Answer → Prop) (n n' : Node) : Prop where
  tidy : n'.Tidy
  roll : Roll n'
  last : n.kv.lastAccount ≤ n'.kv.lastAccount
  leaves : n'.kv.lastAccount < 2 ^ 32 → Leaves cfg account W n n'

theorem Left.refl (hn : n.Tidy) (hr : Roll n) : Left cfg account W n n :=
  ⟨hn, hr, le_rfl, fun _ => .refl n⟩

theorem Left.step (h : Left cfg account W n n') (hs : Shows cfg account W n' n'') (hm : Mints n' n'') :
    Left cfg account W n n'' := by
  refine ⟨hs.tidy h.tidy, hm.roll h.roll, h.last.trans hm.last_le, fun hlt => ?_⟩
  have hlt' := hm.last_le.trans_lt hlt
  exact (h.leaves hlt').trans (hs.leaves h.tidy (h.roll.distinct hlt'))

section
variable {γ α : Type} {g : γ} {Q : γ → Except Err α → Node → Prop} {p : Op α}

theorem left_exec (hn : n.Tidy) (hr : Roll n) (hm : p.Each Mints)
    (h : Prog.Safe (fun n t => n.Wf ∧ Idle n t) (fun _ n n' _ => Shows cfg account W n n') Q g p n) :
    Left cfg account W n (p.exec n).1 := by
  obtain ⟨_, hleft, -⟩ := (h.each hm).exec (I := fun _ t => Left cfg account W n t)
    (fun _ t ht => ⟨ht.tidy.toWf, Idle.refl t⟩) (fun _ _ _ _ ht hs => ht.step hs.1 hs.2) (.refl hn hr)
  exact hleft

theorem left_cut (hn : n.Tidy) (hr : Roll n) (hm : p.Each Mints)
    (h : Prog.Safe (fun n t => n.Wf ∧ Idle n t) (fun _ n n' _ => Shows cfg account W n n') Q g p n) (i : Nat) :
    Left cfg account W n (p.cut i n) :=
  (h.each hm).cut (I := fun t => Left cfg account W n t) (fun t ht => ⟨ht.tidy.toWf, Idle.refl t⟩)
    (fun _ _ _ _ ht hs => ht.step hs.1 hs.2) (.refl hn hr) i

end

end

end Mailezine.Mailstore
