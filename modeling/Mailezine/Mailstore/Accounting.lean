import Mailezine.Mailstore.KV
import Mailezine.Schemes.Threads
import Mailezine.Store.GcSafety
import Mathlib.Algebra.Order.BigOperators.Group.List

/-! Conservation of quota and blob links.

    An account's quota counter and its blob link counters are totals over its Email documents, kept
    in rows of their own. `StoreOp` lists the transactions that the mailstore issues, with the fields
    each of them writes: a delivery writes the blob ID and the size that it also charges, and an update
    writes neither. Updates are upserts, so one that comes late writes rows of a document that is
    gone, or that never was; such rows have no blob and no size, and weigh nothing. Sizes and the quota
    counter are `int64`: the counter is the total while the total fits. -/

namespace Mailezine.Mailstore
open Schemes Store

/-! ### The transactions that the mailstore issues -/

/-- A delivery as `Deliver` and `Append` stage it: the document's blob and size rows are the request's
    own, and the size is a length. -/
structure IssuedRequest extends DeliverRequest where
  blob_eq : fields.blob = some blobID
  blobID_ne : blobID ≠ []
  size_eq : fields.size = some size
  size_nonneg : 0 ≤ size.toInt

/-- The entry of `enqueue`; no slice is longer than an `int64` can say. -/
def issue (cfg : Config) (mb : Nat) (mailbox : Str) (msg : Incoming) (now : Nat)
    (hlen : msg.data.length < 2 ^ 63) : IssuedRequest where
  toDeliverRequest := deliverRequest cfg mb mailbox msg now
  blob_eq := rfl
  blobID_ne := by simp [deliverRequest, blobIDOf, ascii]
  size_eq := rfl
  size_nonneg := by
    show (0 : Int) ≤ (Int64.ofNat msg.data.length).toInt
    rw [Int64.toInt_ofNat_of_lt hlen]
    exact Int.natCast_nonneg _

/-- The fields that updates of an Email document write. -/
structure FieldUpdate where
  flags : Option Str := none
  keywords : Option Str := none
  modSeq : Option Nat := none
  mailbox : Option Str := none

/-- The rows of an update. -/
def FieldUpdate.doc (u : FieldUpdate) : EmailDoc :=
  { flags := u.flags, keywords := u.keywords, modSeq := u.modSeq, mailbox := u.mailbox }

/-- A transaction of the store, on any account. -/
inductive StoreOp where
  | deliverEmail (a : Nat) (r : IssuedRequest)
  | deliverEmailBatch (a : Nat) (rs : List IssuedRequest)
  | deleteEmailAtomically (a docID : Nat) (require : Option Str) (extra : List IndexOp) (now : Nat)
  | updateMailboxAtomically (a id : Nat) (fields : MailboxDoc) (extra : List IndexOp)
  | updateEmailsAtomically (a : Nat) (docs : List (Nat × FieldUpdate))
  | bumpMailboxModSeq (a mb : Nat)

/-- Run a transaction. -/
def StoreOp.run : StoreOp → Txn Unit
  | .deliverEmail a r, kv => ((deliverOne a r.toDeliverRequest kv).1, .ok ())
  | .deliverEmailBatch a rs, kv =>
    ((Store.deliverEmailBatch a (rs.map (·.toDeliverRequest)) kv).1, .ok ())
  | .deleteEmailAtomically a docID require extra now, kv =>
    Store.deleteEmailAtomically a docID require extra now kv
  | .updateMailboxAtomically a id fields extra, kv =>
    (Store.updateMailboxAtomically a id fields extra kv, .ok ())
  | .updateEmailsAtomically a docs, kv =>
    (Store.updateEmailsAtomically a (docs.map fun u => (u.1, u.2.doc)) kv, .ok ())
  | .bumpMailboxModSeq a mb, kv => ((Store.bumpMailboxModSeq a mb kv).1, .ok ())

/-- The store after a transaction. -/
def StoreOp.after (kv : KV) (op : StoreOp) : KV := (op.run kv).1

/-- The store after a run. -/
def runOps (ops : List StoreOp) (kv : KV) : KV := runs StoreOp.after kv ops

/-! ### Totals -/

/-- The bytes that a document is charged with. -/
def charge (d : EmailDoc) : Nat := (d.size.getD 0).toInt.toNat

/-- The sizes of an account's documents together. -/
def storedBytes (x : Account) : Int := (x.emails.toList.map fun r => (r.2.size.getD 0).toInt).sum

/-- The sizes fit in an `int64` also with what the transaction adds. -/
def StoreOp.fits (kv : KV) : StoreOp → Bool
  | .deliverEmail a r => storedBytes (kv.account a) + r.size.toInt < 2 ^ 63
  | .deliverEmailBatch a rs => storedBytes (kv.account a) + (rs.map (·.size.toInt)).sum < 2 ^ 63
  | _ => true

/-- Whether a document counts as a link of the blob. -/
def linksTo (b : Str) (d : EmailDoc) : Nat := if d.blob = some b then 1 else 0

theorem linkers_eq_weigh (x : Account) (b : Str) : x.linkers b = weigh (linksTo b) x.emails :=
  countP_scan_eq_weigh (fun d : EmailDoc => d.blob = some b) x.emails

/-- The rows of a document that deliveries and updates wrote. Rows above the document counter were left
    by updates only. -/
structure Sound (last id : Nat) (d : EmailDoc) : Prop where
  named : d.blob ≠ some []
  sized : 0 ≤ (d.size.getD 0).toInt
  unborn : last < id → d.blob = none ∧ d.size = none

/-- An account whose link counters are the totals. -/
structure Balanced (x : Account) : Prop where
  links : ∀ b, x.refs b = weigh (linksTo b) x.emails
  docs : ∀ (id : Nat) d, x.emails[id]? = some d → Sound x.lastEmail id d

/-- The quota counter is the total. -/
def Charged (x : Account) : Prop := x.quota.toInt = weigh charge x.emails

theorem balanced_empty : Balanced {} where
  links := fun _ => rfl
  docs := by simp

variable {x : Account} {kv : KV}

theorem Balanced.storedBytes_eq (h : Balanced x) : storedBytes x = weigh charge x.emails := by
  have hsum : ∀ l : List (Nat × EmailDoc), (∀ r ∈ l, 0 ≤ (r.2.size.getD 0).toInt) →
      (l.map fun r => (r.2.size.getD 0).toInt).sum = ((l.map fun r => charge r.2).sum : Nat) := by
    intro l
    induction l with
    | nil => exact fun _ => rfl
    | cons r l ih =>
      intro hl
      have hr : (charge r.2 : Int) = (r.2.size.getD 0).toInt := Int.toNat_of_nonneg (hl r (by simp))
      simp only [List.map_cons, List.sum_cons, Nat.cast_add, hr, ih fun q hq => hl q (by simp [hq])]
  exact hsum _ fun r hr => (h.docs r.1 r.2 (mem_scan.mp hr)).sized

/-- The counters and the documents are all that counts. -/
theorem Balanced.of_eq {y : Account} (h : Balanced x) (he : y.emails = x.emails)
    (hl : y.links = x.links) (hi : y.lastEmail = x.lastEmail) : Balanced y where
  links := fun b => by rw [he, ← h.links]; unfold Account.refs; rw [hl]
  docs := fun id d hd => hi ▸ h.docs id d (he ▸ hd)

/-- The document that a delivery writes over whatever is under the next ID. -/
theorem put_issued (d : EmailDoc) (r : IssuedRequest) (uid modSeq : Nat) :
    let e := d.put { r.fields with sentinel := true, uid := some uid, modSeq := some modSeq }
    e.blob = some r.blobID ∧ e.size = some r.size := by
  simp [EmailDoc.put, r.blob_eq, r.size_eq]

/-- What is under an ID that no delivery has had yet weighs nothing. -/
theorem Balanced.weightless (h : Balanced x) {id : Nat} (hid : x.lastEmail < id) :
    (x.emails[id]?).elim 0 charge = 0 ∧ ∀ b, (x.emails[id]?).elim 0 (linksTo b) = 0 := by
  cases hd : x.emails[id]? with
  | none => exact ⟨rfl, fun _ => rfl⟩
  | some d =>
    obtain ⟨hblob, hsize⟩ := (h.docs id d hd).unborn hid
    simp [charge, linksTo, hblob, hsize]

/-- The account after a delivery. -/
abbrev receive (r : IssuedRequest) (x : Account) : Account :=
  (x.deliver r.toDeliverRequest (x.nextIDs r.mailboxID)).link r.blobID

theorem emails_deliver (x : Account) (r : IssuedRequest) :
    (receive r x).emails =
      x.emails.insert (x.lastEmail + 1) (((x.emails[x.lastEmail + 1]?).getD {}).put
        { r.fields with sentinel := true, uid := some (x.lastUID r.mailboxID + 1),
                        modSeq := some (x.modSeq r.mailboxID + 1) }) := rfl

theorem Balanced.deliver (h : Balanced x) (r : IssuedRequest) :
    Balanced (receive r x) := by
  obtain ⟨hblob, hsize⟩ := put_issued ((x.emails[x.lastEmail + 1]?).getD {}) r
    (x.lastUID r.mailboxID + 1) (x.modSeq r.mailboxID + 1)
  obtain ⟨-, hlinks⟩ := h.weightless (Nat.lt_succ_self x.lastEmail)
  refine ⟨fun b => ?_, fun id d hd => ?_⟩
  · have hx := weigh_eq (linksTo b) x.emails (x.lastEmail + 1)
    have hrefs : (x.deliver r.toDeliverRequest (x.nextIDs r.mailboxID)).refs b = x.refs b := rfl
    rw [emails_deliver, weigh_insert, Account.refs_link, hrefs, h.links, hx, hlinks, linksTo, hblob]
    simp only [Option.some.injEq]
    omega
  · have hlast : (receive r x).lastEmail = x.lastEmail + 1 := rfl
    rw [hlast]
    rw [emails_deliver, getElem?_insert_row] at hd
    split_ifs at hd with hid
    · obtain rfl := Option.some.inj hd
      refine ⟨?_, hsize ▸ r.size_nonneg, by omega⟩
      rw [hblob]
      simpa using r.blobID_ne
    · have hd := h.docs id d hd
      exact ⟨hd.named, hd.sized, fun hlt => hd.unborn (by omega)⟩

/-- A delivery adds its size to the total. -/
theorem Balanced.weigh_deliver (h : Balanced x) (r : IssuedRequest) :
    (weigh charge (receive r x).emails : Int) = weigh charge x.emails + r.size.toInt := by
  obtain ⟨-, hsize⟩ := put_issued ((x.emails[x.lastEmail + 1]?).getD {}) r
    (x.lastUID r.mailboxID + 1) (x.modSeq r.mailboxID + 1)
  obtain ⟨hcharge, -⟩ := h.weightless (Nat.lt_succ_self x.lastEmail)
  have hx := weigh_eq charge x.emails (x.lastEmail + 1)
  have hpos := r.size_nonneg
  rw [emails_deliver, weigh_insert, hx, hcharge, charge, hsize, Option.getD_some]
  omega

/-- The counter of a delivery, while the total fits. -/
theorem Charged.deliver (hq : Charged x) (h : Balanced x) (r : IssuedRequest)
    (hfit : storedBytes x + r.size.toInt < 2 ^ 63) :
    Charged (receive r x) := by
  have hquota : (receive r x).quota = x.quota + r.size := rfl
  rw [h.storedBytes_eq] at hfit
  have hpos := r.size_nonneg
  rw [Charged, h.weigh_deliver, hquota, Int64.toInt_add, hq]
  exact Int.bmod_eq_of_le (by omega) (by omega)

theorem Balanced.remove (h : Balanced x) {docID : Nat} {d : EmailDoc}
    (hd : x.emails[docID]? = some d) (extra : List IndexOp) : Balanced (x.remove docID d extra) := by
  refine ⟨fun b => ?_, fun id e he => ?_⟩
  · have hx := weigh_eq (linksTo b) x.emails docID
    rw [hd, Option.elim_some] at hx
    rw [Account.refs_remove _ _ _ _ (h.docs docID d hd).named, Account.emails_remove, h.links, hx, linksTo]
    omega
  · rw [Account.emails_remove, getElem?_erase_row] at he
    rw [Account.lastEmail_remove]
    split_ifs at he
    exact h.docs id e he

/-- What is refunded was charged, so nothing is clamped. -/
theorem toInt_refund {used size : Int64} (h0 : 0 ≤ size.toInt) (hle : size.toInt ≤ used.toInt) :
    (refund used size).toInt = used.toInt - size.toInt := by
  unfold refund
  split_ifs with hz hneg
  · simp [hz]
  all_goals
    have hused := used.toInt_lt
    have hsub : (used - size).toInt = used.toInt - size.toInt := by
      rw [Int64.toInt_sub]
      exact Int.bmod_eq_of_le (by omega) (by omega)
  · rw [Int64.lt_iff_toInt_lt, hsub, Int64.toInt_zero] at hneg
    omega
  · exact hsub

theorem Charged.remove (hq : Charged x) (h : Balanced x) {docID : Nat} {d : EmailDoc}
    (hd : x.emails[docID]? = some d) (extra : List IndexOp) : Charged (x.remove docID d extra) := by
  have hx := weigh_eq charge x.emails docID
  rw [hd, Option.elim_some] at hx
  have hpos := (h.docs docID d hd).sized
  rw [Charged] at hq
  rw [Charged, Account.quota_remove, Account.emails_remove]
  unfold charge at hx hq ⊢
  rw [toInt_refund hpos (by omega)]
  omega

section Update
variable (x) (id : Nat) (u : FieldUpdate)

theorem put_update (d : EmailDoc) : (d.put u.doc).blob = d.blob ∧ (d.put u.doc).size = d.size := by
  simp [EmailDoc.put, FieldUpdate.doc]

theorem emails_update :
    (x.updateEmail (id, u.doc)).emails = x.emails.insert id (((x.emails[id]?).getD {}).put u.doc) := rfl

/-- An update keeps what a document weighs, also when there is no document. -/
theorem weigh_update {f : EmailDoc → Nat} (hf : ∀ d, f (d.put u.doc) = f d) (h0 : f {} = 0) :
    weigh f (x.updateEmail (id, u.doc)).emails = weigh f x.emails := by
  rw [emails_update, weigh_insert, hf, weigh_eq f x.emails id]
  cases x.emails[id]? with
  | none => simp [h0]
  | some d => rfl

variable {x}

theorem Balanced.updateEmail (h : Balanced x) : Balanced (x.updateEmail (id, u.doc)) := by
  refine ⟨fun b => ?_, fun i d hd => ?_⟩
  · rw [weigh_update x id u (fun d => by unfold linksTo; rw [(put_update u d).1]) rfl]
    exact h.links b
  · rw [emails_update, getElem?_insert_row] at hd
    split_ifs at hd with hid
    · have hold : Sound x.lastEmail i ((x.emails[id]?).getD {}) := by
        cases hx : x.emails[id]? with
        | none => exact ⟨by simp, by decide, fun _ => ⟨rfl, rfl⟩⟩
        | some e => exact h.docs i e (hid ▸ hx)
      obtain rfl := Option.some.inj hd
      obtain ⟨hblob, hsize⟩ := put_update u ((x.emails[id]?).getD {})
      exact ⟨hblob ▸ hold.named, hsize ▸ hold.sized, hblob ▸ hsize ▸ hold.unborn⟩
    · exact h.docs i d hd

theorem Charged.updateEmail (hq : Charged x) : Charged (x.updateEmail (id, u.doc)) := by
  rw [Charged, weigh_update x id u (fun d => by unfold charge; rw [(put_update u d).2]) rfl]
  exact hq

end Update

theorem Balanced.updateEmails (docs : List (Nat × FieldUpdate)) : ∀ {x : Account}, Balanced x →
    let y := (docs.map fun u => (u.1, u.2.doc)).foldl Account.updateEmail x
    Balanced y ∧ (Charged x → Charged y) := by
  induction docs with
  | nil => intro x h; exact ⟨h, fun hq => hq⟩
  | cons u docs ih =>
    intro x h
    obtain ⟨hb, hc⟩ := ih (h.updateEmail u.1 u.2)
    exact ⟨hb, fun hq => hc (hq.updateEmail u.1 u.2)⟩

/-! ### Runs -/

/-- Every account has its links balanced. -/
def AllBalanced (kv : KV) : Prop := ∀ a, Balanced (kv.account a)

/-- Every account is charged with its total. -/
def AllCharged (kv : KV) : Prop := ∀ a, Charged (kv.account a)

/-- What one transaction keeps: the links, and the quota if the sizes fit. -/
structure Keeps (kv kv' : KV) (fits : Bool) : Prop where
  balanced : AllBalanced kv'
  charged : fits = true → AllCharged kv → AllCharged kv'

/-- A transaction that writes one account. -/
theorem Keeps.single (h : AllBalanced kv) {kv' : KV} {a : Nat} {f : Account → Account} {fits : Bool}
    (hacct : ∀ c, kv'.account c = if a = c then f (kv.account c) else kv.account c)
    (hb : Balanced (f (kv.account a))) (hc : fits = true → Charged (kv.account a) → Charged (f (kv.account a))) :
    Keeps kv kv' fits := by
  refine ⟨fun c => ?_, fun hfits hq c => ?_⟩
  all_goals rw [hacct]; split_ifs with hc'
  · exact hc' ▸ hb
  · exact h c
  · exact hc' ▸ hc hfits (hq a)
  · exact hq c

theorem Keeps.modify (h : AllBalanced kv) {a : Nat} {f : Account → Account} {fits : Bool}
    (hb : Balanced (f (kv.account a))) (hc : fits = true → Charged (kv.account a) → Charged (f (kv.account a))) :
    Keeps kv (kv.modify a f) fits :=
  .single h (kv.account_modify a · f) hb hc

theorem Keeps.modify_rest (h : AllBalanced kv) {a : Nat} {f : Account → Account} {fits : Bool}
    (he : (f (kv.account a)).emails = (kv.account a).emails)
    (hl : (f (kv.account a)).links = (kv.account a).links)
    (hi : (f (kv.account a)).lastEmail = (kv.account a).lastEmail)
    (hq : (f (kv.account a)).quota = (kv.account a).quota) : Keeps kv (kv.modify a f) fits := by
  refine .modify h ((h a).of_eq he hl hi) fun _ hc => ?_
  rw [Charged, he, hq]
  exact hc

theorem keeps_deliverOne (h : AllBalanced kv) (a : Nat) (r : IssuedRequest) :
    Keeps kv (deliverOne a r.toDeliverRequest kv).1
      (storedBytes (kv.account a) + r.size.toInt < 2 ^ 63) :=
  .single (f := receive r) h (account_deliverOne a _ kv) ((h a).deliver r)
    fun hfits hq => hq.deliver (h a) r (of_decide_eq_true hfits)

theorem storedBytes_deliverOne (h : AllBalanced kv) (a : Nat) (r : IssuedRequest) :
    storedBytes ((deliverOne a r.toDeliverRequest kv).1.account a) =
      storedBytes (kv.account a) + r.size.toInt := by
  rw [((keeps_deliverOne h a r).balanced a).storedBytes_eq, (h a).storedBytes_eq, account_deliverOne,
    if_pos rfl, (h a).weigh_deliver]

theorem keeps_deliverEmailBatch (a : Nat) (rs : List IssuedRequest) : ∀ {kv : KV}, AllBalanced kv →
    Keeps kv (deliverEmailBatch a (rs.map (·.toDeliverRequest)) kv).1
      (storedBytes (kv.account a) + (rs.map (·.size.toInt)).sum < 2 ^ 63) := by
  induction rs with
  | nil => intro kv h; exact ⟨h, fun _ hq => hq⟩
  | cons r rs ih =>
    intro kv h
    have hone := keeps_deliverOne h a r
    have hrest := ih hone.balanced
    have hpos : 0 ≤ (rs.map (·.size.toInt)).sum :=
      List.sum_nonneg fun n hn => by
        obtain ⟨q, -, rfl⟩ := List.mem_map.mp hn
        exact q.size_nonneg
    refine ⟨hrest.balanced, fun hfits hq => ?_⟩
    rw [decide_eq_true_iff, List.map_cons, List.sum_cons] at hfits
    refine hrest.charged (decide_eq_true ?_) (hone.charged (decide_eq_true ?_) hq)
    · rw [storedBytes_deliverOne h a r]
      omega
    · omega

/-- The step lemma. -/
theorem keeps_run (h : AllBalanced kv) (op : StoreOp) : Keeps kv (op.after kv) (op.fits kv) := by
  unfold StoreOp.after
  cases op with
  | deliverEmail a r => exact keeps_deliverOne h a r
  | deliverEmailBatch a rs => exact keeps_deliverEmailBatch a rs h
  | deleteEmailAtomically a docID require extra now =>
    rcases deleteEmailAtomically_cases a docID require extra now kv with
      ⟨e, he⟩ | ⟨d, kv', hd, he, hacct, -⟩
    · simp only [StoreOp.run, he]
      exact ⟨h, fun _ hq => hq⟩
    · simp only [StoreOp.run, he]
      exact .single (f := (·.remove docID d extra)) h hacct ((h a).remove hd extra)
        fun _ hq => hq.remove (h a) hd extra
  | updateMailboxAtomically a id fields extra =>
    obtain ⟨he, hl, hi, hq⟩ := indexOps_keep extra
      (((kv.account a).putMailbox id fields).logChange .mailbox ⟨id, .update, none⟩)
    simp only [StoreOp.run, Store.updateMailboxAtomically]
    exact .modify_rest h he hl hi hq
  | updateEmailsAtomically a docs =>
    simp only [StoreOp.run, Store.updateEmailsAtomically]
    split_ifs
    · exact ⟨h, fun _ hq => hq⟩
    · obtain ⟨hb, hc⟩ := Balanced.updateEmails docs (h a)
      exact .modify h hb fun _ => hc
  | bumpMailboxModSeq a mb =>
    simp only [StoreOp.run, Store.bumpMailboxModSeq]
    exact .modify_rest h rfl rfl rfl rfl

/-- A transaction that fails changes nothing. -/
theorem run_error {op : StoreOp} {e : Err} (h : (op.run kv).2 = .error e) : (op.run kv).1 = kv := by
  cases op with
  | deleteEmailAtomically a docID require extra now =>
    rcases deleteEmailAtomically_cases a docID require extra now kv with
      ⟨_, he⟩ | ⟨_, _, _, he, -⟩
    · simp only [StoreOp.run, he]
    · simp [StoreOp.run, he] at h
  | _ => simp [StoreOp.run] at h

/-- CONSERVED: in every state that transactions reach from the empty store, each link counter of an
    account is the number of its documents with that blob, a transaction that fails leaves the store as
    it was, and while the sizes of each account fit in an `int64` its quota counter is their sum. -/
theorem quota_and_links_conserved (ops : List StoreOp) :
    let kv := runOps ops {}
    (∀ a b, (kv.account a).refs b = (kv.account a).linkers b) ∧
    (∀ (op : StoreOp) e, (op.run kv).2 = .error e → (op.run kv).1 = kv) ∧
    (steady StoreOp.after StoreOp.fits {} ops = true →
      ∀ a, (kv.account a).quota.toInt = storedBytes (kv.account a)) := by
  have h : AllBalanced (runOps ops {}) :=
    runs_always (I := AllBalanced) (fun kv op h => (keeps_run h op).balanced) ops {} fun _ => balanced_empty
  refine ⟨fun a b => ?_, fun op e => run_error, fun hfits a => ?_⟩
  · rw [linkers_eq_weigh]
    exact (h a).links b
  · have hq : AllBalanced (runOps ops {}) ∧ AllCharged (runOps ops {}) :=
      runs_invariant (I := fun kv => AllBalanced kv ∧ AllCharged kv)
        (fun kv op hi hok => ⟨(keeps_run hi.1 op).balanced, (keeps_run hi.1 op).charged hok hi.2⟩)
        ops {} ⟨fun _ => balanced_empty, fun _ => rfl⟩ hfits
    rw [(h a).storedBytes_eq]
    exact hq.2 a

/-- A delivery that charges half of what an `int64` can say. -/
def half : IssuedRequest where
  mailboxID := 1
  fields := { blob := some (ascii "sha256-0"), size := some (.ofInt (2 ^ 62)) }
  blobID := ascii "sha256-0"
  size := .ofInt (2 ^ 62)
  blob_eq := rfl
  blobID_ne := by decide
  size_eq := rfl
  size_nonneg := by decide

/-- One such message comes, goes and comes again. -/
theorem quota_and_links_conserved_once :
    let ops : List StoreOp := [.deliverEmail 1 half, .deleteEmailAtomically 1 1 none [] 0, .deliverEmail 1 half]
    ((runOps ops {}).account 1).quota.toInt = 2 ^ 62 ∧ storedBytes ((runOps ops {}).account 1) = 2 ^ 62 := by
  intro ops
  have hquota : ((runOps ops {}).account 1).quota.toInt = 2 ^ 62 := by decide +kernel
  have hsum := (quota_and_links_conserved ops).2.2 (by decide +kernel) 1
  exact ⟨hquota, hsum ▸ hquota⟩

/-- Two of them are charged with less than nothing. -/
theorem quota_wraps :
    let kv := runOps [.deliverEmail 1 half, .deliverEmail 1 half] {}
    (kv.account 1).quota.toInt = -2 ^ 63 ∧ storedBytes (kv.account 1) = 2 ^ 63 := by
  decide +kernel

end Mailezine.Mailstore
