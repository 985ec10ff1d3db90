import Mailezine.Store.Sweep
import Mailezine.Store.Links

/-! Blob garbage collection next to deliveries and deletes.

    The system interleaves any number of sweep passes and deliveries, one store access at a time,
    with delete transactions and a clock that moves forward. A batch commit of several deliveries is
    the sequence of their commits. Between a pass's re-check of a claim and its last row delete
    nothing fences a re-link of the same content: the pass then deletes a linked blob or the link
    row itself. Runs in which no link of a blob commits in that window are safe. -/

namespace Mailezine.Store
open Mailstore Schemes List

/-! ### The system -/

/-- Where a `Deliver` call stands; after its commit it remembers its document. -/
inductive DeliveryPC where
  | put
  | commit
  | stat (docID : Nat)
  | reput (docID : Nat)
  | returned (docID : Nat)
  deriving DecidableEq

/-- The document a call has committed. -/
def DeliveryPC.doc : DeliveryPC → Option Nat
  | .put | .commit => none
  | .stat id | .reput id | .returned id => some id

/-- A `Deliver` call from its first `PutBlob` on. -/
structure Delivery where
  account : Nat
  mailbox : Nat
  fields : EmailDoc
  digest : Str
  data : Str
  pc : DeliveryPC := .put

/-- The content-addressed blob ID. -/
def Delivery.blobID (d : Delivery) : Str := ascii "sha256-" ++ d.digest

/-- What the call hands to the delivery transaction. -/
def Delivery.request (d : Delivery) : DeliverRequest where
  mailboxID := d.mailbox
  fields := { d.fields with blob := some d.blobID, size := some (.ofNat d.data.length) }
  blobID := d.blobID
  size := .ofNat d.data.length

/-- One step of the call. -/
def Delivery.step (d : Delivery) (f : Facade) : Delivery × Facade :=
  match d.pc with
  | .put => ({ d with pc := .commit }, f.putBlob d.blobID d.data)
  | .commit =>
    let out := deliverOne d.account d.request f.kv
    ({ d with pc := .stat out.2.docID }, f.withKV out.1)
  | .stat id => ({ d with pc := if d.blobID ∈ f.blobs then .returned id else .reput id }, f)
  | .reput id => ({ d with pc := .returned id }, f.putBlob d.blobID d.data)
  | .returned _ => (d, f)

/-- The stores, the sweep passes and the deliveries in progress or returned. -/
structure System where
  disk : Facade
  sweeps : List Sweep := []
  deliveries : List Delivery := []

/-- What can happen next. -/
inductive Action where
  | tick (ns : Nat)
  | startSweep (grace : Nat)
  | sweep (i : Nat)
  | startDelivery (account mailbox : Nat) (fields : EmailDoc) (digest data : Str)
  | deliver (i : Nat)
  | delete (a docID : Nat) (require : Option Str) (extra : List IndexOp)

/-- One action. -/
def System.step (σ : System) : Action → System
  | .tick ns => { σ with disk := { σ.disk with now := σ.disk.now + ns } }
  | .startSweep grace => { σ with sweeps := σ.sweeps ++ [{ grace, now := σ.disk.now }] }
  | .sweep i =>
    match σ.sweeps[i]? with
    | none => σ
    | some s => { σ with disk := (s.step σ.disk).2, sweeps := σ.sweeps.set i (s.step σ.disk).1 }
  | .startDelivery account mailbox fields digest data =>
    { σ with deliveries := σ.deliveries ++ [{ account, mailbox, fields, digest, data }] }
  | .deliver i =>
    match σ.deliveries[i]? with
    | none => σ
    | some d =>
      { σ with disk := (d.step σ.disk).2, deliveries := σ.deliveries.set i (d.step σ.disk).1 }
  | .delete a docID require extra =>
    let out := deleteEmailAtomically a docID require extra σ.disk.now σ.disk.kv
    { σ with disk := σ.disk.withKV out.1 }

/-- The live Email documents of an account that reference a blob. -/
def Account.linkers (acct : Account) (blob : Str) : Nat :=
  acct.emails.toList.countP fun r => r.2.blob = some blob

/-- A call that returned and whose document is still there finds its blob in the blob store and its
    account's link counter equal to the number of documents that reference the blob. -/
def Delivery.safe (f : Facade) (d : Delivery) : Bool :=
  match d.pc with
  | .returned id =>
    let acct := f.kv.account d.account
    (acct.emails[id]?).isNone ||
      (d.blobID ∈ f.blobs && acct.refs d.blobID = acct.linkers d.blobID)
  | _ => true

/-- Every call is safe. -/
def System.safe (σ : System) : Bool := σ.deliveries.all (·.safe σ.disk)

/-- An action keeps out of the window: no link of a blob commits while a pass is between its
    successful re-check of that blob and its last row delete, and claims, which are stamped in whole
    seconds, age for at least one second. -/
def System.allows (σ : System) : Action → Bool
  | .startSweep grace => 10 ^ 9 ≤ grace
  | .deliver i => (σ.deliveries[i]?).all fun d =>
    d.pc ≠ .commit || σ.sweeps.all (·.window ≠ some d.blobID)
  | _ => true

/-- Every action of the run keeps out of the window. -/
def System.steady : System → List Action → Bool
  | _, [] => true
  | σ, act :: acts => σ.allows act && (σ.step act).steady acts

/-! ### The ledger of documents and links -/

/-- The link counters count the documents, document IDs come from the counter, and no document has
    an empty blob ID (which a delete would not unlink). -/
structure Ledger (kv : KV) : Prop where
  counted : ∀ a b, (kv.account a).refs b = (kv.account a).linkers b
  allocated : ∀ a (id : Nat) (d : EmailDoc), (kv.account a).emails[id]? = some d →
    id ≤ (kv.account a).lastEmail
  named : ∀ a (id : Nat) (d : EmailDoc), (kv.account a).emails[id]? = some d → d.blob ≠ some []

/-- How the stores may change under a pass or a call that is not moving. -/
structure Evolves (f g : Facade) : Prop where
  now : f.now ≤ g.now
  claims : ∀ (b : Str) q, g.kv.gcClaims[b]? = some q → f.kv.gcClaims[b]? = some q ∨ q = unix f.now
  lastEmail : ∀ a, (f.kv.account a).lastEmail ≤ (g.kv.account a).lastEmail
  docs : ∀ a (id : Nat) (e : EmailDoc), id ≤ (f.kv.account a).lastEmail → (g.kv.account a).emails[id]? = some e →
    (f.kv.account a).emails[id]? = some e
  blobs : ∀ b ∈ f.blobs, b ∈ g.blobs ∨ ∀ a, (f.kv.account a).linkers b = 0

variable {b : Str} {kv : KV} {f g : Facade} {s : Sweep} {σ : System}

/-- A document that references the blob is counted. -/
theorem linkers_pos {acct : Account} {id : Nat} {e : EmailDoc}
    (h : acct.emails[id]? = some e) (hb : e.blob = some b) : 0 < acct.linkers b :=
  countP_pos_iff.mpr ⟨(id, e), mem_scan.mpr h, by simpa using hb⟩

theorem linkers_erase {acct : Account} {id : Nat} {e : EmailDoc} (h : acct.emails[id]? = some e)
    (b : Str) : acct.linkers b = (acct.emails.erase id).toList.countP (fun r => r.2.blob = some b) +
        if e.blob = some b then 1 else 0 := by
  unfold Account.linkers
  rw [(scan_perm_cons h).countP_eq, countP_cons]
  simp

/-- The Email documents after a delivery. -/
theorem emails_deliverOne {a : Nat} {r : DeliverRequest} (c : Nat)
    (hfresh : (kv.account a).emails[(kv.account a).lastEmail + 1]? = none) :
    ((deliverOne a r kv).1.account c).emails = if a = c then
      (kv.account c).emails.insert ((kv.account c).lastEmail + 1)
        { r.fields with
          sentinel := true
          uid := some ((kv.account c).lastUID r.mailboxID + 1)
          modSeq := some ((kv.account c).modSeq r.mailboxID + 1) }
      else (kv.account c).emails := by
  rw [account_deliverOne]
  by_cases hc : a = c
  · subst hc
    simp [Account.deliver, Account.nextIDs, hfresh, EmailDoc.empty_put]
  · simp [hc]

theorem lastEmail_deliverOne (a : Nat) (r : DeliverRequest) (kv : KV) (c : Nat) :
    ((deliverOne a r kv).1.account c).lastEmail = (kv.account c).lastEmail + if a = c then 1 else 0 := by
  rw [account_deliverOne]
  by_cases hc : a = c
  · subst hc; simp [Account.deliver, Account.nextIDs]
  · simp [hc]

theorem refs_deliverOne (a : Nat) (r : DeliverRequest) (kv : KV) (c : Nat) (b : Str) :
    ((deliverOne a r kv).1.account c).refs b =
      (kv.account c).refs b + if a = c ∧ r.blobID = b then 1 else 0 := by
  rw [account_deliverOne]
  by_cases hc : a = c
  · subst hc
    rw [if_pos rfl, Account.refs_link]
    simp [Account.refs, Account.deliver]
  · simp [hc]

theorem Ledger.fresh (h : Ledger kv) (a : Nat) :
    (kv.account a).emails[(kv.account a).lastEmail + 1]? = none := by
  cases hd : (kv.account a).emails[(kv.account a).lastEmail + 1]? with
  | none => rfl
  | some d => exact absurd (h.allocated a _ d hd) (by omega)

theorem Ledger.deliverOne (h : Ledger kv) (a : Nat) (r : DeliverRequest)
    (hblob : r.fields.blob = some r.blobID) (hne : r.blobID ≠ []) : Ledger (deliverOne a r kv).1 := by
  have hem := fun c => emails_deliverOne (r := r) c (h.fresh a)
  constructor
  · intro c b
    rw [refs_deliverOne, h.counted]
    unfold Account.linkers
    rw [hem]
    by_cases hc : a = c
    · subst hc
      rw [if_pos rfl, scan_insert_last _ _ _ fun id d hd => by
        have := h.allocated a id d hd
        exact Nat.compare_eq_lt.mpr (by omega), countP_append]
      simp [hblob]
    · simp [hc]
  · intro c id d hd
    rw [hem] at hd
    rw [lastEmail_deliverOne]
    by_cases hc : a = c
    · subst hc
      rw [if_pos rfl, getElem?_insert_row] at hd
      split_ifs at hd with hid
      · simp; omega
      · exact Nat.le_add_right_of_le (h.allocated a id d hd)
    · rw [if_neg hc] at hd
      simpa [hc] using h.allocated c id d hd
  · intro c id d hd
    rw [hem] at hd
    split_ifs at hd with hc
    · rw [getElem?_insert_row] at hd
      split_ifs at hd with hid
      · obtain rfl := Option.some.inj hd
        simpa [hblob] using hne
      · exact h.named c id d hd
    · exact h.named c id d hd

theorem Ledger.delete (h : Ledger kv) (a docID : Nat) (require : Option Str)
    (extra : List IndexOp) (now : Nat) : Ledger (deleteEmailAtomically a docID require extra now kv).1 := by
  rcases deleteEmailAtomically_cases a docID require extra now kv with
    ⟨e, he⟩ | ⟨d, kv', hd, he, hacct, -⟩
  · rw [he]; exact h
  rw [he]
  have hdoc : ∀ c (id : Nat) (e : EmailDoc), (kv'.account c).emails[id]? = some e →
      (kv.account c).emails[id]? = some e := by
    intro c id e hid
    rw [hacct] at hid
    split_ifs at hid with hc
    · rw [Account.emails_remove, getElem?_erase_row] at hid
      split_ifs at hid
      exact hid
    · exact hid
  refine ⟨fun c b => ?_, fun c id e hid => ?_, fun c id e hid => h.named c id e (hdoc c id e hid)⟩
  · rw [hacct]
    split_ifs with hc
    · subst hc
      rw [Account.refs_remove _ _ _ _ (h.named a docID d hd), h.counted, linkers_erase hd b]
      simp [Account.linkers, Account.emails_remove]
    · exact h.counted c b
  · have hlast : (kv'.account c).lastEmail = (kv.account c).lastEmail := by
      rw [hacct]
      split_ifs
      · exact Account.lastEmail_remove ..
      · rfl
    exact hlast ▸ h.allocated c id e (hdoc c id e hid)

/-- Rows at zero can go: the counters read the same. -/
theorem Ledger.dropLink (h : Ledger kv) (h0 : ∀ a, (kv.account a).refs b = 0)
    (a : Nat) : Ledger (kv.modify a (·.dropLink b)) ∧
      ∀ c b', ((kv.modify a (·.dropLink b)).account c).refs b' = (kv.account c).refs b' := by
  have hrefs := refs_dropLink (h0 a)
  have hem : ∀ c, ((kv.modify a (·.dropLink b)).account c).emails = (kv.account c).emails := by
    intro c; by_cases hc : a = c <;> simp [hc]
  refine ⟨⟨fun c b' => ?_, fun c id d hd => ?_, fun c id d hd => ?_⟩, hrefs⟩
  · rw [hrefs, h.counted]; unfold Account.linkers; rw [hem]
  · rw [hem] at hd
    have := h.allocated c id d hd
    by_cases hc : a = c <;> simpa [hc] using this
  · rw [hem] at hd; exact h.named c id d hd

/-! ### What a pass and a call may rely on -/

/-- A pass past its mark phase: a blob it did not see linked is still unlinked everywhere, or its
    claim is gone or too young for this pass. In the window it is unlinked everywhere. -/
structure SweepInv (f : Facade) (s : Sweep) : Prop where
  started : s.now ≤ f.now
  graced : 10 ^ 9 ≤ s.grace
  marked : s.pc ≠ .mark → ∀ b ∉ s.live, (∀ a, (f.kv.account a).refs b = 0) ∨
    ∀ q, f.kv.gcClaims[b]? = some q → s.due q = false
  rechecking : ∀ b, s.pc = .recheck b → b ∉ s.live
  unlinked : ∀ b, s.window = some b → ∀ a, (f.kv.account a).refs b = 0

/-- A call's document is its own, and once the call has returned the blob is there for it. -/
structure DeliveryInv (f : Facade) (d : Delivery) : Prop where
  own : ∀ id, d.pc.doc = some id → id ≤ (f.kv.account d.account).lastEmail ∧
    ∀ e : EmailDoc, (f.kv.account d.account).emails[id]? = some e → e.blob = some d.blobID
  present : ∀ id, d.pc = .returned id →
    ∀ e : EmailDoc, (f.kv.account d.account).emails[id]? = some e → d.blobID ∈ f.blobs

/-- A claim stamped now is too young for a pass that started before. -/
theorem SweepInv.young (h : SweepInv f s) : s.due (unix f.now) = false := by
  have h₁ := h.started
  have h₂ := h.graced
  have h₃ : f.now < 10 ^ 9 * unix f.now + 10 ^ 9 := by
    unfold unix
    have := Nat.div_add_mod f.now (10 ^ 9)
    have := Nat.mod_lt f.now (show 10 ^ 9 > 0 by decide)
    omega
  simp only [Sweep.due, decide_eq_false_iff_not]
  omega

/-- Other parties' steps keep a pass's invariant: where they link an unlinked blob they drop its
    claim and stay out of the pass's window. -/
theorem SweepInv.evolves (h : SweepInv f s) (hfg : Evolves f g)
    (hzero : ∀ b, (∀ a, (f.kv.account a).refs b = 0) → (∀ a, (g.kv.account a).refs b = 0) ∨
      (g.kv.gcClaims[b]? = none ∧ s.window ≠ some b)) : SweepInv g s := by
  refine ⟨h.started.trans hfg.now, h.graced, fun hpc b hb => ?_, h.rechecking, fun b hb => ?_⟩
  · rcases h.marked hpc b hb with h0 | hq
    · rcases hzero b h0 with h0' | ⟨hnone, -⟩
      · exact Or.inl h0'
      · exact Or.inr fun q hq => by rw [hnone] at hq; cases hq
    · refine Or.inr fun q hgq => ?_
      rcases hfg.claims b q hgq with hfq | rfl
      · exact hq q hfq
      · exact h.young
  · rcases hzero b (h.unlinked b hb) with h0 | ⟨-, hw⟩
    · exact h0
    · exact absurd hb hw

/-- Other parties' steps keep a call's invariant. -/
theorem DeliveryInv.evolves {d : Delivery} (h : DeliveryInv f d) (hfg : Evolves f g) : DeliveryInv g d := by
  refine ⟨fun id hid => ?_, fun id hid e he => ?_⟩
  · obtain ⟨hle, hown⟩ := h.own id hid
    exact ⟨hle.trans (hfg.lastEmail _), fun e he => hown e (hfg.docs _ id e hle he)⟩
  · obtain ⟨hle, hown⟩ := h.own id (by rw [hid]; rfl)
    have hf := hfg.docs _ id e hle he
    rcases hfg.blobs _ (h.present id hid e hf) with hb | h0
    · exact hb
    · exact absurd (h0 d.account) (linkers_pos hf (hown e hf)).ne'

/-- The whole system's invariant. -/
structure Inv (σ : System) : Prop where
  ledger : Ledger σ.disk.kv
  sweeps : ∀ s ∈ σ.sweeps, SweepInv σ.disk s
  deliveries : ∀ d ∈ σ.deliveries, DeliveryInv σ.disk d

/-- The facade changed without touching the key-value store or losing a blob. -/
theorem Evolves.of_kv_eq (hkv : g.kv = f.kv) (hnow : f.now ≤ g.now)
    (hblobs : ∀ b ∈ f.blobs, b ∈ g.blobs ∨ ∀ a, (f.kv.account a).linkers b = 0) : Evolves f g :=
  ⟨hnow, fun b q hq => Or.inl (hkv ▸ hq), fun a => by rw [hkv], fun a id e _ he => hkv ▸ he, hblobs⟩

theorem Inv.of_kv_eq (h : Inv σ) (hkv : g.kv = σ.disk.kv) (hnow : σ.disk.now ≤ g.now)
    (hblobs : ∀ b ∈ σ.disk.blobs, b ∈ g.blobs ∨ ∀ a, (σ.disk.kv.account a).linkers b = 0) :
    Inv { σ with disk := g } := by
  have hev := Evolves.of_kv_eq hkv hnow hblobs
  refine ⟨hkv ▸ h.ledger, fun s hs => (h.sweeps s hs).evolves hev fun b h0 => ?_,
    fun d hd => (h.deliveries d hd).evolves hev⟩
  exact Or.inl (hkv ▸ h0)

/-! ### The steps -/

theorem inv_delete (h : Inv σ) (a docID : Nat) (require : Option Str)
    (extra : List IndexOp) : Inv (σ.step (.delete a docID require extra)) := by
  have hev : Evolves σ.disk (σ.disk.withKV
      (deleteEmailAtomically a docID require extra σ.disk.now σ.disk.kv).1) ∧
      ∀ c b, ((deleteEmailAtomically a docID require extra σ.disk.now σ.disk.kv).1.account c).refs b ≤
        (σ.disk.kv.account c).refs b := by
    rcases deleteEmailAtomically_cases a docID require extra σ.disk.now σ.disk.kv with
      ⟨e, he⟩ | ⟨d, kv', hd, he, hacct, hclaims⟩
    · rw [he]
      exact ⟨.of_kv_eq rfl le_rfl fun b hb => Or.inl hb, fun c b => le_rfl⟩
    · rw [he]
      refine ⟨⟨le_rfl, hclaims, fun c => ?_, fun c id e _ hid => ?_, fun b hb => Or.inl hb⟩,
        fun c b => ?_⟩
      · simp only [Facade.withKV_kv, hacct]
        split_ifs
        · exact (Account.lastEmail_remove ..).ge
        · exact le_rfl
      · simp only [Facade.withKV_kv, hacct] at hid
        split_ifs at hid with hc
        · rw [Account.emails_remove, getElem?_erase_row] at hid
          split_ifs at hid
          exact hid
        · exact hid
      · simp only [hacct]
        split_ifs with hc
        · rw [Account.refs_remove _ _ _ _ (h.ledger.named a docID d hd)]
          exact Nat.sub_le ..
        · exact le_rfl
  refine ⟨h.ledger.delete a docID require extra σ.disk.now,
    fun s hs => (h.sweeps s hs).evolves hev.1 fun b h0 => Or.inl fun c => ?_,
    fun d hd => (h.deliveries d hd).evolves hev.1⟩
  exact Nat.le_zero.mp ((hev.2 c b).trans (h0 c).le)

theorem inv_commit (h : Inv σ) {d : Delivery} {i : Nat} (hpc : d.pc = .commit)
    (hw : ∀ s ∈ σ.sweeps, s.window ≠ some d.blobID) :
    Inv { σ with
      disk := (d.step σ.disk).2
      deliveries := σ.deliveries.set i (d.step σ.disk).1 } := by
  have hne : d.blobID ≠ [] := by simp [Delivery.blobID, ascii]
  have hled : Ledger (deliverOne d.account d.request σ.disk.kv).1 :=
    h.ledger.deliverOne d.account d.request rfl hne
  have hem := fun c => emails_deliverOne (r := d.request) c (h.ledger.fresh d.account)
  have hlast := lastEmail_deliverOne d.account d.request σ.disk.kv
  have hev : Evolves σ.disk (σ.disk.withKV (deliverOne d.account d.request σ.disk.kv).1) := by
    refine ⟨le_rfl, fun b q hq => Or.inl ?_, fun c => ?_, fun c id e hle he => ?_,
      fun b hb => Or.inl hb⟩
    · simpa using (claim_stageBlobLink hq).1
    · simp only [Facade.withKV_kv, hlast]; omega
    · simp only [Facade.withKV_kv, hem] at he
      split_ifs at he with hc
      · rw [getElem?_insert_row] at he
        split_ifs at he with hid
        · omega
        · exact he
      · exact he
  have hstep : d.step σ.disk = ({ d with pc := .stat ((σ.disk.kv.account d.account).lastEmail + 1) },
      σ.disk.withKV (deliverOne d.account d.request σ.disk.kv).1) := by
    simp only [Delivery.step, hpc]; rfl
  rw [hstep]
  refine ⟨hled, fun s hs => (h.sweeps s hs).evolves hev fun b h0 => ?_, fun d' hd' => ?_⟩
  · by_cases hb : d.blobID = b
    · -- the first link of an unlinked blob drops its claim
      refine Or.inr ⟨?_, hb ▸ hw s hs⟩
      cases hq : (deliverOne d.account d.request σ.disk.kv).1.gcClaims[b]? with
      | none => exact hq
      | some q =>
        have h0' := (claim_stageBlobLink hq).2 hb
        rw [KV.account_modify, if_pos rfl] at h0'
        exact absurd (h0 d.account) (by simpa [Account.refs, Account.deliver] using h0')
    · refine Or.inl fun c => ?_
      simp only [Facade.withKV_kv, refs_deliverOne, h0 c]
      simp [Delivery.request, hb]
  · rcases mem_or_eq_of_mem_set hd' with hd' | rfl
    · exact (h.deliveries d' hd').evolves hev
    · refine ⟨fun id hid => ?_, by simp⟩
      simp only [DeliveryPC.doc, Option.some.injEq] at hid
      subst hid
      refine ⟨by simp [hlast], fun e he => ?_⟩
      simp only [Facade.withKV_kv, hem, if_true, getElem?_insert_row, Option.some.injEq] at he
      rw [← he]; rfl

theorem inv_deliver (h : Inv σ) (i : Nat) (hw : σ.allows (.deliver i) = true) : Inv (σ.step (.deliver i)) := by
  unfold System.step
  cases hd : σ.deliveries[i]? with
  | none => simpa only [hd] using h
  | some d =>
    simp only [hd]
    have hmem := mem_of_getElem? hd
    have hinv := h.deliveries d hmem
    have hput : ∀ b ∈ σ.disk.blobs, b ∈ (σ.disk.putBlob d.blobID d.data).blobs := by
      intro b hb
      rw [Facade.putBlob_blobs]
      split
      · exact hb
      · simp [hb]
    -- steps that leave the key-value store alone move only the call itself
    have hother : ∀ g : Facade, g.kv = σ.disk.kv → g.now = σ.disk.now →
        (∀ b ∈ σ.disk.blobs, b ∈ g.blobs) → ∀ d', DeliveryInv g d' →
        Inv { σ with disk := g, deliveries := σ.deliveries.set i d' } := by
      intro g hkv hnow hblobs d' hd'
      have hg := h.of_kv_eq hkv hnow.ge fun b hb => Or.inl (hblobs b hb)
      refine ⟨hg.ledger, hg.sweeps, fun d'' hmem'' => ?_⟩
      rcases mem_or_eq_of_mem_set hmem'' with hm | rfl
      · exact hg.deliveries d'' hm
      · exact hd'
    cases hpc : d.pc with
    | put =>
      simp only [Delivery.step, hpc]
      exact hother (σ.disk.putBlob d.blobID d.data) rfl rfl hput _
        ⟨fun id hid => by simp [DeliveryPC.doc] at hid, by simp⟩
    | commit =>
      refine inv_commit h hpc fun s hs => ?_
      simp only [System.allows, hd, Option.all_some, hpc, ne_eq, not_true_eq_false, decide_false,
        Bool.false_or, List.all_eq_true, decide_eq_true_eq] at hw
      exact hw s hs
    | stat id =>
      simp only [Delivery.step, hpc]
      have hown := hinv.own id (by rw [hpc]; rfl)
      refine hother _ rfl rfl (fun b hb => hb) _ ⟨fun id' hid => ?_, fun id' hid e _ => ?_⟩
      · have : id' = id := by
          dsimp only at hid
          split at hid <;> simpa [DeliveryPC.doc, eq_comm] using hid
        exact this ▸ hown
      · dsimp only at hid
        split at hid
        · assumption
        · cases hid
    | reput id =>
      simp only [Delivery.step, hpc]
      have hown := hinv.own id (by rw [hpc]; rfl)
      refine hother (σ.disk.putBlob d.blobID d.data) rfl rfl hput _
        ⟨fun id' hid => ?_, fun id' _ e _ => ?_⟩
      · simp only [DeliveryPC.doc, Option.some.injEq] at hid
        exact hid ▸ hown
      · rw [Facade.putBlob_blobs]
        split
        · assumption
        · simp [Delivery.blobID]
    | returned id =>
      simp only [Delivery.step, hpc]
      exact hother _ rfl rfl (fun b hb => hb) _ hinv

/-- A blob that the mark scan does not list is unlinked in every account. -/
theorem refs_of_not_marked
    (h : b ∉ ((scanBlobLinkSpace kv).filter fun r => r.2.2 > 0).map fun r => r.2.1) (a : Nat) :
    (kv.account a).refs b = 0 := by
  by_contra hne
  unfold Account.refs at hne
  cases hl : (kv.account a).links[b]? with
  | none => simp [hl] at hne
  | some n =>
    refine h (List.mem_map.mpr ⟨(a, b, n), mem_filter.mpr ⟨mem_scanBlobLinkSpace.mpr hl, ?_⟩, rfl⟩)
    simpa [hl, Nat.pos_iff_ne_zero] using hne

/-- The pass at `i` moves on over stores that keep everybody's invariant. -/
theorem Inv.setSweep (hg : Inv { σ with disk := g }) (i : Nat)
    (hs : SweepInv g s) : Inv { σ with disk := g, sweeps := σ.sweeps.set i s } := by
  refine ⟨hg.ledger, fun s' hmem => ?_, hg.deliveries⟩
  rcases mem_or_eq_of_mem_set hmem with hm | rfl
  · exact hg.sweeps s' hm
  · exact hs

/-- A pass's own step, which leaves what it has marked. -/
theorem Inv.moveSweep (hg : Inv { σ with disk := g }) (i : Nat) (hs : s ∈ σ.sweeps) (hmark : s.pc ≠ .mark)
    {claims : List (Str × Nat)} {reclaimed : Nat} {pc : SweepPC} (hre : ∀ b, pc = .recheck b → b ∉ s.live)
    (hwin : ∀ b, { s with claims, reclaimed, pc : Sweep }.window = some b → ∀ a, (g.kv.account a).refs b = 0) :
    Inv { σ with disk := g, sweeps := σ.sweeps.set i { s with claims, reclaimed, pc } } :=
  have h := hg.sweeps s hs
  hg.setSweep i ⟨h.started, h.graced, fun _ b hb => h.marked hmark b hb, hre, hwin⟩

theorem Inv.deleteClaim (h : Inv σ) (b : Str) :
    Inv { σ with disk := σ.disk.withKV (σ.disk.kv.deleteBlobGCClaim b) } := by
  have hev : Evolves σ.disk (σ.disk.withKV (σ.disk.kv.deleteBlobGCClaim b)) := by
    refine ⟨le_rfl, fun b' q hq => Or.inl ?_, fun _ => le_rfl, fun _ _ _ _ he => he,
      fun b' hb' => Or.inl hb'⟩
    simp only [Facade.withKV_kv, KV.deleteBlobGCClaim_gcClaims, getElem?_erase_row] at hq
    split_ifs at hq
    exact hq
  exact ⟨⟨h.ledger.counted, h.ledger.allocated, h.ledger.named⟩,
    fun s' hs' => (h.sweeps s' hs').evolves hev fun _ h0 => Or.inl h0,
    fun d hd => (h.deliveries d hd).evolves hev⟩

/-- Deleting the file of a blob that no document references. -/
theorem Inv.reclaim (h : Inv σ) (h0 : ∀ a, (σ.disk.kv.account a).refs b = 0) :
    Inv { σ with disk := σ.disk.deleteBlob b } := by
  refine h.of_kv_eq rfl le_rfl fun b' hb' => ?_
  by_cases hb : b = b'
  · subst hb
    exact Or.inr fun a => by rw [← h.ledger.counted, h0]
  · refine Or.inl ?_
    rw [Facade.deleteBlob_blobs, Std.ExtTreeMap.mem_erase]
    exact ⟨by simpa using hb, hb'⟩

theorem Inv.dropZero (h : Inv σ) (h0 : ∀ a, (σ.disk.kv.account a).refs b = 0) (a : Nat) :
    Inv { σ with disk := σ.disk.withKV (σ.disk.kv.modify a (·.dropLink b)) } := by
  obtain ⟨hled, hrefs⟩ := h.ledger.dropLink h0 a
  have hev : Evolves σ.disk (σ.disk.withKV (σ.disk.kv.modify a (·.dropLink b))) := by
    refine ⟨le_rfl, fun b' q hq => Or.inl hq, fun c => ?_, fun c id e _ he => ?_,
      fun b' hb' => Or.inl hb'⟩
    · by_cases hc : a = c <;> simp [hc]
    · by_cases hc : a = c <;> simpa [hc] using he
  refine ⟨hled, fun s hs => (h.sweeps s hs).evolves hev fun b' h0' => Or.inl fun c => ?_,
    fun d hd => (h.deliveries d hd).evolves hev⟩
  exact (hrefs c b').trans (h0' c)

theorem inv_sweep (h : Inv σ) (i : Nat) : Inv (σ.step (.sweep i)) := by
  unfold System.step
  cases hs : σ.sweeps[i]? with
  | none => simpa only [hs] using h
  | some s =>
    simp only [hs]
    have hmem := mem_of_getElem? hs
    have hinv := h.sweeps s hmem
    cases hpc : s.pc with
    | mark =>
      simp only [Sweep.step, hpc]
      refine h.setSweep i ⟨hinv.started, hinv.graced, fun _ b hb => ?_, by simp,
        fun b hb => by simp [Sweep.window] at hb⟩
      exact Or.inl (refs_of_not_marked hb)
    | scan =>
      simp only [Sweep.step, hpc]
      exact h.moveSweep i hmem (by simp [hpc]) nofun nofun
    | loop =>
      simp only [Sweep.step, hpc]
      split
      · exact h.setSweep i hinv
      · split_ifs with hlive hdue
        · exact (h.deleteClaim _).moveSweep i hmem (by simp [hpc]) nofun nofun
        · exact h.moveSweep i hmem (by simp [hpc]) nofun nofun
        · refine h.moveSweep i hmem (by simp [hpc]) (fun b hb => ?_) nofun
          simp only [SweepPC.recheck.injEq] at hb
          exact hb ▸ hlive
    | recheck blob =>
      simp only [Sweep.step, hpc]
      refine h.moveSweep i hmem (by simp [hpc]) (fun b hb => ?_) fun b hb => ?_
      · split at hb <;> cases hb
      · simp only [Sweep.window] at hb
        split_ifs at hb with hdue
        · -- the claim is still due, so the blob was not linked since the mark scan
          obtain rfl : blob = b := by simpa using hb
          rcases hinv.marked (by simp [hpc]) blob (hinv.rechecking blob hpc) with h0 | hq
          · exact h0
          · unfold Sweep.claimStillDue at hdue
            cases hc : σ.disk.kv.gcClaims[blob]? with
            | none => simp [hc] at hdue
            | some q => simp [hc, hq q hc] at hdue
    | reclaim blob =>
      simp only [Sweep.step, hpc]
      have h0 := hinv.unlinked blob (by simp [Sweep.window, hpc])
      refine (h.reclaim h0).moveSweep i hmem (by simp [hpc]) nofun fun b hb => ?_
      obtain rfl : blob = b := by simpa [Sweep.window] using hb
      exact h0
    | dropClaim blob =>
      simp only [Sweep.step, hpc]
      have h0 := hinv.unlinked blob (by simp [Sweep.window, hpc])
      refine (h.deleteClaim blob).moveSweep i hmem (by simp [hpc]) nofun fun b hb => ?_
      simp only [Sweep.window] at hb
      split at hb <;> simp_all
    | dropZero blob rows =>
      cases rows with
      | nil =>
        simp only [Sweep.step, hpc]
        exact h.moveSweep i hmem (by simp [hpc]) nofun nofun
      | cons a rows =>
        simp only [Sweep.step, hpc]
        have h0 := hinv.unlinked blob (by simp [Sweep.window, hpc])
        have hg := h.dropZero h0 a
        refine hg.moveSweep i hmem (by simp [hpc]) nofun fun b hb => ?_
        have hw := (hg.sweeps s hmem).unlinked blob (by simp [Sweep.window, hpc])
        simp only [Sweep.window] at hb
        split at hb <;> simp_all

/-- Every action that keeps out of the window keeps the invariant. -/
theorem inv_step (h : Inv σ) (act : Action) (hact : σ.allows act = true) : Inv (σ.step act) := by
  cases act with
  | tick ns => exact h.of_kv_eq rfl (Nat.le_add_right ..) fun b hb => Or.inl hb
  | startSweep grace =>
    refine ⟨h.ledger, fun s hs => ?_, h.deliveries⟩
    rcases mem_append.mp hs with hs | hs
    · exact h.sweeps s hs
    · obtain rfl := mem_singleton.mp hs
      exact ⟨le_rfl, by simpa [System.allows] using hact, fun hpc => absurd rfl hpc,
        by simp, fun b hb => by simp [Sweep.window] at hb⟩
  | sweep i => exact inv_sweep h i
  | startDelivery account mailbox fields digest data =>
    refine ⟨h.ledger, h.sweeps, fun d hd => ?_⟩
    rcases mem_append.mp hd with hd | hd
    · exact h.deliveries d hd
    · obtain rfl := mem_singleton.mp hd
      exact ⟨fun id hid => by simp [DeliveryPC.doc] at hid, by simp⟩
  | deliver i => exact inv_deliver h i hact
  | delete a docID require extra => exact inv_delete h a docID require extra

theorem inv_run : ∀ (acts : List Action) {σ : System}, Inv σ → σ.steady acts = true →
    Inv (acts.foldl System.step σ)
  | [], _, h, _ => h
  | act :: acts, σ, h, hst => by
    simp only [System.steady, Bool.and_eq_true] at hst
    exact inv_run acts (inv_step h act hst.1) hst.2

theorem Inv.safe (h : Inv σ) : σ.safe = true := by
  rw [System.safe, List.all_eq_true]
  intro d hd
  unfold Delivery.safe
  split
  · rename_i id hpc
    cases he : (σ.disk.kv.account d.account).emails[id]? with
    | none => simp [he]
    | some e =>
      have := (h.deliveries d hd).present id hpc e he
      simp [he, this, h.ledger.counted]
  · rfl

/-- A store without accounts, at any time and with any files in the blob store. -/
def System.start (blobs : Names Str) (now : Nat) : System := { disk := { blobs, now } }

theorem inv_start (blobs : Names Str) (now : Nat) : Inv (System.start blobs now) := by
  have hacct : ∀ a, ((System.start blobs now).disk.kv.account a) = {} := fun a => by
    simp [System.start, KV.account]
  refine ⟨⟨fun a b => ?_, fun a id d hd => ?_, fun a id d hd => ?_⟩, fun s hs => ?_, fun d hd => ?_⟩
  · rw [hacct]; simp only [Account.refs, Account.linkers]; rfl
  · rw [hacct] at hd; simp at hd
  · rw [hacct] at hd; simp at hd
  · cases hs
  · cases hd

/-- SAFE: in every interleaving in which no link of a blob commits between a pass's re-check of the
    blob and its last row delete, a delivery that returned keeps its blob and its link count for as
    long as its document lives. -/
theorem gc_safe (blobs : Names Str) (now : Nat) (acts : List Action)
    (h : (System.start blobs now).steady acts = true) :
    (acts.foldl System.step (System.start blobs now)).safe = true :=
  (inv_run acts (inv_start blobs now) h).safe

/-- A message is delivered and deleted, its claim ages for an hour and a pass reclaims the blob; then
    the same content is delivered again. -/
def redelivery : List Action :=
  .startDelivery 1 1 {} [] [1] :: List.replicate 3 (.deliver 0) ++
  [.delete 1 1 none [], .tick (3600 * 10 ^ 9), .startSweep (600 * 10 ^ 9)] ++
  List.replicate 8 (.sweep 0) ++ .startDelivery 1 1 {} [] [1] :: List.replicate 3 (.deliver 1)

/-- The second delivery runs from its upload to its return between the pass's re-check and its
    delete of the file. -/
def redeliveryInWindow : List Action :=
  .startDelivery 1 1 {} [] [1] :: List.replicate 3 (.deliver 0) ++
  [.delete 1 1 none [], .tick (3600 * 10 ^ 9), .startSweep (600 * 10 ^ 9)] ++
  List.replicate 4 (.sweep 0) ++ .startDelivery 1 1 {} [] [1] :: List.replicate 3 (.deliver 1) ++
  [.sweep 0]

theorem gc_safe_redelivery : (System.start ∅ 0).steady redelivery = true ∧
    (redelivery.foldl System.step (System.start ∅ 0)).safe = true :=
  ⟨by decide +kernel, gc_safe ∅ 0 redelivery (by decide +kernel)⟩

theorem gc_loses_blob_in_window : (redeliveryInWindow.foldl System.step (System.start ∅ 0)).safe = false := by
  decide +kernel

end Mailezine.Store
