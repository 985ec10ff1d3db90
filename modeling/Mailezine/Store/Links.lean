import Mailezine.Store.Txn

/-! What the transactions do to blob links and GC claims. -/

namespace Mailezine.Store
open Mailstore Schemes

/-! ### Link rows of one account -/

/-- Replace the blob link rows. -/
@[simps] def Account.withLinks (x : Account) (links : Names Nat) : Account := { x with links := links }

/-- The account rows of `stageBlobLink`. -/
@[simps] def Account.link (x : Account) (blob : Str) : Account :=
  { x with links := x.links.insert blob (x.refs blob + 1) }

/-- The account rows of `unlinkBlob`. -/
def Account.unlink (x : Account) (blob : Str) : Account :=
  match x.refs blob with
  | 0 => x.dropLink blob
  | n + 1 => x.putLink blob n

variable (x : Account)

theorem Account.unlink_eq (blob : Str) : ∃ links, x.unlink blob = x.withLinks links := by
  unfold Account.unlink
  split <;> exact ⟨_, rfl⟩

@[simp] theorem Account.emails_unlink (blob : Str) : (x.unlink blob).emails = x.emails := by
  obtain ⟨links, h⟩ := x.unlink_eq blob; simp [h]

@[simp] theorem Account.lastEmail_unlink (blob : Str) : (x.unlink blob).lastEmail = x.lastEmail := by
  obtain ⟨links, h⟩ := x.unlink_eq blob; simp [h]

@[simp] theorem Account.quota_unlink (blob : Str) : (x.unlink blob).quota = x.quota := by
  obtain ⟨links, h⟩ := x.unlink_eq blob; simp [h]

theorem Account.refs_link (blob b : Str) : (x.link blob).refs b = x.refs b + if blob = b then 1 else 0 := by
  by_cases hb : blob = b
  · subst hb; simp [Account.refs]
  · simp [Account.refs, hb]

theorem Account.refs_unlink (blob b : Str) : (x.unlink blob).refs b = x.refs b - if blob = b then 1 else 0 := by
  unfold Account.unlink
  by_cases hb : blob = b
  · subst hb
    split <;> rename_i h <;> simp [Account.refs] at h ⊢ <;> omega
  · split <;> simp [Account.refs, hb]

/-! ### Links and claims of the store -/

theorem account_stageBlobLink (a : Nat) (blob : Str) (kv : KV) (c : Nat) : (stageBlobLink a blob kv).account c =
      if a = c then (kv.account c).link blob else kv.account c := by
  unfold stageBlobLink
  dsimp only
  by_cases hc : a = c
  · subst hc
    split <;> simp [Account.link, Account.putLink]
  · split <;> simp [hc]

theorem registry_stageBlobLink (a : Nat) (blob : Str) (kv : KV) :
    (stageBlobLink a blob kv).registry = kv.registry := by
  unfold stageBlobLink
  simp only
  split_ifs <;> rfl

theorem claim_stageBlobLink {a : Nat} {blob : Str} {kv : KV} {b : Str} {q : Nat}
    (h : (stageBlobLink a blob kv).gcClaims[b]? = some q) :
    kv.gcClaims[b]? = some q ∧ (blob = b → (kv.account a).refs b ≠ 0) := by
  unfold stageBlobLink at h
  dsimp only at h
  split at h
  · rename_i h0
    simp only [KV.deleteBlobGCClaim_gcClaims, KV.gcClaims_modify, getElem?_erase_row] at h
    split_ifs at h with hb
    exact ⟨h, fun he => absurd he hb⟩
  · rename_i h0
    exact ⟨by simpa using h, fun he => he ▸ h0⟩

theorem account_unlinkBlob (a : Nat) (blob : Str) (now : Nat) (kv : KV) (c : Nat) :
    (unlinkBlob a blob now kv).account c = if a = c then (kv.account c).unlink blob else kv.account c := by
  unfold unlinkBlob
  by_cases hc : a = c
  · subst hc
    split <;> rename_i h <;> simp [Account.unlink, h]
  · split <;> simp [hc]

theorem registry_unlinkBlob (a : Nat) (blob : Str) (now : Nat) (kv : KV) :
    (unlinkBlob a blob now kv).registry = kv.registry := by
  unfold unlinkBlob
  split <;> rfl

theorem claim_unlinkBlob {a : Nat} {blob : Str} {now : Nat} {kv : KV} {b : Str} {q : Nat}
    (h : (unlinkBlob a blob now kv).gcClaims[b]? = some q) : kv.gcClaims[b]? = some q ∨ q = unix now := by
  unfold unlinkBlob at h
  split at h
  · exact Or.inl (by simpa using h)
  · simp only [KV.putClaim_gcClaims, KV.gcClaims_modify, getElem?_insert_row] at h
    split_ifs at h
    · exact Or.inr (by simpa using h.symm)
    · exact Or.inl h
  · exact Or.inl (by simpa using h)

/-- A row at zero can go: the counters read the same. -/
theorem refs_dropLink {kv : KV} {a : Nat} {blob : Str} (h : (kv.account a).refs blob = 0) (c : Nat)
    (b : Str) : ((kv.modify a (·.dropLink blob)).account c).refs b = (kv.account c).refs b := by
  by_cases hc : a = c
  · subst hc
    by_cases hb : blob = b
    · subst hb; simpa [Account.refs] using h.symm
    · simp [Account.refs, hb]
  · simp [hc]

/-- Index writes leave the documents and their accounts alone. -/
theorem indexOps_keep (extra : List IndexOp) : ∀ x : Account,
    (extra.foldl Account.indexOp x).emails = x.emails ∧ (extra.foldl Account.indexOp x).links = x.links ∧
    (extra.foldl Account.indexOp x).lastEmail = x.lastEmail ∧
    (extra.foldl Account.indexOp x).quota = x.quota := by
  induction extra with
  | nil => intro x; exact ⟨rfl, rfl, rfl, rfl⟩
  | cons op ops ih =>
    intro x
    obtain ⟨h₁, h₂, h₃, h₄⟩ := ih (x.indexOp op)
    rw [List.foldl_cons, h₁, h₂, h₃, h₄]
    cases op <;> exact ⟨rfl, rfl, rfl, rfl⟩

/-! ### Deliveries and deletes -/

/-- The account after `deliverOne`. -/
theorem account_deliverOne (a : Nat) (r : DeliverRequest) (kv : KV) (c : Nat) :
    (deliverOne a r kv).1.account c = if a = c then
      ((kv.account c).deliver r ((kv.account c).nextIDs r.mailboxID)).link r.blobID else kv.account c := by
  unfold deliverOne
  rw [account_stageBlobLink, KV.account_modify]
  by_cases hc : a = c
  · rw [if_pos hc, if_pos hc, if_pos hc, hc]
  · simp [hc]

/-- The rows of a delete, link included. -/
def Account.remove (x : Account) (docID : Nat) (d : EmailDoc) (extra : List IndexOp) : Account :=
  let y := x.delete docID d extra
  if d.blob.getD [] = [] then y else y.unlink (d.blob.getD [])

/-- A delete fails and changes nothing, or it removes a document; any claim it leaves is old or of
    this moment. -/
theorem deleteEmailAtomically_cases (a docID : Nat) (require : Option Str) (extra : List IndexOp)
    (now : Nat) (kv : KV) : (∃ e, deleteEmailAtomically a docID require extra now kv = (kv, .error e)) ∨
    ∃ d kv', (kv.account a).emails[docID]? = some d ∧
      deleteEmailAtomically a docID require extra now kv = (kv', .ok ()) ∧ (∀ c, kv'.account c =
        if a = c then (kv.account c).remove docID d extra else kv.account c) ∧
      ∀ (b : Str) q, kv'.gcClaims[b]? = some q → kv.gcClaims[b]? = some q ∨ q = unix now := by
  unfold deleteEmailAtomically
  cases hd : (kv.account a).emails[docID]? with
  | none => exact Or.inl ⟨_, rfl⟩
  | some d =>
    dsimp only
    split
    · exact Or.inl ⟨_, rfl⟩
    refine Or.inr ⟨d, _, rfl, rfl, fun c => ?_, fun b q hq => ?_⟩
    · unfold Account.remove
      dsimp only
      by_cases hb : d.blob.getD [] = []
      · rw [if_pos hb, if_pos hb, KV.account_modify]
      · rw [if_neg hb, if_neg hb, account_unlinkBlob, KV.account_modify]
        by_cases hc : a = c
        · rw [if_pos hc, if_pos hc, if_pos hc]
        · rw [if_neg hc, if_neg hc, if_neg hc]
    · split_ifs at hq
      · exact Or.inl (by simpa using hq)
      · simpa using claim_unlinkBlob hq

variable (docID : Nat) (d : EmailDoc) (extra : List IndexOp)

theorem Account.emails_remove :
    (x.remove docID d extra).emails = x.emails.erase docID := by
  unfold Account.remove Account.delete
  dsimp only
  split_ifs <;> simp [indexOps_keep]

theorem Account.lastEmail_remove :
    (x.remove docID d extra).lastEmail = x.lastEmail := by
  unfold Account.remove Account.delete
  dsimp only
  split_ifs <;> simp [indexOps_keep]

theorem Account.quota_remove :
    (x.remove docID d extra).quota = refund x.quota (d.size.getD 0) := by
  unfold Account.remove Account.delete
  dsimp only
  split_ifs <;> simp [indexOps_keep]

/-- A document whose blob ID is not empty gives its link back. -/
theorem Account.refs_remove (hd : d.blob ≠ some []) (b : Str) :
    (x.remove docID d extra).refs b = x.refs b - if d.blob = some b then 1 else 0 := by
  have hrefs : (x.delete docID d extra).refs b = x.refs b := by
    unfold Account.refs Account.delete
    rw [(indexOps_keep extra _).2.1]
    rfl
  unfold Account.remove
  cases hb : d.blob with
  | none => simp [hrefs]
  | some blob =>
    have hne : blob ≠ [] := fun he => hd (by rw [hb, he])
    simp only [Option.getD_some, if_neg hne, Account.refs_unlink, hrefs, Option.some.injEq]

end Mailezine.Store
