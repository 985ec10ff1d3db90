import Mailezine.Mailstore.Sequential
import Mailezine.Store.GcSafety

/-! GC completeness, for operations that run one after another.

    Link counters are rows of an account, claims and blobs are shared. A blob is covered when some
    account links it or a claim is queued for it: a first link drops the claim of the blob it links, a
    last unlink queues one, a pass drops the claims of linked blobs and of the blobs it reclaims, and
    a purge queues a claim for every link row it deletes. `sweepBlobs` is a pass of `Sweep` that
    nothing interrupts. -/

namespace Mailezine.Store
open Mailstore Schemes List

/-! ### A whole pass -/

/-- The pass after its mark phase. -/
def Sweep.marked (s : Sweep) (f : Facade) : Sweep := (({ s with pc := .mark } : Sweep).step f).1

/-- Delete the zero link rows of a reclaimed blob. -/
def dropZeroRows (blob : Str) (rows : List Nat) (f : Facade) : Facade :=
  rows.foldl (fun f a => f.withKV (f.kv.modify a (·.dropLink blob))) f

/-- The zero rows of a blob that the mark phase has seen. -/
def Sweep.zeroRowsOf (s : Sweep) (blob : Str) : List Nat :=
  (s.zeroRows.filter fun r => r.1 = blob).map (·.2)

/-- Delete a blob, its claim and its zero rows. -/
def Sweep.reclaimBlob (s : Sweep) (blob : Str) (f : Facade) : Facade :=
  let gone := f.deleteBlob blob
  dropZeroRows blob (s.zeroRowsOf blob) (gone.withKV (gone.kv.deleteBlobGCClaim blob))

/-- The loop over the claims, with the blobs it reclaims. -/
def Sweep.pass (s : Sweep) : List (Str × Nat) → Facade → Facade × List Str
  | [], f => (f, [])
  | (blob, queued) :: rest, f =>
    if blob ∈ s.live then s.pass rest (f.withKV (f.kv.deleteBlobGCClaim blob))
    else if s.due queued && s.claimStillDue blob f.kv then
      let r := s.pass rest (s.reclaimBlob blob f)
      (r.1, blob :: r.2)
    else s.pass rest f

/-- `SweepBlobs`, run to its end: the stores after it and the blobs it reclaimed. -/
def sweepBlobs (grace now : Nat) (f : Facade) : Facade × List Str :=
  let s := Sweep.marked { grace := grace, now := now } f
  s.pass (f.kv.gcClaims.toList.insertionSort fun c d => c.2 ≤ d.2) f

/-! ### The pass as steps -/

/-- A pass gets from one state to another in some steps that nothing interrupts. -/
def Sweep.Reaches : Sweep × Facade → Sweep × Facade → Prop :=
  Relation.ReflTransGen fun c d => d = c.1.step c.2

theorem Sweep.Reaches.of_step {c d e : Sweep × Facade} (hd : c.1.step c.2 = d)
    (h : Sweep.Reaches d e) : Sweep.Reaches c e :=
  .head hd.symm h

theorem reaches_dropZero (blob : Str) (rows : List Nat) : ∀ (s : Sweep) (f : Facade),
    Sweep.Reaches ({ s with pc := .dropZero blob rows }, f)
      ({ s with reclaimed := s.reclaimed + 1, pc := .loop }, dropZeroRows blob rows f) := by
  induction rows with
  | nil => exact fun s f => .of_step rfl .refl
  | cons a rows ih => exact fun s f => .of_step rfl (ih s _)

/-- What the loop does depends on the pass's arguments and marks only. -/
theorem Sweep.pass_congr (s : Sweep) (cs : List (Str × Nat)) (n : Nat) (pc : SweepPC)
    (claims : List (Str × Nat)) : ∀ f,
    ({ s with claims := cs, reclaimed := n, pc := pc } : Sweep).pass claims f = s.pass claims f := by
  induction claims with
  | nil => exact fun f => rfl
  | cons c rest ih =>
    intro f
    simp only [Sweep.pass, ih]
    rfl

theorem step_recheck (s : Sweep) (rest : List (Str × Nat)) (blob : Str) (f : Facade) :
    ({ s with claims := rest, pc := .recheck blob } : Sweep).step f =
      ({ s with
        claims := rest
        pc := if s.claimStillDue blob f.kv then .reclaim blob else .loop }, f) := rfl

/-- From the head of its loop a pass gets to its end and does what `pass` says on the way. -/
theorem reaches_loop (claims : List (Str × Nat)) : ∀ (s : Sweep) (f : Facade),
    Sweep.Reaches ({ s with claims := claims, pc := .loop }, f)
      ({ s with
        claims := []
        reclaimed := s.reclaimed + (s.pass claims f).2.length
        pc := .loop }, (s.pass claims f).1) := by
  induction claims with
  | nil => exact fun s f => .refl
  | cons c rest ih =>
    obtain ⟨blob, queued⟩ := c
    intro s f
    have hdue' : ∀ t : Sweep, t.grace = s.grace → t.now = s.now → t.due queued = s.due queued :=
      fun t hg hn => by simp only [Sweep.due, hg, hn]
    by_cases hlive : blob ∈ s.live
    · refine .of_step (d := ({ s with claims := rest, pc := .loop }, _)) (by
        simp only [Sweep.step, if_pos hlive]; rfl) ?_
      simpa only [Sweep.pass, if_pos hlive] using ih s _
    by_cases hdue : s.due queued = true
    · refine .of_step (d := ({ s with claims := rest, pc := .recheck blob }, f)) (by
        simp [Sweep.step, hlive, hdue', hdue]) ?_
      by_cases hstill : s.claimStillDue blob f.kv = true
      · refine .of_step (d := ({ s with claims := rest, pc := .reclaim blob }, f))
          (by rw [step_recheck, if_pos hstill]) ?_
        refine .of_step rfl (.of_step rfl ?_)
        refine (reaches_dropZero blob _ _ _).trans ?_
        have hrest := ih { s with reclaimed := s.reclaimed + 1 } (s.reclaimBlob blob f)
        rw [Sweep.pass_congr s s.claims (s.reclaimed + 1) s.pc] at hrest
        simp only [Sweep.pass, if_neg hlive, hdue, hstill, Bool.and_self, if_true, length_cons]
        rw [Nat.add_comm (List.length _) 1, ← Nat.add_assoc]
        exact hrest
      · refine .of_step (d := ({ s with claims := rest, pc := .loop }, f))
          (by rw [step_recheck, if_neg hstill]) ?_
        simpa only [Sweep.pass, if_neg hlive, hdue, hstill, Bool.and_false, if_false,
          Bool.false_eq_true] using ih s f
    · refine .of_step (d := ({ s with claims := rest, pc := .loop }, f)) (by
        simp [Sweep.step, hlive, hdue', hdue]) ?_
      simpa only [Sweep.pass, if_neg hlive, hdue, Bool.false_and, if_false, Bool.false_eq_true]
        using ih s f

/-- REFINES: an uninterrupted pass of the machine ends with what `sweepBlobs` returns. -/
theorem reaches_sweepBlobs (grace now : Nat) (f : Facade) :
    ∃ s, Sweep.Reaches ({ grace := grace, now := now }, f) (s, (sweepBlobs grace now f).1) ∧
      s.pc = .loop ∧ s.claims = [] ∧ s.reclaimed = (sweepBlobs grace now f).2.length := by
  have h := reaches_loop (f.kv.gcClaims.toList.insertionSort fun c d => c.2 ≤ d.2)
    (Sweep.marked { grace := grace, now := now } f) f
  exact ⟨_, .of_step rfl (.of_step rfl h), rfl, rfl, Nat.zero_add _⟩

/-! ### What a pass reclaims -/

/-- Some account links the blob. -/
def KV.linked (kv : KV) (b : Str) : Prop := ∃ a, 0 < (kv.account a).refs b

/-- The marks of a pass are true of the store. -/
structure Sweep.Marks (s : Sweep) (kv : KV) : Prop where
  live : ∀ b, b ∈ s.live ↔ kv.linked b
  zero : ∀ r ∈ s.zeroRows, (kv.account r.2).refs r.1 = 0

theorem marks_marked (s : Sweep) (f : Facade) : (s.marked f).Marks f.kv := by
  refine ⟨fun b => ⟨fun hb => ?_, fun ⟨a, ha⟩ => ?_⟩, fun r hr => ?_⟩
  · obtain ⟨⟨a, b', n⟩, hr, rfl⟩ := List.mem_map.mp hb
    obtain ⟨hrow, hpos⟩ := mem_filter.mp hr
    exact ⟨a, by simpa [Account.refs, mem_scanBlobLinkSpace.mp hrow] using hpos⟩
  · by_contra hb
    exact absurd (refs_of_not_marked hb a) ha.ne'
  · obtain ⟨⟨a, b', n⟩, hrow, rfl⟩ := List.mem_map.mp hr
    obtain ⟨hrow, hzero⟩ := mem_filter.mp hrow
    simpa [Account.refs, mem_scanBlobLinkSpace.mp hrow] using hzero

theorem Sweep.Marks.congr {s : Sweep} {kv kv' : KV} (h : s.Marks kv)
    (hrefs : ∀ a b, (kv'.account a).refs b = (kv.account a).refs b) : s.Marks kv' where
  live := fun b => by simp only [h.live, KV.linked, hrefs]
  zero := fun r hr => (hrefs _ _).trans (h.zero r hr)

/-- Dropping rows at zero changes no counter and no claim. -/
theorem dropZeroRows_spec (blob : Str) (rows : List Nat) : ∀ f : Facade,
    (∀ a ∈ rows, (f.kv.account a).refs blob = 0) →
    (∀ a b, ((dropZeroRows blob rows f).kv.account a).refs b = (f.kv.account a).refs b) ∧
    (dropZeroRows blob rows f).kv.gcClaims = f.kv.gcClaims ∧ (dropZeroRows blob rows f).blobs = f.blobs := by
  induction rows with
  | nil => intro f _; exact ⟨fun _ _ => rfl, rfl, rfl⟩
  | cons a rows ih =>
    intro f h0
    have hrefs : ∀ c b, ((f.kv.modify a (·.dropLink blob)).account c).refs b =
        (f.kv.account c).refs b := refs_dropLink (h0 a (by simp))
    obtain ⟨h₁, h₂, h₃⟩ := ih (f.withKV (f.kv.modify a (·.dropLink blob)))
      fun c hc => (hrefs c blob).trans (h0 c (by simp [hc]))
    exact ⟨fun c b => (h₁ c b).trans (hrefs c b), h₂, h₃⟩

/-- Reclaiming a blob takes its claim and its file, and changes no counter. -/
theorem reclaimBlob_spec {s : Sweep} {f : Facade} (h : s.Marks f.kv) (blob : Str) :
    (∀ a b, ((s.reclaimBlob blob f).kv.account a).refs b = (f.kv.account a).refs b) ∧
    (s.reclaimBlob blob f).kv.gcClaims = f.kv.gcClaims.erase blob ∧
    (s.reclaimBlob blob f).blobs = f.blobs.erase blob := by
  refine dropZeroRows_spec blob _ _ fun a ha => ?_
  obtain ⟨r, hr, rfl⟩ := List.mem_map.mp ha
  obtain ⟨hr, hb⟩ := mem_filter.mp hr
  exact of_decide_eq_true hb ▸ h.zero r hr

/-- What the loop leaves: the counters as they were, the claims of unlinked blobs that it did not
    reclaim, and the files of all others. It reclaims the unlinked blobs whose claims are due. -/
structure PassSpec (s : Sweep) (claims : List (Str × Nat)) (f g : Facade) (bs : List Str) : Prop where
  refs : ∀ a b, (g.kv.account a).refs b = (f.kv.account a).refs b
  kept : ∀ b, ¬f.kv.linked b → b ∉ bs → g.kv.gcClaims[b]? = f.kv.gcClaims[b]?
  blobs : ∀ b, b ∈ g.blobs ↔ b ∈ f.blobs ∧ b ∉ bs
  reclaimed : ∀ b, b ∈ bs ↔ ¬f.kv.linked b ∧ ∃ q, (b, q) ∈ claims ∧ s.due q = true

theorem Sweep.pass_spec (s : Sweep) (claims : List (Str × Nat)) : ∀ f : Facade, s.Marks f.kv →
    (claims.map (·.1)).Nodup → (∀ c ∈ claims, f.kv.gcClaims[c.1]? = some c.2) →
    PassSpec s claims f (s.pass claims f).1 (s.pass claims f).2 := by
  induction claims with
  | nil =>
    intro f _ _ _
    exact ⟨fun _ _ => rfl, fun _ _ _ => rfl, by simp [Sweep.pass], by simp [Sweep.pass]⟩
  | cons c rest ih =>
    obtain ⟨blob, queued⟩ := c
    intro f hm hnd hcl
    obtain ⟨hnew, hnd⟩ := nodup_cons.mp hnd
    have hne : ∀ c ∈ rest, ¬blob = c.1 := fun c hc he => hnew (List.mem_map.mpr ⟨c, hc, he.symm⟩)
    -- claims of other blobs are still there when the loop gets to them
    have hrest : ∀ c ∈ rest, (f.kv.gcClaims.erase blob)[c.1]? = some c.2 := fun c hc => by
      rw [getElem?_erase_row, if_neg (hne c hc)]
      exact hcl c (mem_cons_of_mem _ hc)
    by_cases hlive : blob ∈ s.live
    · have h := ih (f.withKV (f.kv.deleteBlobGCClaim blob)) (hm.congr fun _ _ => rfl) hnd hrest
      have hlinked := (hm.live blob).mp hlive
      simp only [Sweep.pass, if_pos hlive]
      refine ⟨h.refs, fun b hb hbs => ?_, h.blobs, fun b => ?_⟩
      · rw [h.kept b hb hbs]
        have hbb : ¬blob = b := fun he => hb (he ▸ hlinked)
        exact (getElem?_erase_row ..).trans (if_neg hbb)
      · rw [h.reclaimed b]
        refine and_congr_right fun hb => ?_
        have hbb : b ≠ blob := fun he => hb (he ▸ hlinked)
        simp [hbb]
    by_cases hdue : s.due queued = true
    · have hstill : s.claimStillDue blob f.kv = true := by
        rw [Sweep.claimStillDue, hcl (blob, queued) (by simp)]
        exact hdue
      obtain ⟨hrefs, hclaims, hblobs⟩ := reclaimBlob_spec hm blob
      have h := ih (s.reclaimBlob blob f) (hm.congr hrefs) hnd fun c hc => hclaims ▸ hrest c hc
      have hlink : ∀ b, (s.reclaimBlob blob f).kv.linked b ↔ f.kv.linked b := by
        intro b; simp only [KV.linked, hrefs]
      simp only [Sweep.pass, if_neg hlive, hdue, hstill, Bool.and_self, if_true]
      refine ⟨fun a b => (h.refs a b).trans (hrefs a b), fun b hb hbs => ?_, fun b => ?_, fun b => ?_⟩
      · rw [mem_cons, not_or] at hbs
        rw [h.kept b ((hlink b).not.mpr hb) hbs.2, hclaims, getElem?_erase_row,
          if_neg fun he => hbs.1 he.symm]
      · rw [h.blobs, hblobs, mem_cons, not_or]
        simp only [mem_erase_row]
        tauto
      · rw [mem_cons, h.reclaimed b, hlink]
        constructor
        · rintro (rfl | ⟨hb, q, hq, hd⟩)
          · exact ⟨fun hl => hlive ((hm.live b).mpr hl), queued, by simp, hdue⟩
          · exact ⟨hb, q, by simp [hq], hd⟩
        · rintro ⟨hb, q, hq, hd⟩
          rcases mem_cons.mp hq with he | hq
          · exact Or.inl (congrArg Prod.fst he)
          · exact Or.inr ⟨hb, q, hq, hd⟩
    · have h := ih f hm hnd fun c hc => hcl c (mem_cons_of_mem _ hc)
      simp only [Sweep.pass, if_neg hlive, hdue, Bool.false_and, if_false, Bool.false_eq_true]
      refine ⟨h.refs, h.kept, h.blobs, fun b => ?_⟩
      rw [h.reclaimed b]
      refine and_congr_right fun _ => ⟨fun ⟨q, hq, hd⟩ => ⟨q, by simp [hq], hd⟩, ?_⟩
      rintro ⟨q, hq, hd⟩
      rcases mem_cons.mp hq with he | hq
      · obtain rfl : q = queued := congrArg Prod.snd he
        exact absurd hd hdue
      · exact ⟨q, hq, hd⟩

/-- The claims in the order the pass takes them. -/
theorem sweepBlobs_spec (grace now : Nat) (f : Facade) :
    PassSpec { grace := grace, now := now } f.kv.gcClaims.toList f (sweepBlobs grace now f).1
      (sweepBlobs grace now f).2 := by
  have hperm := perm_insertionSort (fun c d : Str × Nat => c.2 ≤ d.2) f.kv.gcClaims.toList
  have h := (Sweep.marked { grace := grace, now := now } f).pass_spec _ f (marks_marked _ f)
    ((hperm.map _).nodup_iff.mpr (nodup_scan_keys _)) fun c hc => mem_scan.mp (hperm.mem_iff.mp hc)
  refine ⟨h.refs, h.kept, h.blobs, fun b => (h.reclaimed b).trans ?_⟩
  simp only [hperm.mem_iff]
  rfl

/-! ### Covered blobs -/

/-- Some account links the blob, or a claim is queued for it. -/
def KV.Covered (kv : KV) (b : Str) : Prop := kv.linked b ∨ (kv.gcClaims[b]?).isSome

theorem covered_deliverOne (a : Nat) (r : DeliverRequest) (kv : KV) {b : Str}
    (h : b = r.blobID ∨ kv.Covered b) : (deliverOne a r kv).1.Covered b := by
  have hgrow : ∀ c, (kv.account c).refs b ≤ ((deliverOne a r kv).1.account c).refs b := fun c => by
    rw [refs_deliverOne]; exact Nat.le_add_right ..
  by_cases hb : r.blobID = b
  · refine Or.inl ⟨a, ?_⟩
    rw [refs_deliverOne, if_pos ⟨rfl, hb⟩]
    exact Nat.succ_pos _
  · rcases h with rfl | ⟨c, hc⟩ | hclaim
    · exact absurd rfl hb
    · exact Or.inl ⟨c, hc.trans_le (hgrow c)⟩
    · refine Or.inr ?_
      unfold deliverOne stageBlobLink
      dsimp only
      split
      · simpa [hb] using hclaim
      · simpa using hclaim

/-- A last unlink queues the claim, any other leaves a link. -/
theorem covered_unlinkBlob (a : Nat) (blob : Str) (now : Nat) (kv : KV) {b : Str}
    (h : kv.Covered b) : (unlinkBlob a blob now kv).Covered b := by
  have hclaim : (kv.gcClaims[b]?).isSome → ((unlinkBlob a blob now kv).gcClaims[b]?).isSome := by
    intro hb
    unfold unlinkBlob
    split
    · exact hb
    · simp only [KV.putClaim_gcClaims, KV.gcClaims_modify, getElem?_insert_row]
      split_ifs
      · rfl
      · exact hb
    · exact hb
  rcases h with ⟨c, hc⟩ | hb
  · have hrefs : ((unlinkBlob a blob now kv).account c).refs b =
        (kv.account c).refs b - if a = c ∧ blob = b then 1 else 0 := by
      rw [account_unlinkBlob]
      by_cases hac : a = c
      · simp [hac, Account.refs_unlink]
      · simp [hac]
    by_cases hlast : a = c ∧ blob = b ∧ (kv.account c).refs b = 1
    · obtain ⟨rfl, rfl, h1⟩ := hlast
      refine Or.inr ?_
      unfold unlinkBlob
      rw [h1]
      simp
    · refine Or.inl ⟨c, ?_⟩
      rw [hrefs]
      split_ifs with hac
      · have : (kv.account c).refs b ≠ 1 := fun h1 => hlast ⟨hac.1, hac.2, h1⟩
        omega
      · exact hc
  · exact Or.inr (hclaim hb)

theorem KV.Covered.congr {kv kv' : KV} {b : Str} (h : kv.Covered b)
    (hlinks : ∀ a, (kv'.account a).links = (kv.account a).links)
    (hclaims : kv'.gcClaims = kv.gcClaims) : kv'.Covered b := by
  unfold KV.Covered KV.linked Account.refs at h ⊢
  simpa only [hlinks, hclaims] using h

theorem covered_createAccount (email : Str) (kv : KV) {b : Str} (h : kv.Covered b) :
    (createAccount email kv).1.Covered b := by
  unfold createAccount
  split
  · exact h
  · exact h.congr (fun _ => rfl) rfl

theorem covered_deleteEmail (a docID : Nat) (require : Option Str) (extra : List IndexOp) (now : Nat)
    (kv : KV) {b : Str} (h : kv.Covered b) :
    (deleteEmailAtomically a docID require extra now kv).1.Covered b := by
  unfold deleteEmailAtomically
  cases hd : (kv.account a).emails[docID]? with
  | none => exact h
  | some d =>
    have hdel : (kv.modify a (·.delete docID d extra)).Covered b := by
      refine h.congr (fun c => ?_) rfl
      rw [KV.account_modify]
      split_ifs
      · exact (indexOps_keep extra _).2.1
      · rfl
    dsimp only
    split_ifs
    · exact h
    · exact hdel
    · exact covered_unlinkBlob a _ now _ hdel

theorem covered_sweepBlobs (grace now : Nat) (f : Facade) {b : Str} (h : f.kv.Covered b)
    (hb : b ∉ (sweepBlobs grace now f).2) : (sweepBlobs grace now f).1.kv.Covered b := by
  have hs := sweepBlobs_spec grace now f
  by_cases hl : f.kv.linked b
  · obtain ⟨a, ha⟩ := hl
    exact Or.inl ⟨a, (hs.refs a b).symm ▸ ha⟩
  · rcases h with h | h
    · exact absurd h hl
    · exact Or.inr (hs.kept b hl hb ▸ h)

end Mailezine.Store

namespace Mailezine.Mailstore
open Schemes Store

/-! ### Purges -/

/-- Queue a claim for every blob of a list. -/
def putClaims (blobs : List Str) (now : Nat) (kv : KV) : KV :=
  blobs.foldl (fun kv b => kv.putClaim b now) kv

theorem exec_putClaims (blobs : List Str) (now : Nat) : ∀ n : Node,
    (Prog.forEach (fun b => put fun kv => kv.putClaim b now) blobs).exec n =
      (n.withKV (putClaims blobs now n.kv), .ok ()) := by
  induction blobs with
  | nil => exact fun n => rfl
  | cons b blobs ih => exact fun n => ih (n.withKV (n.kv.putClaim b now))

theorem putClaims_spec (blobs : List Str) (now : Nat) : ∀ kv : KV,
    (∀ a, (putClaims blobs now kv).account a = kv.account a) ∧
    ∀ b, b ∈ blobs ∨ (kv.gcClaims[b]?).isSome → ((putClaims blobs now kv).gcClaims[b]?).isSome := by
  induction blobs with
  | nil => exact fun kv => ⟨fun _ => rfl, fun b hb => hb.resolve_left (by simp)⟩
  | cons b' blobs ih =>
    intro kv
    obtain ⟨hacct, hclaim⟩ := ih (kv.putClaim b' now)
    refine ⟨hacct, fun b hb => hclaim b ?_⟩
    rw [KV.putClaim_gcClaims, getElem?_insert_row]
    split_ifs with he
    · exact Or.inr rfl
    · refine hb.imp_left fun hb => ?_
      rcases List.mem_cons.mp hb with rfl | hb
      · exact absurd rfl he
      · exact hb

/-- What a purge does to the key-value store. -/
theorem kv_deleteAccount (account : Str) (n : Node) :
    ((deleteAccount account).exec n).1.kv = match n.kv.registry[account]? with
      | none => n.kv
      | some a => dropRegistry account (putClaims ((n.kv.account a).links.toList.map (·.1))
          (unix n.store.now) (purgeRows a n.kv)) := by
  unfold deleteAccount
  cases h : n.kv.registry[account]? with
  | none =>
    have herr : (getE (accountByEmail account)).exec n = (n, .error .notFound) := by
      simp [accountByEmail, h]
    rw [Prog.exec_bind_error herr]
  | some a =>
    have hok : (getE (accountByEmail account)).exec n = (n, .ok a) := by simp [accountByEmail, h]
    rw [Prog.exec_bind_ok hok, Prog.exec_bind_ok (exec_get _ n), Prog.exec_bind_ok (exec_put _ n),
      Prog.exec_bind_ok (exec_peek _ _), Prog.exec_bind_ok (exec_putClaims _ _ _),
      Prog.exec_bind_ok (exec_put _ _)]
    rfl

theorem account_purgeRows (a c : Nat) (kv : KV) :
    (purgeRows a kv).account c = if a = c then {} else kv.account c := by
  unfold KV.account
  rw [purgeRows_accounts, getElem?_erase_row]
  split_ifs <;> rfl

theorem covered_deleteAccount (account : Str) (n : Node) {b : Str} (h : n.kv.Covered b) :
    ((deleteAccount account).exec n).1.kv.Covered b := by
  rw [kv_deleteAccount]
  cases hreg : n.kv.registry[account]? with
  | none => exact h
  | some a =>
    dsimp only
    obtain ⟨hacct, hclaim⟩ := putClaims_spec ((n.kv.account a).links.toList.map (·.1))
      (unix n.store.now) (purgeRows a n.kv)
    rcases h with ⟨c, hc⟩ | hb
    · by_cases hac : a = c
      · -- the row goes, and its blob is one of those the purge claims
        subst hac
        refine Or.inr (hclaim b (Or.inl ?_))
        unfold Account.refs at hc
        cases hl : (n.kv.account a).links[b]? with
        | none => simp [hl] at hc
        | some k => exact List.mem_map.mpr ⟨(b, k), mem_scan.mpr hl, rfl⟩
      · refine Or.inl ⟨c, ?_⟩
        have : (dropRegistry account (putClaims ((n.kv.account a).links.toList.map (·.1))
          (unix n.store.now) (purgeRows a n.kv))).account c = n.kv.account c :=
          (hacct c).trans ((account_purgeRows a c n.kv).trans (if_neg hac))
        rwa [this]
    · exact Or.inr (hclaim b (Or.inr hb))

/-! ### Runs -/

/-- A complete operation. Document IDs, index writes and the `now` of a pass are the caller's; `tick`
    lets time pass. -/
inductive GcOp where
  | createAccount (email : Str)
  | putBlob (id data : Str)
  | deliverEmail (a : Nat) (r : DeliverRequest)
  | deleteEmail (a docID : Nat) (require : Option Str) (extra : List IndexOp)
  | deleteAccount (account : Str)
  | sweepBlobs (grace now : Nat)
  | tick (d : Nat)

/-- A node, and the blobs that some delivery has linked and no pass has reclaimed since. -/
structure Collector where
  node : Node := {}
  pending : List Str := []

/-- Run one operation. -/
def Collector.step (σ : Collector) : GcOp → Collector
  | .createAccount email => ⟨σ.node.withKV (Store.createAccount email σ.node.kv).1, σ.pending⟩
  | .putBlob id data => ⟨σ.node.putBlob id data, σ.pending⟩
  | .deliverEmail a r =>
    ⟨σ.node.withKV (deliverOne a r σ.node.kv).1, r.blobID :: σ.pending⟩
  | .deleteEmail a docID require extra =>
    ⟨σ.node.withKV (deleteEmailAtomically a docID require extra σ.node.store.now σ.node.kv).1,
      σ.pending⟩
  | .deleteAccount account => ⟨((Mailstore.deleteAccount account).exec σ.node).1, σ.pending⟩
  | .sweepBlobs grace now =>
    let r := Store.sweepBlobs grace now σ.node.store
    ⟨{ σ.node with store := r.1 }, σ.pending.filter (· ∉ r.2)⟩
  | .tick d => ⟨σ.node.setClock (σ.node.store.now + d), σ.pending⟩

/-- Run operations one after another. -/
def Collector.run (σ : Collector) (ops : List GcOp) : Collector := ops.foldl Collector.step σ

/-- Every pending blob is covered. -/
def Collector.AllCovered (σ : Collector) : Prop := ∀ b ∈ σ.pending, σ.node.kv.Covered b

theorem Collector.AllCovered.step {σ : Collector} (h : σ.AllCovered) (op : GcOp) : (σ.step op).AllCovered := by
  cases op with
  | createAccount email => exact fun b hb => covered_createAccount email σ.node.kv (h b hb)
  | putBlob id data => exact h
  | deliverEmail a r =>
    exact fun b hb => covered_deliverOne a r σ.node.kv ((List.mem_cons.mp hb).imp_right (h b))
  | deleteEmail a docID require extra =>
    exact fun b hb => covered_deleteEmail a docID require extra σ.node.store.now _ (h b hb)
  | deleteAccount account => exact fun b hb => covered_deleteAccount account σ.node (h b hb)
  | sweepBlobs grace now =>
    intro b hb
    obtain ⟨hb, hkept⟩ := List.mem_filter.mp hb
    exact covered_sweepBlobs grace now σ.node.store (h b hb) (of_decide_eq_true hkept)
  | tick d => exact h

theorem Collector.AllCovered.run (ops : List GcOp) : ∀ {σ : Collector}, σ.AllCovered →
    (σ.run ops).AllCovered := by
  induction ops with
  | nil => exact fun h => h
  | cons op ops ih => exact fun h => ih (h.step op)

/-- COLLECTED: after any run of complete operations, a blob that was linked and not reclaimed since, and
    that no account links any more, has a claim; and a pass reclaims exactly the claimed blobs that no
    account links, of those whose claim is at least `grace` old at its `now`, and no other file goes. -/
theorem gc_complete (ops : List GcOp) :
    let σ := ({} : Collector).run ops
    (∀ b ∈ σ.pending, (∀ a, (σ.node.kv.account a).refs b = 0) →
      ∃ queued, σ.node.kv.gcClaims[b]? = some queued) ∧
    ∀ grace now,
      let r := sweepBlobs grace now σ.node.store
      (∀ b, b ∈ r.2 ↔
        (∃ queued, σ.node.kv.gcClaims[b]? = some queued ∧ 10 ^ 9 * queued + grace ≤ now) ∧
          ∀ a, (σ.node.kv.account a).refs b = 0) ∧
      ∀ b, b ∈ r.1.blobs ↔ b ∈ σ.node.store.blobs ∧ b ∉ r.2 := by
  intro σ
  have h : σ.AllCovered := Collector.AllCovered.run ops (by simp [Collector.AllCovered])
  refine ⟨fun b hb h0 => ?_, fun grace now => ⟨fun b => ?_, (sweepBlobs_spec grace now _).blobs⟩⟩
  · rcases h b hb with ⟨a, ha⟩ | hclaim
    · exact absurd (h0 a) ha.ne'
    · exact Option.isSome_iff_exists.mp hclaim
  · rw [(sweepBlobs_spec grace now σ.node.store).reclaimed b, and_comm]
    refine and_congr (exists_congr fun q => and_congr mem_scan decide_eq_true_iff) ?_
    unfold KV.linked
    simp only [Nat.pos_iff_ne_zero, not_exists, not_not]

/-- The blob of an account that was purged goes with the next pass. -/
example : let σ := ({} : Collector).run [.createAccount (ascii "a"), .putBlob (ascii "b") [],
        .deliverEmail 1 { mailboxID := 1, fields := {}, blobID := ascii "b", size := 0 }, .deleteAccount (ascii "a")]
    ascii "b" ∈ σ.node.store.blobs ∧ (sweepBlobs 0 0 σ.node.store).2 = [ascii "b"] := by
  decide +kernel

end Mailezine.Mailstore
