import Mailezine.Mailstore.Surface

/-! `DeleteAccount`, and the account that an address gets after it.

    Account IDs are given out once, so the rows of a purged account are out of reach of the next one
    whether the purge collected them or not, and the keys of other accounts are no keys of its ID. What
    outlives a purge is what is filed under the address: the vacation records. -/

namespace Mailezine.Mailstore.Bytes
open Gostd Schemes Store Store.Bytes List

/-! ### The purge -/

/-- The collections that a purge goes through. -/
def collections : List UInt8 :=
  [collectionMailbox, collectionEmail, collectionThread, collectionIdentity, collectionEmailSubmission,
    collectionSieveScript, collectionPrincipal]

/-- The prefixes whose keys a purge collects. -/
def purgePrefixes (a : UInt32) : List Str :=
  collections.flatMap (fun c => [collectionKey a c, changeLogPrefix a c]) ++
    [(indexMailboxNameKey a []).take 5, counterKey a counterKindNextDoc [],
      counterKey a counterKindChange [], quotaKey a, blobLinkKey a []]

/-- The blobs that an account links. -/
def linkedBlobs (a : UInt32) (raw : Raw) : List Str :=
  (raw.scan (blobLinkKey a [])).map fun r => r.1.drop (blobLinkKey a []).length

/-- The keys that a purge collects. -/
def accountKeys (a : UInt32) (raw : Raw) : List Str :=
  (purgePrefixes a).flatMap fun p => (raw.scan p).map (·.1)

/-- `invalidateAccountIDs`. -/
def Engine.forgetAccount (e : Engine) (email : Str) (a : UInt32) : Engine :=
  { e with ids := {
      account := Function.update e.ids.account email none
      mailbox := Function.update e.ids.mailbox a.toNat fun _ => none } }

/-- `DeleteAccount`, run to its end. -/
def deleteAccount (account : Str) : MailOp Unit := do
  let a ← orNotFound (← findAccount account)
  let blobs ← onRaw (read fun raw => .ok (linkedBlobs a raw))
  let keys ← onRaw (read fun raw => .ok (accountKeys a raw))
  onRaw (append (keys.map fun k => (k, none)))
  let now ← look fun e => UInt64.ofNat (unix e.now)
  onRaw (append (blobs.map fun b => (metaBlobGCKey b, some (beUint64 now))))
  onRaw (append [(metaEmailKey account, none)])
  onRaw (append [(accountKey a, none)])
  modify (·.forgetAccount account a)

/-! ### Runs of an engine -/

/-- What happens to an engine. Reads provision, repair and memoize with the same steps. -/
inductive EngineOp where
  /-- An operation creates the account of an address. -/
  | create (account : Str)
  | purge (account : Str)
  /-- An operation writes or deletes rows under the account's ID: space, rest of the key, value. -/
  | write (account : Str) (rows : List (UInt8 × Str × Option Str))
  /-- `SetVacationLastSent`. -/
  | vacation (account sender : Str) (time : UInt64)
  /-- A GC claim is written or deleted, a blob is put or deleted. -/
  | claim (blob : Str) (value : Option Str)
  | blob (id : Str) (data : Option Str)
  /-- An account ID or a mailbox document ID is memoized. -/
  | memoAccount (account : Str)
  | memoMailbox (account name : Str) (id : UInt64)
  | clock (now : Nat)

/-- The writes under an account ID. -/
def accountOps (a : UInt32) (rows : List (UInt8 × Str × Option Str)) : List RawOp :=
  (rows.filter fun r => r.1 ∈ accountSpaces ∧ (r.1 = spaceAccount → r.2.1 ≠ [])).map fun r =>
    (spaceID r.1 a ++ r.2.1, r.2.2)

/-- Apply writes to the byte store. -/
def Engine.batch (e : Engine) (ops : List RawOp) : Engine := { e with raw := e.raw.batch ops }

/-- One step; a step that fails changes nothing. -/
def Engine.step (e : Engine) : EngineOp → Engine
  | .create account => ((ensureAccount account e).toOption.map (·.2)).getD e
  | .purge account => ((deleteAccount account e).toOption.map (·.2)).getD e
  | .write account rows =>
    match accountByEmail e.raw account with
    | .ok a => e.batch (accountOps a rows)
    | .error _ => e
  | .vacation account sender time => e.batch [(metaVacationKey account sender, some (beUint64 time))]
  | .claim blob value => e.batch [(metaBlobGCKey blob, value)]
  | .blob id data => { e with blobs := e.blobs.alter id fun _ => data }
  | .memoAccount account => ((cachedAccountID account e).toOption.map (·.2)).getD e
  | .memoMailbox account name id =>
    match accountByEmail e.raw account with
    | .ok a => e.cacheMailbox a name id
    | .error _ => e
  | .clock now => { e with now := now }

/-- A run. -/
def Engine.run (e : Engine) (ops : List EngineOp) : Engine := ops.foldl Engine.step e

/-- There is an account ID left for a new account. -/
def Engine.fits (e : Engine) : EngineOp → Bool
  | .create _ =>
    match decodeCounter e.raw[metaNextAccountKey]? with
    | .ok n => n.toNat + 1 < 2 ^ 32
    | .error _ => true
  | _ => true

/-- Every step of a run fits. -/
def Engine.steady (e : Engine) : List EngineOp → Bool
  | [] => true
  | op :: ops => e.fits op && (e.step op).steady ops

/-- A step that neither creates the account of `x` nor files a vacation record under it. -/
def EngineOp.spares (x : Str) : EngineOp → Bool
  | .create account => account ≠ x
  | .vacation account sender _ => !(x ++ [0x1f]).isPrefixOf (account ++ 0x1f :: sender)
  | _ => true

/-- An engine in which no address ever existed: the same time and blobs, and of the store only the
    number of account IDs given out. -/
def Engine.blank (e : Engine) : Engine :=
  { e with
    ids := {}
    raw := Raw.write ∅ (metaNextAccountKey, e.raw[metaNextAccountKey]?) }

/-! ### Keys outside the accounts -/

theorem metaEmailKey_inj {x y : Str} (h : metaEmailKey x = metaEmailKey y) : x = y :=
  @append_cancel_left _ (spaceMeta :: ascii "email:") _ _ h

theorem metaNextAccountKey_ne (x : Str) : metaNextAccountKey ≠ metaEmailKey x := by
  simp [metaNextAccountKey, metaEmailKey, ascii]

theorem metaVacationKey_ne_next (x s : Str) : metaVacationKey x s ≠ metaNextAccountKey := by
  simp [metaVacationKey, metaNextAccountKey, ascii]

theorem metaVacationKey_ne_email (x s y : Str) : metaVacationKey x s ≠ metaEmailKey y := by
  simp [metaVacationKey, metaEmailKey, ascii]

theorem metaBlobGCKey_ne_next (b : Str) : metaBlobGCKey b ≠ metaNextAccountKey := by
  simp [metaBlobGCKey, metaNextAccountKey, ascii]

theorem metaBlobGCKey_ne_email (b y : Str) : metaBlobGCKey b ≠ metaEmailKey y := by
  simp [metaBlobGCKey, metaEmailKey, ascii]

theorem metaBlobGCKey_ne_vacation (b x s : Str) : metaBlobGCKey b ≠ metaVacationKey x s := by
  simp [metaBlobGCKey, metaVacationKey, ascii]

theorem metaVacationKey_ne {x y s t : Str} (h : (x ++ [0x1f]).isPrefixOf (y ++ 0x1f :: s) = false) :
    metaVacationKey y s ≠ metaVacationKey x t := by
  intro he
  have : y ++ 0x1f :: s = x ++ 0x1f :: t := by
    unfold metaVacationKey at he
    rw [append_assoc, append_assoc] at he
    exact append_cancel_left he
  have hp : (x ++ [0x1f]).isPrefixOf (y ++ 0x1f :: s) = true :=
    isPrefixOf_iff_prefix.mpr ⟨t, by rw [this]; simp⟩
  rw [hp] at h
  cases h

theorem accountKey_ne (a : UInt32) (k : Str) (h : k.head? = some spaceMeta) : accountKey a ≠ k := by
  rintro rfl
  exact absurd (Option.some.inj h) (by decide)

/-- The record of an account is no key of its rows. -/
theorem Owned.ne_record {a b : UInt32} {k : Str} (h : Owned a k) : k ≠ accountKey b := by
  obtain ⟨s, -, t, ht, rfl⟩ := h
  intro he
  rw [accountKey, ← append_nil (spaceID spaceAccount b)] at he
  obtain ⟨hs, -, rfl⟩ := spaceID_append_inj he
  exact ht hs rfl

/-! ### What the steps do -/

/-- The writes of a purge. -/
def purgeOps (e : Engine) (x : Str) (a : UInt32) : List RawOp :=
  (accountKeys a e.raw).map (fun k => (k, none)) ++
    (linkedBlobs a e.raw).map (fun b => (metaBlobGCKey b, some (beUint64 (.ofNat (unix e.now))))) ++
    [(metaEmailKey x, none), (accountKey a, none)]

theorem step_purge {e : Engine} {x : Str} {a : UInt32} (h : accountByEmail e.raw x = .ok a) :
    e.step (.purge x) = (e.batch (purgeOps e x a)).forgetAccount x a := by
  have hf : findAccount x e = .ok (some a, e) := by rw [findAccount, h]
  have hrun : deleteAccount x e = .ok ((), (e.batch (purgeOps e x a)).forgetAccount x a) := by
    show (findAccount x e >>= _) = _
    rw [hf, purgeOps, Engine.batch, Raw.batch_append, Raw.batch_append]
    rfl
  rw [Engine.step, hrun]
  rfl

/-- The writes of a registration under the ID after `n`. -/
def registration (x : Str) (n : UInt64) : List RawOp :=
  [(metaNextAccountKey, some (beUint64 (n + 1))), (accountKey (n + 1).toUInt32, some x),
    (metaEmailKey x, some (beUint32 (n + 1).toUInt32))]

theorem cachedAccountID_unknown {e : Engine} {x : Str} (hrow : e.raw[metaEmailKey x]? = none)
    (hids : e.ids.account x = none) : cachedAccountID x e = .ok (none, e) := by
  unfold cachedAccountID
  rw [hids]
  simp only [fresh, Option.filter_none, Option.map_none, accountByEmail, hrow]

theorem findAccount_unknown {e : Engine} {x : Str} (hrow : e.raw[metaEmailKey x]? = none) :
    findAccount x e = .ok (none, e) := by
  simp only [findAccount, accountByEmail, hrow]

theorem ensureAccount_new {e : Engine} {x : Str} {n : UInt64} (hrow : e.raw[metaEmailKey x]? = none)
    (hids : e.ids.account x = none) (hn : decodeCounter e.raw[metaNextAccountKey]? = .ok n) :
    ensureAccount x e = .ok ((n + 1).toUInt32, e.batch (registration x n)) := by
  have hcreate : createAccount x e.raw = .ok ((n + 1).toUInt32, e.raw.batch (registration x n)) := by
    have hget : ∀ k, getRow k e.raw = .ok (e.raw[k]?, e.raw) := fun _ => rfl
    have hcount : readCounter metaNextAccountKey e.raw = .ok (n, e.raw) := by
      simp only [readCounter, bind, StateT.bind, Except.bind, hget, hn]
      rfl
    simp only [createAccount, bind, StateT.bind, Except.bind, hget, hrow, hcount]
    rfl
  show (cachedAccountID x e >>= _) = _
  rw [cachedAccountID_unknown hrow hids]
  show (createAccount x e.raw).map _ = _
  rw [hcreate]
  rfl

/-! ### The invariant -/

/-- With `n` account IDs given out: every registered address has one of them for itself, no other ID has
    rows or memoized mailboxes, and a memoized account ID is the registered one. -/
structure Sound (n : Nat) (e : Engine) : Prop where
  room : n < 2 ^ 32
  next : decodeCounter e.raw[metaNextAccountKey]? = .ok (.ofNat n)
  registry : ∀ x v, e.raw[metaEmailKey x]? = some v →
    ∃ a : UInt32, v = beUint32 a ∧ 0 < a.toNat ∧ a.toNat ≤ n
  distinct : ∀ x y v, e.raw[metaEmailKey x]? = some v → e.raw[metaEmailKey y]? = some v → x = y
  rows : ∀ a k, Owned a k → e.raw[k]? ≠ none → a.toNat ≤ n
  cached : ∀ x m, e.ids.account x = some m →
    ∃ a : UInt32, m.1 = a.toNat ∧ e.raw[metaEmailKey x]? = some (beUint32 a)
  boxes : ∀ i name, e.ids.mailbox i name ≠ none → i ≤ n

theorem accountByEmail_of_row {raw : Raw} {x : Str} {a : UInt32}
    (h : raw[metaEmailKey x]? = some (beUint32 a)) : accountByEmail raw x = .ok a := by
  unfold accountByEmail
  rw [h]
  show (if (beUint32 a).length = 4 then _ else _) = _
  rw [length_beUint32, if_pos rfl, beUint32, unbe_be,
    Nat.mod_eq_of_lt (show a.toNat < 256 ^ 4 from a.toNat_lt), UInt32.ofNat_toNat]

section Sound
variable {n : Nat} {e : Engine}

/-- A registered address resolves to its ID, another one to none. -/
theorem Sound.registered (h : Sound n e) (x : Str) : (e.raw[metaEmailKey x]? = none ∧ e.ids.account x = none) ∨
      ∃ a : UInt32, e.raw[metaEmailKey x]? = some (beUint32 a) ∧ 0 < a.toNat ∧ a.toNat ≤ n := by
  cases hx : e.raw[metaEmailKey x]? with
  | some v =>
    obtain ⟨a, rfl, ha⟩ := h.registry x v hx
    exact .inr ⟨a, rfl, ha⟩
  | none =>
    refine .inl ⟨rfl, ?_⟩
    cases hm : e.ids.account x with
    | none => rfl
    | some m =>
      obtain ⟨a, -, ha⟩ := h.cached x m hm
      rw [hx] at ha
      cases ha

theorem Sound.unknown (h : Sound n e) {x : Str} (hx : e.raw[metaEmailKey x]? = none) : e.ids.account x = none := by
  obtain ⟨-, hids⟩ | ⟨a, ha, -⟩ := h.registered x
  · exact hids
  · rw [hx] at ha
    cases ha

theorem Sound.room_of_fits (h : Sound n e) {x : Str} (hfits : e.fits (.create x) = true) : n + 1 < 2 ^ 32 := by
  rw [Engine.fits, h.next] at hfits
  have hlt := of_decide_eq_true hfits
  rwa [UInt64.toNat_ofNat', Nat.mod_eq_of_lt (by have := h.room; omega)] at hlt

variable {a : UInt32} {k : Str} {m : UInt64} {raw : Raw}

theorem Sound.found (h : Sound n e) {x : Str} (hx : accountByEmail e.raw x = .ok a) :
    e.raw[metaEmailKey x]? = some (beUint32 a) ∧ 0 < a.toNat ∧ a.toNat ≤ n := by
  obtain ⟨hnone, -⟩ | ⟨b, hb, hle⟩ := h.registered x
  · rw [accountByEmail, hnone] at hx
    cases hx
  · rw [accountByEmail_of_row hb] at hx
    cases hx
    exact ⟨hb, hle⟩

/-- Keys whose writes the invariant does not depend on. -/
def Free (n : Nat) (k : Str) : Prop :=
  (∃ a : UInt32, Owned a k ∧ a.toNat ≤ n) ∨ (∃ x s, k = metaVacationKey x s) ∨
    (∃ b, k = metaBlobGCKey b) ∨ ∃ a, k = accountKey a

theorem Free.avoids (h : Free n k) : (∀ x, k ≠ metaEmailKey x) ∧ k ≠ metaNextAccountKey ∧
    ∀ a : UInt32, Owned a k → a.toNat ≤ n := by
  obtain ⟨a, ha, hle⟩ | ⟨y, s, rfl⟩ | ⟨b, rfl⟩ | ⟨a, rfl⟩ := h
  · exact ⟨fun _ => ha.ne_meta, ha.ne_meta, fun b hb => by rwa [hb.id_eq ha]⟩
  · exact ⟨metaVacationKey_ne_email y s, metaVacationKey_ne_next y s, fun _ hb => absurd rfl hb.ne_meta⟩
  · exact ⟨metaBlobGCKey_ne_email b, metaBlobGCKey_ne_next b, fun _ hb => absurd rfl hb.ne_meta⟩
  · exact ⟨fun _ => accountKey_ne a _ rfl, accountKey_ne a _ rfl, fun _ hb => absurd rfl hb.ne_record⟩

theorem Sound.batch (h : Sound n e) {ops : List RawOp} (hops : ∀ op ∈ ops, Free n op.1) :
    Sound n (e.batch ops) := by
  have hemail : ∀ x, (e.raw.batch ops)[metaEmailKey x]? = e.raw[metaEmailKey x]? := fun x =>
    Raw.getElem?_batch_of_ne fun op hop => (hops op hop).avoids.1 x
  have hnext : (e.raw.batch ops)[metaNextAccountKey]? = e.raw[metaNextAccountKey]? :=
    Raw.getElem?_batch_of_ne fun op hop => (hops op hop).avoids.2.1
  refine ⟨h.room, ?_, ?_, ?_, ?_, ?_, h.boxes⟩
  · show decodeCounter (e.raw.batch ops)[metaNextAccountKey]? = _
    rw [hnext, h.next]
  · intro x v hv
    exact h.registry x v ((hemail x).symm.trans hv)
  · intro x y v hx hy
    exact h.distinct x y v ((hemail x).symm.trans hx) ((hemail y).symm.trans hy)
  · intro a k hk hrow
    by_cases hop : ∃ op ∈ ops, op.1 = k
    · obtain ⟨op, hop, rfl⟩ := hop
      exact (hops op hop).avoids.2.2 a hk
    · refine h.rows a k hk fun hnone => hrow ?_
      show (e.raw.batch ops)[k]? = none
      rw [Raw.getElem?_batch_of_ne fun op ho he => hop ⟨op, ho, he⟩, hnone]
  · intro x m hm
    obtain ⟨a, ha, hrow⟩ := h.cached x m hm
    exact ⟨a, ha, (hemail x).trans hrow⟩

/-! #### Registering an address -/

/-- The ID that comes after `n` IDs. -/
abbrev newID (n : Nat) : UInt32 := (UInt64.ofNat n + 1).toUInt32

theorem toNat_newID (hn : n + 1 < 2 ^ 32) : (newID n).toNat = n + 1 := by
  have h64 : (UInt64.ofNat n + 1).toNat = n + 1 := by
    rw [UInt64.toNat_add, UInt64.toNat_ofNat']
    show (n % 2 ^ 64 + 1) % 2 ^ 64 = n + 1
    omega
  rw [UInt64.toNat_toUInt32, h64]
  exact Nat.mod_eq_of_lt hn

theorem ofNat_succ_64 (n : Nat) : UInt64.ofNat n + 1 = UInt64.ofNat (n + 1) := by
  rw [UInt64.ofNat_add]
  rfl

/-- A registration is its three rows. -/
theorem getElem?_registration (raw : Raw) (x : Str) (m : UInt64) (k : Str) :
    (raw.batch (registration x m))[k]? = if metaEmailKey x = k then some (beUint32 (m + 1).toUInt32)
      else if accountKey (m + 1).toUInt32 = k then some x
      else if metaNextAccountKey = k then some (beUint64 (m + 1)) else raw[k]? := by
  simp only [registration, Raw.batch, foldl_cons, foldl_nil, Raw.getElem?_write]

theorem registration_email {x y : Str} (h : x ≠ y) :
    (raw.batch (registration x m))[metaEmailKey y]? = raw[metaEmailKey y]? := by
  rw [getElem?_registration, if_neg fun he => h (metaEmailKey_inj he),
    if_neg (accountKey_ne _ (metaEmailKey y) rfl), if_neg (metaNextAccountKey_ne y)]

theorem registration_owned {x : Str} (h : Owned a k) : (raw.batch (registration x m))[k]? = raw[k]? := by
  rw [getElem?_registration, if_neg fun he => h.ne_meta he.symm, if_neg fun he => h.ne_record he.symm,
    if_neg fun he => h.ne_meta he.symm]

theorem registration_vacation {x y s : Str} :
    (raw.batch (registration x m))[metaVacationKey y s]? = raw[metaVacationKey y s]? := by
  rw [getElem?_registration, if_neg fun he => metaVacationKey_ne_email y s x he.symm,
    if_neg (accountKey_ne _ (metaVacationKey y s) rfl),
    if_neg fun he => metaVacationKey_ne_next y s he.symm]

theorem Sound.create (h : Sound n e) {x : Str} (hx : e.raw[metaEmailKey x]? = none)
    (hn : n + 1 < 2 ^ 32) : Sound (n + 1) (e.batch (registration x (.ofNat n))) := by
  have hself : (e.raw.batch (registration x (.ofNat n)))[metaEmailKey x]? =
      some (beUint32 (newID n)) := by
    rw [getElem?_registration, if_pos rfl]
  have hid := toNat_newID hn
  -- no other address has the new ID
  have hnew : ∀ y, (e.raw.batch (registration x (.ofNat n)))[metaEmailKey y]? =
      some (beUint32 (newID n)) → y = x := by
    intro y hy
    by_contra hne
    rw [registration_email fun he => hne he.symm] at hy
    obtain ⟨a, ha, -, hle⟩ := h.registry y _ hy
    rw [← beUint32_inj ha, hid] at hle
    omega
  refine ⟨hn, ?_, ?_, ?_, ?_, ?_, fun i name hi => Nat.le_succ_of_le (h.boxes i name hi)⟩
  · show decodeCounter (e.raw.batch (registration x (.ofNat n)))[metaNextAccountKey]? = _
    rw [getElem?_registration, if_neg fun he => metaNextAccountKey_ne x he.symm,
      if_neg (accountKey_ne _ metaNextAccountKey rfl), if_pos rfl, ofNat_succ_64, decodeCounter_be]
  · intro y v hv
    by_cases hxy : x = y
    · subst hxy
      refine ⟨_, (Option.mem_unique hself hv).symm, ?_, ?_⟩ <;> omega
    · rw [show (e.batch (registration x (.ofNat n))).raw[metaEmailKey y]? = _ from
        registration_email hxy] at hv
      obtain ⟨a, rfl, hpos, hle⟩ := h.registry y v hv
      exact ⟨a, rfl, hpos, Nat.le_succ_of_le hle⟩
  · intro y z v hy hz
    by_cases hxy : x = y
    · subst hxy
      rw [← Option.mem_unique hself hy] at hz
      exact (hnew z hz).symm
    · by_cases hxz : x = z
      · subst hxz
        rw [← Option.mem_unique hself hz] at hy
        exact hnew y hy
      · exact h.distinct y z v ((registration_email hxy).symm.trans hy)
          ((registration_email hxz).symm.trans hz)
  · intro a k hk hrow
    exact Nat.le_succ_of_le (h.rows a k hk fun hnone => hrow ((registration_owned hk).trans hnone))
  · intro y m hm
    obtain ⟨a, ha, hrow⟩ := h.cached y m hm
    have hxy : x ≠ y := by
      rintro rfl
      rw [hx] at hrow
      cases hrow
    exact ⟨a, ha, (registration_email hxy).trans hrow⟩

/-! #### Purging an account -/

theorem owned_purgePrefixes {p : Str} (hp : p ∈ purgePrefixes a) (t : Str) : Owned a (p ++ t) := by
  unfold purgePrefixes at hp
  rcases mem_append.mp hp with hp | hp
  · obtain ⟨c, -, hp⟩ := mem_flatMap.mp hp
    rcases mem_pair.mp hp with rfl | rfl
    · exact owned_document a c t
    · exact owned_changeLog a c t
  · have hindex : (indexMailboxNameKey a []).take 5 = spaceID spaceIndex a :=
      take_left' (by simp [spaceID])
    simp only [hindex, mem_cons, not_mem_nil, or_false] at hp
    rcases hp with rfl | rfl | rfl | rfl | rfl
    · exact owned_index a t
    · rw [counterKey, append_assoc]
      exact owned_counter a _ t
    · rw [counterKey, append_assoc]
      exact owned_counter a _ t
    · exact owned_space (by decide) (by decide) a t
    · rw [blobLinkKey, append_assoc]
      exact owned_space (by decide) (by decide) a _

theorem owned_accountKeys (h : k ∈ accountKeys a raw) : Owned a k := by
  obtain ⟨p, hp, hk⟩ := mem_flatMap.mp h
  obtain ⟨r, hr, rfl⟩ := List.mem_map.mp hk
  obtain ⟨t, ht⟩ := isPrefixOf_iff_prefix.mp (mem_filter.mp hr).2
  rw [← ht]
  exact owned_purgePrefixes hp t

/-- What a purge writes: rows of its account, GC claims and the two rows of the registration. -/
theorem mem_purgeOps {x : Str} {op : RawOp} (h : op ∈ purgeOps e x a) :
    Owned a op.1 ∨ (∃ b, op.1 = metaBlobGCKey b) ∨ op = (metaEmailKey x, none) ∨ op = (accountKey a, none) := by
  unfold purgeOps at h
  rcases mem_append.mp h with h | h
  · rcases mem_append.mp h with h | h
    · obtain ⟨k, hk, rfl⟩ := List.mem_map.mp h
      exact .inl (owned_accountKeys hk)
    · obtain ⟨b, -, rfl⟩ := List.mem_map.mp h
      exact .inr (.inl ⟨b, rfl⟩)
  · exact .inr (.inr (mem_pair.mp h))

theorem purge_email_self (x : Str) (a : UInt32) : (e.raw.batch (purgeOps e x a))[metaEmailKey x]? = none := by
  rw [purgeOps, Raw.batch_append]
  show ((Raw.write _ (metaEmailKey x, none)).write (accountKey a, none))[metaEmailKey x]? = none
  rw [Raw.getElem?_write, Raw.getElem?_write, if_neg (accountKey_ne a (metaEmailKey x) rfl), if_pos rfl]

/-- A purge leaves alone the keys that are not its own. -/
theorem purge_other {x : Str} (howned : ¬Owned a k) (hgc : ∀ b, k ≠ metaBlobGCKey b)
    (hemail : k ≠ metaEmailKey x) (hrecord : k ≠ accountKey a) :
    (e.raw.batch (purgeOps e x a))[k]? = e.raw[k]? := by
  refine Raw.getElem?_batch_of_ne fun op hop he => ?_
  rcases mem_purgeOps hop with h | ⟨b, h⟩ | rfl | rfl
  · exact howned (he ▸ h)
  · exact hgc b (he.symm.trans h)
  · exact hemail he.symm
  · exact hrecord he.symm

theorem purge_meta {x t : Str} (hgc : ∀ b, spaceMeta :: t ≠ metaBlobGCKey b)
    (hemail : spaceMeta :: t ≠ metaEmailKey x) :
    (e.raw.batch (purgeOps e x a))[spaceMeta :: t]? = e.raw[spaceMeta :: t]? :=
  purge_other (fun h => h.ne_meta rfl) hgc hemail fun he => accountKey_ne a _ rfl he.symm

theorem purge_email {x y : Str} (h : y ≠ x) :
    (e.raw.batch (purgeOps e x a))[metaEmailKey y]? = e.raw[metaEmailKey y]? :=
  purge_meta (fun b he => metaBlobGCKey_ne_email b y he.symm) fun he => h (metaEmailKey_inj he)

theorem purge_vacation {x y s : Str} :
    (e.raw.batch (purgeOps e x a))[metaVacationKey y s]? = e.raw[metaVacationKey y s]? :=
  purge_meta (fun b he => metaBlobGCKey_ne_vacation b y s he.symm) (metaVacationKey_ne_email y s x)

theorem purge_next {x : Str} :
    (e.raw.batch (purgeOps e x a))[metaNextAccountKey]? = e.raw[metaNextAccountKey]? :=
  purge_meta (fun b he => metaBlobGCKey_ne_next b he.symm) (metaNextAccountKey_ne x)

theorem purge_owned {x : Str} {b : UInt32} (hk : Owned b k) (hab : b ≠ a) :
    (e.raw.batch (purgeOps e x a))[k]? = e.raw[k]? :=
  purge_other (fun h => hab (hk.id_eq h)) (fun _ => hk.ne_meta) hk.ne_meta hk.ne_record

section
variable (h : Sound n e)
include h

theorem Sound.purge {x : Str} (ha : a.toNat ≤ n) :
    Sound n ((e.batch (purgeOps e x a)).forgetAccount x a) := by
  have hne : ∀ {y v}, (e.raw.batch (purgeOps e x a))[metaEmailKey y]? = some v → y ≠ x := by
    rintro y v hv rfl
    rw [purge_email_self] at hv
    cases hv
  refine ⟨h.room, ?_, ?_, ?_, ?_, ?_, ?_⟩
  · show decodeCounter (e.raw.batch (purgeOps e x a))[metaNextAccountKey]? = _
    rw [purge_next, h.next]
  · intro y v hv
    exact h.registry y v ((purge_email (hne hv)).symm.trans hv)
  · intro y z v hy hz
    exact h.distinct y z v ((purge_email (hne hy)).symm.trans hy) ((purge_email (hne hz)).symm.trans hz)
  · intro b k hk hrow
    by_cases hab : b = a
    · rwa [hab]
    · exact h.rows b k hk fun hnone => hrow ((purge_owned hk hab).trans hnone)
  · intro y m hm
    have hyx : y ≠ x := by
      rintro rfl
      have hself : ((e.batch (purgeOps e y a)).forgetAccount y a).ids.account y = none :=
        Function.update_self ..
      rw [hself] at hm
      cases hm
    obtain ⟨b, hb, hrow⟩ := h.cached y m ((Function.update_of_ne hyx _ _).symm.trans hm)
    exact ⟨b, hb, (purge_email hyx).trans hrow⟩
  · intro i name hi
    by_cases hia : i = a.toNat
    · rwa [hia]
    · refine h.boxes i name fun hnone => hi ?_
      show Function.update e.ids.mailbox a.toNat (fun _ => none) i name = none
      rw [Function.update_of_ne hia, hnone]

/-! #### Memoized IDs -/

theorem Sound.cacheAccount {x : Str}
    (hx : e.raw[metaEmailKey x]? = some (beUint32 a)) : Sound n (e.cacheAccount x a) :=
  { h with
    cached := fun y m hm => by
      by_cases hyx : y = x
      · subst hyx
        exact ⟨a, account_cacheAccount m hm, hx⟩
      · exact h.cached y m ((Function.update_of_ne hyx _ _).symm.trans hm) }

theorem Sound.cacheMailbox (ha : a.toNat ≤ n) (name : Str) (id : UInt64) :
    Sound n (e.cacheMailbox a name id) :=
  { h with
    boxes := fun i y hi => by
      by_cases hia : i = a.toNat
      · rwa [hia]
      · refine h.boxes i y fun hnone => hi ?_
        show Function.update e.ids.mailbox a.toNat _ i y = none
        rw [Function.update_of_ne hia, hnone] }

/-! #### Every step -/

theorem Sound.cached_eq {x : Str}
    (hx : e.raw[metaEmailKey x]? = some (beUint32 a)) (m : Nat × Nat) (hm : e.ids.account x = some m) :
    m.1 = a.toNat := by
  obtain ⟨b, hb, hrow⟩ := h.cached x m hm
  rw [hx] at hrow
  rw [hb, beUint32_inj (Option.some.inj hrow)]

/-- Looking an account up changes nothing, or memoizes its ID. -/
theorem Sound.step_memoAccount (x : Str) : e.step (.memoAccount x) = e ∨
    ∃ a, e.raw[metaEmailKey x]? = some (beUint32 a) ∧ e.step (.memoAccount x) = e.cacheAccount x a := by
  obtain ⟨hrow, hids⟩ | ⟨a, hrow, -⟩ := h.registered x
  · left
    rw [Engine.step, cachedAccountID_unknown hrow hids]
    rfl
  · rcases cachedAccountID_known (accountByEmail_of_row hrow) (h.cached_eq hrow) with hc | hc
    · left
      rw [Engine.step, hc]
      rfl
    · refine .inr ⟨a, hrow, ?_⟩
      rw [Engine.step, hc]
      rfl

/-- Creating an account registers its address, or finds it registered. -/
theorem Sound.step_create (x : Str) :
    (e.raw[metaEmailKey x]? = none ∧ e.step (.create x) = e.batch (registration x (.ofNat n))) ∨
      e.step (.create x) = e.step (.memoAccount x) := by
  obtain ⟨hrow, hids⟩ | ⟨a, hrow, -⟩ := h.registered x
  · refine .inl ⟨hrow, ?_⟩
    rw [Engine.step, ensureAccount_new hrow hids h.next]
    rfl
  · right
    have hens : ∀ f, cachedAccountID x e = .ok (some a, f) → ensureAccount x e = .ok (a, f) := by
      intro f hf
      show (cachedAccountID x e >>= _) = _
      rw [hf]
      rfl
    rw [Engine.step, Engine.step]
    rcases cachedAccountID_known (accountByEmail_of_row hrow) (h.cached_eq hrow) with hc | hc
    · rw [hens _ hc, hc]
      rfl
    · rw [hens _ hc, hc]
      rfl

/-- Purging an account that is not there changes nothing. -/
theorem Sound.step_purge_cases (x : Str) :
    (e.raw[metaEmailKey x]? = none ∧ e.step (.purge x) = e) ∨
      ∃ a : UInt32, e.raw[metaEmailKey x]? = some (beUint32 a) ∧ 0 < a.toNat ∧ a.toNat ≤ n ∧
        e.step (.purge x) = (e.batch (purgeOps e x a)).forgetAccount x a := by
  obtain ⟨hrow, -⟩ | ⟨a, hrow, hpos, hle⟩ := h.registered x
  · refine .inl ⟨hrow, ?_⟩
    have hrun : deleteAccount x e = .error .notFound := by
      show (findAccount x e >>= _) = _
      rw [findAccount_unknown hrow]
      rfl
    rw [Engine.step, hrun]
    rfl
  · exact .inr ⟨a, hrow, hpos, hle, step_purge (accountByEmail_of_row hrow)⟩

end

theorem mem_accountOps {rows : List (UInt8 × Str × Option Str)} {op : RawOp}
    (h : op ∈ accountOps a rows) : Owned a op.1 := by
  obtain ⟨r, hr, rfl⟩ := List.mem_map.mp h
  have hr := of_decide_eq_true (mem_filter.mp hr).2
  exact ⟨r.1, hr.1, r.2.1, hr.2, rfl⟩

/-- The engine goes on soundly, takes no account ID back, and leaves the addresses that it spares and that
    are not registered so, with their vacation records. -/
def Keeps (n : Nat) (spares : Str → Prop) (e e' : Engine) : Prop :=
  ∃ m, n ≤ m ∧ Sound m e' ∧ ∀ x, spares x → e.raw[metaEmailKey x]? = none →
    e'.raw[metaEmailKey x]? = none ∧ ∀ s, e'.raw[metaVacationKey x s]? = e.raw[metaVacationKey x s]?

/-- STEP: so does an engine with an account ID left for what it does. -/
theorem Sound.step (h : Sound n e) {op : EngineOp} (hfits : e.fits op = true) :
    Keeps n (op.spares · = true) e (e.step op) := by
  have hsame : ∀ {e' : Engine}, Sound n e' → e'.raw = e.raw → Keeps n (op.spares · = true) e e' := fun hs hraw =>
    ⟨n, le_rfl, hs, fun x _ hx => by rw [hraw]; exact ⟨hx, fun _ => rfl⟩⟩
  have hbatch : ∀ {ops : List RawOp}, (∀ r ∈ ops, Free n r.1) →
      (∀ x, op.spares x = true → ∀ r ∈ ops, ∀ s, r.1 ≠ metaVacationKey x s) →
      Keeps n (op.spares · = true) e (e.batch ops) := fun hfree hvac =>
    ⟨n, le_rfl, h.batch hfree, fun x hx hnone =>
      ⟨(Raw.getElem?_batch_of_ne fun r hr => (hfree r hr).avoids.1 x).trans hnone,
        fun s => Raw.getElem?_batch_of_ne fun r hr => hvac x hx r hr s⟩⟩
  have hmemo : ∀ y, Keeps n (op.spares · = true) e (e.step (.memoAccount y)) := by
    intro y
    rcases h.step_memoAccount y with hs | ⟨a, hrow, hs⟩
    · rw [hs]
      exact hsame h rfl
    · rw [hs]
      exact hsame (h.cacheAccount hrow) rfl
  cases op with
  | create y =>
    rcases h.step_create y with ⟨hrow, hs⟩ | hs
    · rw [hs]
      exact ⟨n + 1, n.le_succ, h.create hrow (h.room_of_fits hfits), fun x hx hnone =>
        ⟨(registration_email (of_decide_eq_true hx)).trans hnone, fun s => registration_vacation⟩⟩
    · rw [hs]
      exact hmemo y
  | purge y =>
    rcases h.step_purge_cases y with ⟨-, hs⟩ | ⟨a, hrow, -, hle, hs⟩
    · rw [hs]
      exact hsame h rfl
    · rw [hs]
      refine ⟨n, le_rfl, h.purge hle, fun x _ hx => ⟨(purge_email ?_).trans hx, fun s => purge_vacation⟩⟩
      rintro rfl
      rw [hx] at hrow
      cases hrow
  | write y rows =>
    rw [Engine.step]
    cases hy : accountByEmail e.raw y with
    | error err => exact hsame h rfl
    | ok a =>
      exact hbatch (fun r hr => .inl ⟨a, mem_accountOps hr, (h.found hy).2.2⟩) fun x _ r hr s =>
        (mem_accountOps hr).ne_meta
  | vacation y s t =>
    refine hbatch (fun r hr => .inr (.inl ⟨y, s, by rw [mem_singleton.mp hr]⟩)) fun x hx r hr u => ?_
    rw [mem_singleton.mp hr]
    exact metaVacationKey_ne (by simpa [EngineOp.spares] using hx)
  | claim b v =>
    refine hbatch (fun r hr => .inr (.inr (.inl ⟨b, by rw [mem_singleton.mp hr]⟩))) fun x _ r hr u => ?_
    rw [mem_singleton.mp hr]
    exact metaBlobGCKey_ne_vacation b x u
  | blob id data => exact hsame { h with } rfl
  | memoAccount y => exact hmemo y
  | memoMailbox y name id =>
    rw [Engine.step]
    cases hy : accountByEmail e.raw y with
    | error err => exact hsame h rfl
    | ok a => exact hsame (h.cacheMailbox (h.found hy).2.2 name id) rfl
  | clock now => exact hsame { h with } rfl

/-- RUN: so does an engine over a whole run. -/
theorem Sound.run {ops : List EngineOp} (h : Sound n e) (hsteady : e.steady ops = true) :
    Keeps n (fun x => ∀ op ∈ ops, op.spares x = true) e (e.run ops) := by
  induction ops generalizing n e with
  | nil => exact ⟨n, le_rfl, h, fun x _ hx => ⟨hx, fun _ => rfl⟩⟩
  | cons op ops ih =>
    obtain ⟨hop, hops⟩ := Bool.and_eq_true_iff.mp hsteady
    obtain ⟨m, hle, hm, hone⟩ := h.step hop
    obtain ⟨k, hmk, hk, hrest⟩ := ih hm hops
    refine ⟨k, hle.trans hmk, hk, fun x hx hnone => ?_⟩
    obtain ⟨hrow, hvac⟩ := hone x (hx op (by simp)) hnone
    obtain ⟨hrow', hvac'⟩ := hrest x (fun o ho => hx o (by simp [ho])) hrow
    exact ⟨hrow', fun s => (hvac' s).trans (hvac s)⟩

/-- An engine without addresses. -/
theorem Sound.of_empty (hroom : n < 2 ^ 32) (hnext : decodeCounter e.raw[metaNextAccountKey]? = .ok (.ofNat n))
    (hids : e.ids = {}) (hraw : ∀ k, k ≠ metaNextAccountKey → e.raw[k]? = none) : Sound n e := by
  have hemail : ∀ x, e.raw[metaEmailKey x]? = none := fun x => hraw _ (metaNextAccountKey_ne x).symm
  refine ⟨hroom, hnext, ?_, ?_, ?_, ?_, ?_⟩
  · intro x v hv
    rw [hemail] at hv
    cases hv
  · intro x y v hv
    rw [hemail] at hv
    cases hv
  · intro a k hk hrow
    exact absurd (hraw k hk.ne_meta) hrow
  · intro x m hm
    rw [hids] at hm
    cases hm
  · intro i name hi
    rw [hids] at hi
    exact absurd rfl hi

theorem sound_initial : Sound 0 {} := .of_empty (by decide) rfl rfl fun _ _ => by simp

/-! ### Two engines -/

theorem getElem?_blank (e : Engine) (k : Str) :
    e.blank.raw[k]? = if metaNextAccountKey = k then e.raw[metaNextAccountKey]? else none := by
  rw [Engine.blank, Raw.getElem?_write]
  simp

theorem Sound.blank (h : Sound n e) : Sound n e.blank :=
  .of_empty h.room (by rw [getElem?_blank, if_pos rfl, h.next]) rfl fun k hk => by
    rw [getElem?_blank, if_neg hk.symm]

variable {f : Engine} {x y : Str} {env : Env}

/-- Two addresses that are new to two engines get the same ID, and nothing is under it. -/
theorem Sound.same_new (h : Sound n e) (h' : Sound n f) (hn : n + 1 < 2 ^ 32) (hblobs : e.blobs = f.blobs)
    (hnow : e.now = f.now) (hx : e.raw[metaEmailKey x]? = none) (hy : f.raw[metaEmailKey y]? = none) :
    Same x y (newID n) (e.batch (registration x (.ofNat n)))
      (f.batch (registration y (.ofNat n))) := by
  have hid := toNat_newID hn
  have hempty : ∀ {g : Engine} {k : Str}, Sound n g → Owned (newID n) k →
      g.raw[k]? = none := by
    intro g k hg hk
    by_contra hrow
    have := hg.rows _ k hk hrow
    omega
  have hboxes : ∀ {g : Engine}, Sound n g → g.ids.mailbox (newID n).toNat = fun _ => none := by
    intro g hg
    funext name
    by_contra hbox
    have := hg.boxes _ name hbox
    omega
  have hids : ∀ {g : Engine} {z : Str}, Sound n g → g.raw[metaEmailKey z]? = none →
      ∀ m, g.ids.account z = some m → m.1 = (newID n).toNat := by
    intro g z hg hz m hm
    rw [hg.unknown hz] at hm
    cases hm
  have hrow : ∀ (raw : Raw) (z : Str), accountByEmail (raw.batch (registration z (.ofNat n))) z =
      .ok (newID n) := fun raw z =>
    accountByEmail_of_row (by rw [getElem?_registration, if_pos rfl])
  refine ⟨⟨fun k hk => ?_, hrow _ _, hrow _ _⟩, hblobs, hnow, ?_, fun m hm => hids h hx m hm,
    fun m hm => hids h' hy m hm⟩
  · exact (registration_owned hk).trans
      ((hempty h hk).trans ((registration_owned hk).trans (hempty h' hk)).symm)
  · exact (hboxes h).trans (hboxes h').symm

theorem vacation_registration (raw : Raw) (x y s : Str) (m : UInt64) :
    vacationLastSent (raw.batch (registration x m)) y s = vacationLastSent raw y s := by
  rw [vacationLastSent, vacationLastSent, registration_vacation]

/-- An address that is new to two engines is read alike in both. -/
theorem Sound.answer_new (h : Sound n e) (h' : Sound n f) (hn : n + 1 < 2 ^ 32)
    (hblobs : e.blobs = f.blobs) (hnow : e.now = f.now) (hx : e.raw[metaEmailKey x]? = none)
    (hx' : f.raw[metaEmailKey x]? = none)
    (hvac : ∀ s, vacationLastSent e.raw x s = vacationLastSent f.raw x s) (r : Read) :
    e.answer env x r = f.answer env x r := by
  have hensure : ∀ {α : Type} {p : UInt32 → MailOp α},
      Twin (Same x x (newID n)) (p (newID n))
        (p (newID n)) →
      ((ensureAccount x >>= p) e).map (·.1) = ((ensureAccount x >>= p) f).map (·.1) := by
    intro α p hp
    show (ensureAccount x e >>= fun r => p r.1 r.2).map _ = (ensureAccount x f >>= fun r => p r.1 r.2).map _
    rw [ensureAccount_new hx (h.unknown hx) h.next, ensureAccount_new hx' (h'.unknown hx') h'.next]
    exact hp.answer (h.same_new h' hn hblobs hnow hx hx')
  have hnone : ∀ {α : Type} {p : Option UInt32 → MailOp α} (v : Except RawErr α),
      (∀ g, (p none g).map (·.1) = v) →
      ((findAccount x >>= p) e).map (·.1) = ((findAccount x >>= p) f).map (·.1) := by
    intro α p v hp
    show (findAccount x e >>= fun r => p r.1 r.2).map _ = (findAccount x f >>= fun r => p r.1 r.2).map _
    rw [findAccount_unknown hx, findAccount_unknown hx']
    exact (hp e).trans (hp f).symm
  have hresolve : ∀ {α : Type} {mailbox : Str} {p : UInt32 × UInt64 → MailOp α},
      ((resolve x mailbox >>= p) e).map (·.1) = ((resolve x mailbox >>= p) f).map (·.1) := by
    intro α mailbox p
    have hr : ∀ {g : Engine}, g.raw[metaEmailKey x]? = none → resolve x mailbox g = .error .notFound := by
      intro g hg
      show (findAccount x g >>= _) = _
      rw [findAccount_unknown hg]
      rfl
    show (resolve x mailbox e >>= fun r => p r.1 r.2).map _ = (resolve x mailbox f >>= fun r => p r.1 r.2).map _
    rw [hr hx, hr hx']
  have hmemo := cachedAccountID_unknown hx (h.unknown hx)
  have hmemo' := cachedAccountID_unknown hx' (h'.unknown hx')
  cases r with
  | listMailboxes => exact hensure (twin_listMailboxesIn env)
  | mailboxStatus mailbox | mailboxMeta mailbox =>
    show (cachedAccountID x e >>= _).map _ = (cachedAccountID x f >>= _).map _
    rw [hmemo, hmemo']
    rfl
  | mailboxModSeq mailbox =>
    show (orNone (cachedAccountID x) e >>= _).map _ = (orNone (cachedAccountID x) f >>= _).map _
    rw [orNone, orNone, hmemo, hmemo']
    rfl
  | getACL mailbox => exact hensure (twin_readACL mailbox)
  | listMessages mailbox => exact hresolve
  | messageByUID mailbox uid =>
    simp only [Engine.answer, Read.perform, messageByUID, emailByUID, bind_assoc]
    exact hresolve
  | emailByUID mailbox uid => exact hresolve
  | openMessage mailbox uid =>
    simp only [Engine.answer, Read.perform, openMessage, emailByUID, bind_assoc]
    exact hresolve
  | expungedSince mailbox since => exact hnone (.ok []) fun _ => rfl
  | quotaUsedBytes => exact hnone (.ok (0 : Int64)) fun _ => rfl
  | listSieveScripts => exact hnone (.ok []) fun _ => rfl
  | getSieveScript name => exact hnone (.error .notFound) fun _ => rfl
  | changesSince c after => exact hnone (.error .notFound) fun _ => rfl
  | vacationLastSent s => exact congrArg Except.ok (hvac s)

theorem answer_vacation (e : Engine) (env : Env) (x s : Str) :
    e.answer env x (.vacationLastSent s) = (.ok (vacationLastSent e.raw x s) : Except RawErr (Option Nat)) :=
  rfl

theorem vacation_purge (x y s : Str) (a : UInt32) :
    vacationLastSent (e.raw.batch (purgeOps e x a)) y s = vacationLastSent e.raw y s := by
  rw [vacationLastSent, vacationLastSent, purge_vacation]

/-- A purge leaves what is read of another address as it was. -/
theorem Sound.answer_purge (h : Sound n e) (hn : n + 1 < 2 ^ 32) (hyx : y ≠ x) (r : Read) :
    (e.step (.purge x)).answer env y r = e.answer env y r := by
  obtain ⟨-, hs⟩ | ⟨a, ha, hpos, hle, hs⟩ := h.step_purge_cases x
  · rw [hs]
  rw [hs]
  have hemail : ((e.batch (purgeOps e x a)).forgetAccount x a).raw[metaEmailKey y]? =
      e.raw[metaEmailKey y]? := purge_email hyx
  have hids : ((e.batch (purgeOps e x a)).forgetAccount x a).ids.account y = e.ids.account y :=
    Function.update_of_ne hyx _ _
  have hvac : ∀ s, vacationLastSent ((e.batch (purgeOps e x a)).forgetAccount x a).raw y s =
      vacationLastSent e.raw y s := fun s => vacation_purge x y s a
  obtain ⟨hy, -⟩ | ⟨b, hb, -⟩ := h.registered y
  · exact (h.purge hle).answer_new h hn rfl rfl (hemail.trans hy) hy hvac r
  · have hba : b ≠ a := by
      rintro rfl
      exact hyx (h.distinct y x _ hb ha)
    have hsame : Same y y b ((e.batch (purgeOps e x a)).forgetAccount x a) e :=
      { raw := ⟨fun k hk => purge_owned hk hba, accountByEmail_of_row (hemail.trans hb),
          accountByEmail_of_row hb⟩
        blobs := rfl
        now := rfl
        boxes := Function.update_of_ne (fun he => hba (UInt32.toNat.inj he)) _ _
        left := fun m hm => h.cached_eq hb m (hids.symm.trans hm)
        right := h.cached_eq hb }
    exact hsame.answer env hvac r

/-- A new account reads as one in an empty engine, if no vacation record is filed under its address. -/
theorem Sound.answer_create (h : Sound n e) (hn : n + 1 < 2 ^ 32) (hx : e.raw[metaEmailKey x]? = none) :
    (∀ r, (e.step (.create x)).answer env x r = (e.blank.step (.create y)).answer env y r) ↔
      ∀ s, vacationLastSent e.raw x s = none := by
  have hblank : e.blank.raw[metaEmailKey y]? = none := by
    rw [getElem?_blank, if_neg (metaNextAccountKey_ne y)]
  have hnovac : ∀ s, vacationLastSent e.blank.raw y s = none := fun s => by
    rw [vacationLastSent, getElem?_blank, if_neg fun he => metaVacationKey_ne_next y s he.symm]
    rfl
  have hstep : ∀ {g : Engine} {z : Str}, Sound n g → g.raw[metaEmailKey z]? = none →
      g.step (.create z) = g.batch (registration z (.ofNat n)) := by
    intro g z hg hz
    rw [Engine.step, ensureAccount_new hz (hg.unknown hz) hg.next]
    rfl
  rw [hstep h hx, hstep h.blank hblank]
  constructor
  · intro hall s
    have hs := Except.ok.inj ((answer_vacation ..).symm.trans
      ((hall (.vacationLastSent s)).trans (answer_vacation ..)))
    calc vacationLastSent e.raw x s
        = vacationLastSent (e.raw.batch (registration x (.ofNat n))) x s :=
          (vacation_registration ..).symm
      _ = vacationLastSent (e.blank.raw.batch (registration y (.ofNat n))) y s := hs
      _ = vacationLastSent e.blank.raw y s := vacation_registration ..
      _ = none := hnovac s
  · intro hvac r
    refine (h.same_new h.blank hn rfl rfl hx hblank).answer env (fun s => ?_) r
    exact (vacation_registration ..).trans ((hvac s).trans ((vacation_registration ..).trans (hnovac s)).symm)

end Sound

/-! ### The result -/

theorem Engine.steady_append {ops ops' : List EngineOp} : ∀ {e : Engine},
    e.steady (ops ++ ops') = true → e.steady ops = true ∧ (e.run ops).steady ops' = true := by
  induction ops with
  | nil => exact fun h => ⟨rfl, h⟩
  | cons op ops ih =>
    intro e h
    obtain ⟨hop, hops⟩ := Bool.and_eq_true_iff.mp h
    obtain ⟨h1, h2⟩ := ih hops
    exact ⟨Bool.and_eq_true_iff.mpr ⟨hop, h1⟩, h2⟩

/-- ISOLATED: an account is purged after any run, and after any run that spares its address the address
    is created again, with account IDs left for every account. Every read of it then answers as it
    would for any address in an engine where none ever existed if and only if no vacation record was
    filed under the address before the purge; and the purge itself changes no read of any other
    address. -/
theorem purge_isolated (env : Env) (before between : List EngineOp) (x y : Str)
    (hsteady : ({} : Engine).steady (before ++ .purge x :: between ++ [.create x]) = true)
    (hspares : ∀ op ∈ between, op.spares x = true) :
    ((∀ r, ((({} : Engine).run (before ++ .purge x :: between)).step (.create x)).answer env x r =
        ((({} : Engine).run (before ++ .purge x :: between)).blank.step (.create y)).answer env y r) ↔
      ∀ s, vacationLastSent (({} : Engine).run before).raw x s = none) ∧
    ∀ z, z ≠ x → ∀ r, ((({} : Engine).run before).step (.purge x)).answer env z r =
      (({} : Engine).run before).answer env z r := by
  obtain ⟨hrun, hlast⟩ := Engine.steady_append hsteady
  obtain ⟨hbefore, hafter⟩ := Engine.steady_append hrun
  obtain ⟨-, hbetween⟩ := Bool.and_eq_true_iff.mp hafter
  obtain ⟨n, -, hn, -⟩ := sound_initial.run hbefore
  have happend : ({} : Engine).run (before ++ .purge x :: between) =
      ((({} : Engine).run before).step (.purge x)).run between := foldl_append ..
  rw [happend] at hlast ⊢
  generalize ({} : Engine).run before = e at hn hbetween hlast ⊢
  have hpurged : Sound n (e.step (.purge x)) ∧ (e.step (.purge x)).raw[metaEmailKey x]? = none ∧
      ∀ s, (e.step (.purge x)).raw[metaVacationKey x s]? = e.raw[metaVacationKey x s]? := by
    obtain ⟨hx, hs⟩ | ⟨a, -, -, hle, hs⟩ := hn.step_purge_cases x
    · rw [hs]
      exact ⟨hn, hx, fun _ => rfl⟩
    · rw [hs]
      exact ⟨hn.purge hle, purge_email_self x a, fun s => purge_vacation⟩
  obtain ⟨hsound, hgone, hkept⟩ := hpurged
  obtain ⟨m, hle, hm, hrest⟩ := hsound.run hbetween
  obtain ⟨hnew, hvac⟩ := hrest x hspares hgone
  have hroom : m + 1 < 2 ^ 32 := hm.room_of_fits (Bool.and_eq_true_iff.mp hlast).1
  refine ⟨(hm.answer_create hroom hnew).trans (forall_congr' fun s => ?_), fun z hz r => ?_⟩
  · rw [vacationLastSent, vacationLastSent, hvac, hkept]
  · exact hn.answer_purge (by omega) hz r

/-- Reads with the smallest configuration and a date parser that finds no date. -/
def Env.plain : Env := { Config.plain with parseDate := fun _ => none }

/-- Two accounts, one of them purged and created again. -/
def sampleBefore : List EngineOp :=
  [.create (ascii "a@x"), .create (ascii "b@x"), .memoAccount (ascii "a@x"),
    .write (ascii "a@x") [(spaceQuota, [], some (beUint64 7))]]

theorem purge_isolated_sample :
    ({} : Engine).steady (sampleBefore ++ .purge (ascii "a@x") :: [.clock 5] ++ [.create (ascii "a@x")]) =
      true ∧ (((∀ r, ((({} : Engine).run (sampleBefore ++ .purge (ascii "a@x") :: [.clock 5])).step
          (.create (ascii "a@x"))).answer Env.plain (ascii "a@x") r =
        ((({} : Engine).run (sampleBefore ++ .purge (ascii "a@x") :: [.clock 5])).blank.step
          (.create (ascii "c@x"))).answer Env.plain (ascii "c@x") r) ↔
      ∀ s, vacationLastSent (({} : Engine).run sampleBefore).raw (ascii "a@x") s = none) ∧
    ∀ z, z ≠ ascii "a@x" → ∀ r,
      ((({} : Engine).run sampleBefore).step (.purge (ascii "a@x"))).answer Env.plain z r =
        (({} : Engine).run sampleBefore).answer Env.plain z r) :=
  ⟨by decide +kernel, purge_isolated Env.plain sampleBefore [.clock 5] (ascii "a@x") (ascii "c@x")
    (by decide +kernel) (by decide +kernel)⟩

/-- An engine whose account sent a vacation reply and was purged. -/
def sampleReplied : Engine := ({} : Engine).run
  [.create (ascii "a@x"), .vacation (ascii "a@x") (ascii "s@y") 7, .purge (ascii "a@x")]

/-- The reply counts for the account that the address gets next, as it would not for an address that
    never existed. -/
theorem vacation_outlives_purge : accountByEmail sampleReplied.raw (ascii "a@x") = .error .notFound ∧
    vacationLastSent (sampleReplied.step (.create (ascii "a@x"))).raw (ascii "a@x") (ascii "s@y") = some 7 ∧
    (sampleReplied.step (.create (ascii "a@x"))).answer Env.plain (ascii "a@x")
        (.vacationLastSent (ascii "s@y")) ≠
      (sampleReplied.blank.step (.create (ascii "c@x"))).answer Env.plain (ascii "c@x")
        (.vacationLastSent (ascii "s@y")) := by
  have hkept : vacationLastSent (sampleReplied.step (.create (ascii "a@x"))).raw (ascii "a@x")
      (ascii "s@y") = some 7 := by decide +kernel
  have hnone : vacationLastSent (sampleReplied.blank.step (.create (ascii "c@x"))).raw (ascii "c@x")
      (ascii "s@y") = none := by decide +kernel
  refine ⟨by decide +kernel, hkept, fun h => ?_⟩
  have hsame := Except.ok.inj ((answer_vacation ..).symm.trans (h.trans (answer_vacation ..)))
  rw [hkept, hnone] at hsame
  cases hsame

end Mailezine.Mailstore.Bytes
