import Mailezine.Store.Txn
import Mathlib.Data.List.Sort

/-! `SweepBlobs` as a machine that does one store access at a time.

    A pass marks the linked blobs, scans the claims, and then for each claim that is old enough
    reads the claim again, deletes the blob, the claim and the zero link rows, each in a step of its
    own. A cancelled pass is one that takes no further step from the head of its loop. -/

namespace Mailezine.Store
open Schemes

/-- Where a pass stands. -/
inductive SweepPC where
  | mark
  | scan
  | loop
  | recheck (blob : Str)
  | reclaim (blob : Str)
  | dropClaim (blob : Str)
  | dropZero (blob : Str) (rows : List Nat)
  deriving DecidableEq

/-- One pass of `SweepBlobs`: its arguments, what it has scanned and where it stands. -/
structure Sweep where
  grace : Nat
  now : Nat
  live : List Str := []
  zeroRows : List (Str × Nat) := []
  claims : List (Str × Nat) := []
  reclaimed : Nat := 0
  pc : SweepPC := .mark

/-- `ScanBlobLinkSpace`: every link row of every account. -/
def scanBlobLinkSpace (kv : KV) : List (Nat × Str × Nat) :=
  kv.accounts.toList.flatMap fun r => r.2.links.toList.map fun l => (r.1, l.1, l.2)

theorem mem_scanBlobLinkSpace {kv : KV} {a n : Nat} {b : Str} :
    (a, b, n) ∈ scanBlobLinkSpace kv ↔ (kv.account a).links[b]? = some n := by
  unfold scanBlobLinkSpace KV.account
  simp only [List.mem_flatMap, List.mem_map, Prod.exists, Prod.mk.injEq, mem_scan]
  constructor
  · rintro ⟨_, x, hx, _, _, hl, rfl, rfl, rfl⟩
    rw [hx, Option.getD_some, hl]
  · intro h
    cases hx : kv.accounts[a]? with
    | none => simp [hx] at h
    | some x => exact ⟨a, x, hx, b, n, by simpa [hx] using h, rfl, rfl, rfl⟩

/-- A claim queued at a unix time is at least `grace` old at the pass's start. -/
def Sweep.due (s : Sweep) (queued : Nat) : Bool := 10 ^ 9 * queued + s.grace ≤ s.now

/-- `claimStillDue`. -/
def Sweep.claimStillDue (s : Sweep) (blob : Str) (kv : KV) : Bool :=
  (kv.gcClaims[blob]?).any s.due

/-- One step of the pass. -/
def Sweep.step (s : Sweep) (f : Facade) : Sweep × Facade :=
  match s.pc with
  | .mark =>
    let rows := scanBlobLinkSpace f.kv
    ({ s with
      live := (rows.filter fun r => r.2.2 > 0).map fun r => r.2.1
      zeroRows := (rows.filter fun r => r.2.2 = 0).map fun r => (r.2.1, r.1)
      pc := .scan }, f)
  | .scan =>
    -- `sort.Slice` is not stable, but claims of one second are claims of different blobs, which have no
    -- row in common: their order changes nothing
    ({ s with claims := f.kv.gcClaims.toList.insertionSort fun c d => c.2 ≤ d.2, pc := .loop }, f)
  | .loop =>
    match s.claims with
    | [] => (s, f)
    | (blob, queued) :: rest =>
      if blob ∈ s.live then
        -- linked before the pass got here: a stale claim
        ({ s with claims := rest }, f.withKV (f.kv.deleteBlobGCClaim blob))
      else if !s.due queued then ({ s with claims := rest }, f)
      else ({ s with claims := rest, pc := .recheck blob }, f)
  | .recheck blob =>
    ({ s with pc := if s.claimStillDue blob f.kv then .reclaim blob else .loop }, f)
  | .reclaim blob => ({ s with pc := .dropClaim blob }, f.deleteBlob blob)
  | .dropClaim blob =>
    let rows := (s.zeroRows.filter fun r => r.1 = blob).map (·.2)
    ({ s with pc := .dropZero blob rows }, f.withKV (f.kv.deleteBlobGCClaim blob))
  | .dropZero blob (a :: rows) =>
    ({ s with pc := .dropZero blob rows }, f.withKV (f.kv.modify a (·.dropLink blob)))
  | .dropZero _ [] => ({ s with reclaimed := s.reclaimed + 1, pc := .loop }, f)

/-- The blob whose rows the pass is deleting: from its successful re-check to the last zero row. -/
def Sweep.window (s : Sweep) : Option Str :=
  match s.pc with
  | .reclaim blob => some blob
  | .dropClaim blob => some blob
  | .dropZero blob (_ :: _) => some blob
  | _ => none

end Mailezine.Store
