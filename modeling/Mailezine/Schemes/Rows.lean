import Mathlib.Data.List.Sort
import Mathlib.Algebra.BigOperators.Group.List.Basic
import Mathlib.Algebra.GroupWithZero.Nat

/-! Ordered key spaces.

    A key space of a sorted key-value store is an ordered map; a prefix scan is its list of rows in
    key order. The lemmas say what a point read and a scan see after a write. -/

namespace Mailezine.Schemes
open Std List

variable {κ β : Type} {cmp : κ → κ → Ordering} [TransCmp cmp] [LawfulEqCmp cmp] [DecidableEq κ]

/-! ### Point reads -/

@[simp] theorem getElem?_insert_row (t : ExtTreeMap κ β cmp) (k a : κ) (v : β) :
    (t.insert k v)[a]? = if k = a then some v else t[a]? := by
  rw [ExtTreeMap.getElem?_insert]
  by_cases h : k = a
  · simp [h]
  · simp [h, LawfulEqCmp.compare_eq_iff_eq]

@[simp] theorem getElem?_erase_row (t : ExtTreeMap κ β cmp) (k a : κ) :
    (t.erase k)[a]? = if k = a then none else t[a]? := by
  rw [ExtTreeMap.getElem?_erase]
  by_cases h : k = a
  · simp [h]
  · simp [h, LawfulEqCmp.compare_eq_iff_eq]

/-! ### Scans -/

omit [DecidableEq κ]

theorem mem_erase_row (t : ExtTreeMap κ β cmp) (k a : κ) : a ∈ t.erase k ↔ k ≠ a ∧ a ∈ t := by
  rw [ExtTreeMap.mem_erase, Ne, Ne, LawfulEqCmp.compare_eq_iff_eq]

variable {t : ExtTreeMap κ β cmp}

theorem mem_scan {r : κ × β} : r ∈ t.toList ↔ t[r.1]? = some r.2 :=
  ExtTreeMap.mem_toList_iff_getElem?_eq_some

/-- A list of rows in key order that has exactly the rows of some kind is the scan of that kind. -/
theorem filter_scan_eq {p : κ × β → Bool} {l : List (κ × β)} (hl : l.Pairwise fun a b => cmp a.1 b.1 = .lt)
    (h : ∀ r, r ∈ l ↔ t[r.1]? = some r.2 ∧ p r = true) : t.toList.filter p = l := by
  have hasymm : Asymm fun a b : κ × β => cmp a.1 b.1 = .lt :=
    ⟨fun a b hab hba => absurd (TransCmp.lt_trans hab hba) (by simp [ReflCmp.compare_self])⟩
  refine (ExtTreeMap.ordered_keys_toList.filter p).eq_of_mem_iff hl fun r => ?_
  rw [mem_filter, mem_scan, h r]

/-- A list of rows in key order that has exactly the rows of the space is its scan. -/
theorem scan_eq {l : List (κ × β)}
    (hl : l.Pairwise fun a b => cmp a.1 b.1 = .lt) (h : ∀ r, r ∈ l ↔ t[r.1]? = some r.2) : t.toList = l := by
  rw [← filter_scan_eq (p := fun _ => true) hl (by simpa using h), filter_true]

/-- A row behind all others is scanned last. -/
theorem scan_insert_last (t : ExtTreeMap κ β cmp) (k : κ) (v : β)
    (h : ∀ a w, t[a]? = some w → cmp a k = .lt) : (t.insert k v).toList = t.toList ++ [(k, v)] := by
  classical
  refine scan_eq ?_ fun r => ?_
  · rw [pairwise_append]
    refine ⟨ExtTreeMap.ordered_keys_toList, pairwise_singleton _ _, fun a ha b hb => ?_⟩
    rw [mem_singleton.mp hb]
    exact h a.1 a.2 (mem_scan.mp ha)
  · rw [mem_append, mem_scan, mem_singleton, getElem?_insert_row]
    by_cases hk : k = r.1
    · have hnone : t[k]? = none := by
        cases hw : t[k]? with
        | none => rfl
        | some w => exact absurd (h k w hw) (by simp [ReflCmp.compare_self])
      obtain ⟨a, w⟩ := r
      obtain rfl : k = a := hk
      simp [hnone, eq_comm]
    · have : r ≠ (k, v) := fun he => hk (by rw [he])
      simp [hk, this]

theorem nodup_scan_keys (t : ExtTreeMap κ β cmp) : (t.toList.map (·.1)).Nodup := by
  rw [List.Nodup, pairwise_map]
  exact ExtTreeMap.distinct_keys_toList.imp fun h he => h (by rw [he]; exact ReflCmp.compare_self)

/-- A row and the scan without it make up the scan. -/
theorem scan_perm_cons [DecidableEq κ] {k : κ} {v : β}
    (h : t[k]? = some v) : t.toList.Perm ((k, v) :: (t.erase k).toList) := by
  have hnodup : ∀ t : ExtTreeMap κ β cmp, t.toList.Nodup := fun t => (nodup_scan_keys t).of_map _
  refine (perm_ext_iff_of_nodup (hnodup t) (nodup_cons.mpr ⟨?_, hnodup _⟩)).mpr fun r => ?_
  · rw [mem_scan]; simp
  · rw [mem_cons, mem_scan, mem_scan, getElem?_erase_row]
    obtain ⟨a, w⟩ := r
    by_cases hk : k = a
    · subst hk; simp [h, eq_comm]
    · have : (a, w) ≠ (k, v) := fun he => hk (Prod.ext_iff.mp he).1.symm
      simp [hk, this]

/-! ### Totals over a space -/

/-- The sum of a number that every row has. -/
def weigh (f : β → Nat) (t : ExtTreeMap κ β cmp) : Nat := (t.toList.map fun r => f r.2).sum

/-- What a row adds to the total. -/
theorem weigh_eq [DecidableEq κ] (f : β → Nat) (t : ExtTreeMap κ β cmp) (k : κ) :
    weigh f t = (t[k]?).elim 0 f + weigh f (t.erase k) := by
  cases h : t[k]? with
  | some v =>
    unfold weigh
    rw [((scan_perm_cons h).map _).sum_eq, map_cons, sum_cons]
    rfl
  | none =>
    rw [Option.elim_none, Nat.zero_add]
    congr 1
    refine ExtTreeMap.ext_getElem? fun a => ?_
    rw [getElem?_erase_row]
    split_ifs with ha
    · rw [← ha, h]
    · rfl

theorem weigh_insert [DecidableEq κ] (f : β → Nat) (t : ExtTreeMap κ β cmp) (k : κ) (v : β) :
    weigh f (t.insert k v) = f v + weigh f (t.erase k) := by
  rw [weigh_eq f _ k, getElem?_insert_row, if_pos rfl, Option.elim_some]
  congr 2
  refine ExtTreeMap.ext_getElem? fun a => ?_
  simp only [getElem?_erase_row, getElem?_insert_row]
  split_ifs <;> rfl

omit [LawfulEqCmp cmp] in
/-- Rows of one kind, counted. -/
theorem countP_scan_eq_weigh (p : β → Prop) [DecidablePred p] (t : ExtTreeMap κ β cmp) :
    t.toList.countP (fun r => p r.2) = weigh (fun v => if p v then 1 else 0) t := by
  unfold weigh
  induction t.toList with
  | nil => rfl
  | cons r l ih => simp [countP_cons, ih, Nat.add_comm]

/-! ### Keys that are pairs -/

/-- Pairs in lexicographic order: the key order of two fixed-width numbers one behind the other. -/
def pairCmp : Nat × Nat → Nat × Nat → Ordering := compareLex (compareOn (·.1)) (compareOn (·.2))

instance : TransCmp pairCmp := inferInstanceAs (TransCmp (compareLex _ _))

instance : LawfulEqCmp pairCmp where
  eq_of_compare {a b} h := by
    simp only [pairCmp, compareLex_eq_eq, compareOn, Nat.compare_eq_eq] at h
    exact Prod.ext h.1 h.2

end Mailezine.Schemes
