import Mathlib.Order.Lattice
import Mathlib.Data.List.Basic

/-! Reading a sorted stream in groups and a sorted list in chunks.

    A reader that groups by a key keeps one open group; an element with another key closes it. On a
    stream that is sorted by the key, the groups are the elements of each key, whole. -/

namespace Mailezine.Schemes
open List

section Gather
variable {α κ : Type} [DecidableEq κ] (key : α → κ)

/-- The groups that are closed while the stream is read, and the one open at its end. -/
def gather : Option (κ × List α) → List α → List (κ × List α)
  | cur, [] => cur.toList
  | none, x :: xs => gather (some (key x, [x])) xs
  | some (k, g), x :: xs =>
    if key x = k then gather (some (k, g ++ [x])) xs
    else (k, g) :: gather (some (key x, [x])) xs

end Gather

section Sorted
variable {α κ : Type} [LinearOrder κ] [DecidableEq κ] {key : α → κ}

theorem filter_key_eq_nil {k : κ} {xs : List α} (h : ∀ x ∈ xs, k < key x) :
    xs.filter (fun x => key x = k) = [] := by
  rw [filter_eq_nil_iff]
  intro x hx heq
  exact (h x hx).ne' (of_decide_eq_true heq)

/-- The elements of a key in a sorted stream: those with its first element, or those further on. -/
theorem filter_key_cons {x : α} {xs : List α} (h : ∀ y ∈ xs, key x ≤ key y) {j : κ} {f : List α} :
    f = (x :: xs).filter (fun y => key y = j) ∧ f ≠ [] ↔
      (j = key x ∧ f = [x] ++ xs.filter (fun y => key y = key x)) ∨
        (key x < j ∧ f = xs.filter (fun y => key y = j) ∧ f ≠ []) := by
  rcases lt_trichotomy (key x) j with hj | rfl | hj
  · rw [filter_cons_of_neg (by simpa using hj.ne)]
    simp [hj, hj.ne']
  · rw [filter_cons_of_pos (by simp)]
    simp +contextual
  · have hnone : (x :: xs).filter (fun y => key y = j) = [] := by
      refine filter_key_eq_nil fun y hy => ?_
      rcases mem_cons.mp hy with rfl | hy
      · exact hj
      · exact hj.trans_le (h y hy)
    rw [hnone]
    simp +contextual [hj.ne, hj.not_gt]

/-- With the group of `k` open and nothing below `k` to come, that group is completed and the others are
    those of the larger keys. -/
theorem mem_gather_some : ∀ {xs : List α} {k : κ} {g : List α}, (∀ x ∈ xs, k ≤ key x) →
    xs.Pairwise (fun x y => key x ≤ key y) → ∀ {j : κ} {f : List α}, (j, f) ∈ gather key (some (k, g)) xs ↔
      (j = k ∧ f = g ++ xs.filter (fun x => key x = k)) ∨ (k < j ∧ f = xs.filter (fun x => key x = j) ∧ f ≠ [])
  | [], k, g, _, _, j, f => by
    simp only [gather, Option.mem_toList, Option.some.injEq, Prod.mk.injEq, filter_nil,
      append_nil]
    constructor
    · rintro ⟨rfl, rfl⟩
      exact .inl ⟨rfl, rfl⟩
    · rintro (⟨rfl, rfl⟩ | ⟨-, hf, hne⟩)
      · exact ⟨rfl, rfl⟩
      · exact absurd hf hne
  | x :: xs, k, g, hk, hs, j, f => by
    rw [pairwise_cons] at hs
    by_cases hx : key x = k
    · rw [gather, if_pos hx, mem_gather_some (fun y hy => hk y (by simp [hy])) hs.2]
      refine or_congr ?_ (and_congr_right fun hj => ?_)
      · simp [hx]
      · have : key x ≠ j := fun e => hj.ne (hx.symm.trans e)
        simp [this]
    · -- the group of `k` is closed: what comes has larger keys
      have hlt : k < key x := lt_of_le_of_ne (hk x (by simp)) fun e => hx e.symm
      have hnone : xs.filter (fun y => key y = k) = [] :=
        filter_key_eq_nil fun y hy => hlt.trans_le (hs.1 y hy)
      rw [gather, if_neg hx, mem_cons, mem_gather_some hs.1 hs.2, Prod.mk.injEq,
        filter_key_cons hs.1, filter_cons_of_neg (by simpa using hx), hnone, append_nil]
      refine or_congr_right ⟨fun h => ⟨?_, h⟩, fun h => h.2⟩
      rcases h with ⟨rfl, -⟩ | ⟨hj, -⟩
      · exact hlt
      · exact hlt.trans hj

/-- The groups of a sorted stream are the elements of each key it has. -/
theorem mem_gather {xs : List α} (hs : xs.Pairwise fun x y => key x ≤ key y) {j : κ} {f : List α} :
    (j, f) ∈ gather key none xs ↔ f = xs.filter (fun x => key x = j) ∧ f ≠ [] := by
  cases xs with
  | nil => simp [gather]
  | cons x xs =>
    rw [pairwise_cons] at hs
    rw [gather, mem_gather_some hs.1 hs.2, filter_key_cons hs.1]

end Sorted

/-! ### Chunks of a sorted list -/

section Chunks
variable {α : Type} [Preorder α] {d : α}

theorem sorted_bounds : ∀ {l : List α}, l.Pairwise (· ≤ ·) → ∀ x ∈ l, l.headD d ≤ x ∧ x ≤ l.getLastD d
  | [], _, x, hx => absurd hx (by simp)
  | [y], _, x, hx => by simp [mem_singleton.mp hx]
  | y :: z :: l, h, x, hx => by
    rw [pairwise_cons] at h
    have ih := sorted_bounds h.2
    have hlast : (y :: z :: l).getLastD d = (z :: l).getLastD d := by simp
    rw [hlast]
    rcases mem_cons.mp hx with rfl | hx
    · exact ⟨le_rfl, (h.1 z (by simp)).trans (ih z (by simp)).2⟩
    · exact ⟨h.1 x hx, (ih x hx).2⟩

/-- What a sorted list is cut into lies between its ends. -/
theorem chunk_bounds {chunks : List (List α)} (h : chunks.flatten.Pairwise (· ≤ ·)) {run : List α}
    (hrun : run ∈ chunks) : ∀ x ∈ run, run.headD d ≤ x ∧ x ≤ run.getLastD d :=
  sorted_bounds (h.sublist (sublist_flatten_of_mem hrun))

end Chunks

end Mailezine.Schemes
