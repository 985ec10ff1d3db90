import Mathlib.Data.List.Sort
import Mathlib.Data.List.Nodup

/-! Lists addressed by position, for protocols that name list entries by their current number.

    `positions` are the numbers (from a given start) of the entries with a property. Removing the
    entries at these positions one at a time, from the highest down, is filtering them out: no
    removal moves an entry that is still to be removed. -/

namespace Mailezine.Schemes
open List

variable {α β : Type}

/-- The numbers of the entries with property `p`, counted from `n`. -/
def positions (p : α → Bool) : Nat → List α → List Nat
  | _, [] => []
  | n, a :: l => if p a then n :: positions p (n + 1) l else positions p (n + 1) l

theorem le_of_mem_positions {p : α → Bool} : ∀ {l : List α} {n k : Nat}, k ∈ positions p n l → n ≤ k
  | a :: l, n, k, h => by
    unfold positions at h
    split at h
    · rcases mem_cons.mp h with rfl | h
      · exact le_rfl
      · exact Nat.le_of_succ_le (le_of_mem_positions h)
    · exact Nat.le_of_succ_le (le_of_mem_positions h)

theorem positions_pairwise (p : α → Bool) : ∀ (l : List α) (n : Nat), (positions p n l).Pairwise (· < ·)
  | [], _ => .nil
  | a :: l, n => by
    unfold positions
    split
    · exact .cons (fun k hk => le_of_mem_positions hk) (positions_pairwise p l (n + 1))
    · exact positions_pairwise p l (n + 1)

/-- Erasing the entries that are not kept, from the highest position down, filters the list. -/
theorem foldr_eraseIdx_positions (p : α → Bool) (g : α → β) (tail : List β) : ∀ (l : List α) (front : List β),
      (positions (!p ·) (front.length + 1) l).foldr (fun k c => c.eraseIdx (k - 1))
        (front ++ (l.map g ++ tail)) = front ++ ((l.filter p).map g ++ tail)
  | [], _ => rfl
  | a :: l, front => by
    -- the entries behind `a` go first; `a` then stands at the end of the longer front
    have ih := foldr_eraseIdx_positions p g tail l (front ++ [g a])
    simp only [length_append, length_singleton, append_assoc,
      singleton_append] at ih
    unfold positions
    cases hp : p a with
    | true => simp [hp, ih]
    | false =>
      have herase : (front ++ g a :: ((l.filter p).map g ++ tail)).eraseIdx front.length =
          front ++ ((l.filter p).map g ++ tail) := by
        rw [eraseIdx_append_of_length_le le_rfl, Nat.sub_self]; rfl
      simp [hp, ih, herase]

/-- A list whose entries with `p` all come before the others is its two halves. -/
theorem filter_append_filter_not {p : α → Bool} : ∀ {l : List α},
    l.Pairwise (fun a b => p b = true → p a = true) → l.filter p ++ l.filter (!p ·) = l
  | [], _ => rfl
  | a :: l, h => by
    obtain ⟨ha, hl⟩ := pairwise_cons.mp h
    cases hp : p a with
    | true => simp [hp, filter_append_filter_not hl]
    | false =>
      have hnone : l.filter p = [] := by
        rw [filter_eq_nil_iff]
        intro b hb hpb
        exact absurd (ha b hb hpb) (by simp [hp])
      have hall : l.filter (!p ·) = l := by
        rw [filter_eq_self]
        intro b hb
        by_contra hpb
        exact absurd (ha b hb (by simpa using hpb)) (by simp [hp])
      simp [hp, hnone, hall]

end Mailezine.Schemes
