import Mathlib.Data.List.Basic

/-! Parts of a list worked on apart, with the results written back at the positions of the parts.

    A part is chosen by a predicate and keeps the positions of its elements. Its results are written one
    by one into a list of results for the whole; the result at a position is then that of the part which
    the element belongs to, at its rank in that part. -/

namespace Mailezine.Schemes
open List

variable {α β ι : Type}

/-- The elements that are chosen, with their positions. -/
def selected (p : α → Bool) (l : List α) : List (α × Nat) := l.zipIdx.filter fun x => p x.1

/-- How many elements before a position are chosen. -/
def rank (p : α → Bool) (l : List α) (k : Nat) : Nat := (l.take k).countP p

/-- Write results at positions. -/
def scatter (results : List β) (ks : List Nat) (rs : List β) : List β :=
  (ks.zip rs).foldl (fun acc x => acc.set x.1 x.2) results

variable {a : α} {p : α → Bool}

theorem selected_zipIdx_rank : ∀ {l : List α} {k n : Nat}, l[k]? = some a → p a = true →
    ((l.zipIdx n).filter fun x => p x.1)[rank p l k]? = some (a, n + k)
  | b :: l, 0, n, ha, hp => by
    cases ha
    simp [rank, hp]
  | b :: l, k + 1, n, ha, hp => by
    have ih := selected_zipIdx_rank (n := n + 1) (by simpa using ha) hp
    by_cases hb : p b = true
    · simpa [rank, hb, Nat.add_assoc, Nat.add_comm 1 k] using ih
    · simpa [rank, hb, Nat.add_assoc, Nat.add_comm 1 k] using ih

/-- An element of a part is in it at its rank. -/
theorem selected_rank {l : List α} {k : Nat} (ha : l[k]? = some a) (hp : p a = true) :
    (selected p l)[rank p l k]? = some (a, k) := by
  have h := selected_zipIdx_rank (n := 0) ha hp
  rwa [Nat.zero_add] at h

theorem filter_rank : ∀ {l : List α} {k : Nat}, l[k]? = some a → p a = true → (l.filter p)[rank p l k]? = some a
  | b :: l, 0, ha, hp => by
    cases ha
    simp [rank, hp]
  | b :: l, k + 1, ha, hp => by
    have ih : (l.filter p)[rank p l k]? = some a := filter_rank (by simpa using ha) hp
    by_cases hb : p b = true
    · simpa [rank, hb] using ih
    · simpa [rank, hb] using ih

/-- Every place of a part is the rank of a position. -/
theorem exists_rank : ∀ {l : List α} {j : Nat}, (l.filter p)[j]? = some a →
    ∃ k, l[k]? = some a ∧ p a = true ∧ rank p l k = j
  | b :: l, j, h => by
    by_cases hb : p b = true
    · rw [filter_cons_of_pos hb] at h
      cases j with
      | zero =>
        cases h
        exact ⟨0, rfl, hb, rfl⟩
      | succ j =>
        obtain ⟨k, hk, hp, hr⟩ := exists_rank (l := l) (by simpa using h)
        exact ⟨k + 1, hk, hp, by simpa [rank, hb] using hr⟩
    · rw [filter_cons_of_neg hb] at h
      obtain ⟨k, hk, hp, hr⟩ := exists_rank h
      exact ⟨k + 1, hk, hp, by simpa [rank, hb] using hr⟩

theorem rank_mono (p : α → Bool) (l : List α) {k k' : Nat} (h : k ≤ k') : rank p l k ≤ rank p l k' :=
  (take_prefix_take_left h).sublist.countP_le

theorem mem_selected {l : List α} {k : Nat} : (a, k) ∈ selected p l ↔ l[k]? = some a ∧ p a = true := by
  simp [selected, mem_zipIdx_iff_getElem?]

theorem nodup_selected (p : α → Bool) (l : List α) : ((selected p l).map (·.2)).Nodup := by
  have hsub : ((selected p l).map (·.2)).Sublist (l.zipIdx.map (·.2)) := filter_sublist.map _
  refine hsub.nodup ?_
  rw [show (fun x : α × Nat => x.2) = Prod.snd from rfl, zipIdx_map_snd]
  exact nodup_range'

theorem length_scatter : ∀ (ks : List Nat) (rs results : List β), (scatter results ks rs).length = results.length
  | [], _, _ => rfl
  | _ :: _, [], _ => rfl
  | k :: ks, r :: rs, results => by
    rw [scatter, zip_cons_cons, foldl_cons]
    exact (length_scatter ks rs _).trans (length_set ..)

/-- Other positions keep their result. -/
theorem scatter_of_notMem {i : Nat} : ∀ {ks : List Nat} {rs results : List β}, i ∉ ks →
    (scatter results ks rs)[i]? = results[i]?
  | [], _, _, _ => rfl
  | _ :: _, [], _, _ => rfl
  | k :: ks, r :: rs, results, h => by
    obtain ⟨hk, hks⟩ : i ≠ k ∧ i ∉ ks := by simpa using h
    rw [scatter, zip_cons_cons, foldl_cons]
    exact (scatter_of_notMem hks).trans (getElem?_set_ne (Ne.symm hk))

/-- A position that is written has its result. -/
theorem scatter_of_mem {i j : Nat} {r : β} : ∀ {ks : List Nat} {rs results : List β}, ks.Nodup → ks[j]? = some i →
    rs[j]? = some r → i < results.length → (scatter results ks rs)[i]? = some r
  | k :: ks, s :: rs, results, hks, hi, hr, hlt => by
    obtain ⟨hk, hks⟩ := nodup_cons.mp hks
    rw [scatter, zip_cons_cons, foldl_cons]
    cases j with
    | zero =>
      cases hi
      cases hr
      exact (scatter_of_notMem hk).trans (getElem?_set_self hlt)
    | succ j => exact scatter_of_mem hks (by simpa using hi) (by simpa using hr) (by simpa using hlt)

/-! ### All parts -/

/-- Write the results of all parts. -/
def scatterAll (l : List α) (part : ι → α → Bool) (work : ι → List β) (results : List β) (is : List ι) : List β :=
  is.foldl (fun acc i => scatter acc ((selected (part i) l).map (·.2)) (work i)) results

section
variable {l : List α} {part : ι → α → Bool} {work : ι → List β}

theorem length_scatterAll : ∀ (is : List ι) (results : List β),
    (scatterAll l part work results is).length = results.length
  | [], _ => rfl
  | i :: is, results => by
    rw [scatterAll, foldl_cons]
    exact (length_scatterAll is _).trans (length_scatter ..)

/-- An element of no part keeps its result. -/
theorem scatterAll_of_notMem {k : Nat} {a : α} (ha : l[k]? = some a) : ∀ {is : List ι} {results : List β},
    (∀ i ∈ is, part i a = false) → (scatterAll l part work results is)[k]? = results[k]?
  | [], _, _ => rfl
  | i :: is, results, h => by
    have hk : k ∉ (selected (part i) l).map (·.2) := fun hmem => by
      obtain ⟨⟨b, k'⟩, hb, rfl⟩ := List.mem_map.mp hmem
      obtain ⟨hb, hp⟩ := mem_selected.mp hb
      cases ha.symm.trans hb
      simp [h i (by simp)] at hp
    rw [scatterAll, foldl_cons]
    exact (scatterAll_of_notMem ha fun j hj => h j (by simp [hj])).trans (scatter_of_notMem hk)

/-- An element of one part has the result of the part at its rank. -/
theorem scatterAll_of_mem {k : Nat} {a : α} {i : ι} {r : β} (ha : l[k]? = some a) (hi : part i a = true)
    (hother : ∀ j, part j a = true → j = i) (hr : (work i)[rank (part i) l k]? = some r) :
    ∀ {is : List ι} {results : List β}, i ∈ is → k < results.length →
      (scatterAll l part work results is)[k]? = some r
  | j :: is, results, hmem, hlt => by
    rw [scatterAll, foldl_cons]
    by_cases hmem' : i ∈ is
    · exact scatterAll_of_mem ha hi hother hr hmem' (by rwa [length_scatter])
    · obtain rfl : i = j := (mem_cons.mp hmem).resolve_right hmem'
      have hrest : ∀ j ∈ is, part j a = false := fun j hj =>
        Bool.eq_false_iff.mpr fun hp => hmem' (hother j hp ▸ hj)
      refine (scatterAll_of_notMem ha hrest).trans (scatter_of_mem (nodup_selected ..) ?_ hr hlt)
      rw [getElem?_map, selected_rank ha hi]
      rfl

end

/-! ### Parts one after the other -/

theorem nodup_eraseDups [DecidableEq ι] : ∀ l : List ι, l.eraseDups.Nodup
  | [] => nodup_nil
  | a :: l => by
    rw [eraseDups_cons, nodup_cons]
    exact ⟨by simp, nodup_eraseDups _⟩
termination_by l => l.length
decreasing_by exact Nat.lt_succ_of_le (length_filter_le _ _)

theorem rank_append (front rest : List α) (j : Nat) :
    rank p (front ++ rest) (front.length + j) = front.countP p + rank p rest j := by
  rw [rank, take_length_add_append, countP_append, rank]

/-- Where the parts of a list, put one after the other, are the list, their results put one after the other
    have the result of each element at its position. -/
theorem getElem?_flatMap_of_parts [DecidableEq ι] {f : α → ι} {work : ι → List β} :
    ∀ {ks : List ι} {l : List α} {i : Nat}, ks.Nodup → (ks.flatMap fun k => l.filter (f · = k)) = l →
      (∀ k ∈ ks, (work k).length = (l.filter (f · = k)).length) → l[i]? = some a →
      (ks.flatMap work)[i]? = (work (f a))[rank (f · = f a) l i]?
  | [], l, i, _, hl, _, ha => by
    rw [← hl] at ha
    cases ha
  | k :: ks, l, i, hks, hl, hwork, ha => by
    obtain ⟨hk, hks⟩ := nodup_cons.mp hks
    rw [flatMap_cons] at hl ⊢
    obtain ⟨front, hfront⟩ : ∃ front, l.filter (f · = k) = front := ⟨_, rfl⟩
    obtain ⟨rest, hrest⟩ : ∃ rest, (ks.flatMap fun k => l.filter (f · = k)) = rest := ⟨_, rfl⟩
    have hlen : (work k).length = front.length := hfront ▸ hwork k mem_cons_self
    have hin : ∀ b ∈ front, f b = k := fun b hb => by
      rw [← hfront] at hb
      simpa using (mem_filter.mp hb).2
    rw [hfront, hrest] at hl
    -- the other parts lie in the rest
    have hother : ∀ k' ∈ ks, l.filter (f · = k') = rest.filter (f · = k') := fun k' hk' => by
      have hnil : front.filter (f · = k') = [] := filter_eq_nil_iff.mpr fun b hb => by
        rw [hin b hb]
        simpa using fun h : k = k' => hk (h ▸ hk')
      rw [← hl, filter_append, hnil, nil_append]
    by_cases hi : i < front.length
    · rw [← hl, getElem?_append_left hi] at ha
      have hfa := hin a (mem_of_getElem? ha)
      have hrank : rank (f · = f a) l i = i := by
        rw [rank, ← hl, take_append_of_le_length (Nat.le_of_lt hi), countP_eq_length.mpr, length_take]
        · omega
        · intro b hb
          simp [hin b (mem_of_mem_take hb), hfa]
      rw [hrank, getElem?_append_left (hlen ▸ hi), hfa]
    · obtain ⟨j, rfl⟩ := Nat.exists_eq_add_of_le (Nat.le_of_not_lt hi)
      rw [← hl, getElem?_append_right (Nat.le_add_right ..), Nat.add_sub_cancel_left] at ha
      have hmem : f a ∈ ks := by
        have hrestmem := mem_of_getElem? ha
        rw [← hrest] at hrestmem
        obtain ⟨k', hk', hb⟩ := mem_flatMap.mp hrestmem
        rwa [of_decide_eq_true (mem_filter.mp hb).2]
      have hcount : front.countP (f · = f a) = 0 := countP_eq_zero.mpr fun b hb => by
        rw [hin b hb]
        simpa using fun h : k = f a => hk (h ▸ hmem)
      have ih : (ks.flatMap work)[j]? = (work (f a))[rank (f · = f a) rest j]? := getElem?_flatMap_of_parts hks
        ((flatMap_congr fun k' hk' => (hother k' hk').symm).trans hrest)
        (fun k' hk' => hother k' hk' ▸ hwork k' (mem_cons_of_mem _ hk')) ha
      rw [← hlen, getElem?_append_right (Nat.le_add_right ..), Nat.add_sub_cancel_left, ih, hlen, ← hl,
        rank_append, hcount, Nat.zero_add]

/-! ### The last of a kind -/

/-- Looking from the end finds the last element of a kind. -/
theorem find?_reverse_of_last {l : List α} {j : Nat} {x : α} (hx : l[j]? = some x) (hp : p x = true)
    (hlast : ∀ (i : Nat) (y : α), j < i → l[i]? = some y → p y = false) : l.reverse.find? p = some x := by
  have hdrop : (l.drop (j + 1)).reverse.find? p = none := find?_eq_none.mpr fun y hy => by
    obtain ⟨i, hi⟩ := mem_iff_getElem?.mp (mem_reverse.mp hy)
    rw [getElem?_drop] at hi
    simp [hlast (j + 1 + i) y (by omega) hi]
  rw [← take_append_drop (j + 1) l, reverse_append, find?_append, hdrop, take_add_one, hx]
  simp [hp]

/-- There is a last element of a kind after every one of it. -/
theorem exists_last {l : List α} : ∀ {k : Nat} {x : α}, l[k]? = some x → p x = true →
    ∃ (j : Nat) (y : α), l[j]? = some y ∧ p y = true ∧ ∀ (i : Nat) (z : α), j < i → l[i]? = some z → p z = false := by
  intro k x hx hp
  by_cases h : ∃ (i : Nat) (y : α), k < i ∧ l[i]? = some y ∧ p y = true
  · obtain ⟨i, y, hlt, hy, hpy⟩ := h
    have := (List.getElem?_eq_some_iff.mp hy).1
    exact exists_last hy hpy
  · exact ⟨k, x, hx, hp, fun i z hlt hz => Bool.eq_false_iff.mpr fun hpz => h ⟨i, z, hlt, hz, hpz⟩⟩
termination_by k => l.length - k

end Mailezine.Schemes
