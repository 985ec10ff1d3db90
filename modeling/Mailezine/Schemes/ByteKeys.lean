import Mathlib.Data.List.Basic
import Mathlib.Tactic.Ring

/-! Keys of a byte-ordered store.

    Numbers of a fixed width are written most significant byte first, so that the order of the keys is
    the order of the numbers; the keys with a given prefix are those from the prefix up to its
    `prefixEnd`. -/

namespace Mailezine.Schemes
open List

/-! ### Big-endian numbers -/

/-- The last `8 * k` bits of a number, most significant byte first. -/
def be : Nat → Nat → List UInt8
  | 0, _ => []
  | k + 1, n => UInt8.ofNat (n / 256 ^ k) :: be k n

/-- The number that bytes stand for. -/
def unbe (l : List UInt8) : Nat := l.foldl (fun n b => n * 256 + b.toNat) 0

@[simp] theorem length_be (k n : Nat) : (be k n).length = k := by
  induction k with
  | zero => rfl
  | succ k ih => simp [be, ih]

theorem mod_split (k n : Nat) : n % 256 ^ (k + 1) = 256 ^ k * (n / 256 ^ k % 256) + n % 256 ^ k := by
  rw [Nat.pow_succ, Nat.mod_mul, Nat.add_comm]

theorem unbe_be (k n : Nat) : unbe (be k n) = n % 256 ^ k := by
  have h : ∀ m, (be k n).foldl (fun n b => n * 256 + b.toNat) m = m * 256 ^ k + n % 256 ^ k := by
    induction k with
    | zero => simp [be, Nat.mod_one]
    | succ k ih =>
      intro m
      rw [be, foldl_cons, ih, UInt8.toNat_ofNat', mod_split, Nat.pow_succ]
      ring
  rw [unbe, h, Nat.zero_mul, Nat.zero_add]

/-- Bytes are the digits of the number they stand for. -/
theorem be_unbe : ∀ l : List UInt8, be l.length (unbe l) = l := by
  -- a number above the digits of `l` does not show in them
  have h : ∀ (l : List UInt8) (m : Nat), be l.length (l.foldl (fun n b => n * 256 + b.toNat) m) = l ∧
      l.foldl (fun n b => n * 256 + b.toNat) m / 256 ^ l.length = m := by
    intro l
    induction l with
    | nil => exact fun m => ⟨rfl, by simp⟩
    | cons b l ih =>
      intro m
      obtain ⟨hbe, hdiv⟩ := ih (m * 256 + b.toNat)
      have hb : (m * 256 + b.toNat) / 256 = m := by
        have := b.toNat_lt
        omega
      refine ⟨?_, ?_⟩
      · rw [length_cons, foldl_cons, be, hdiv, hbe]
        refine congrArg (· :: l) (UInt8.toNat.inj ?_)
        rw [UInt8.toNat_ofNat']
        have := b.toNat_lt
        omega
      · rw [length_cons, foldl_cons, Nat.pow_succ, ← Nat.div_div_eq_div_mul, hdiv, hb]
  exact fun l => (h l 0).1

theorem be_inj {k n m : Nat} (hn : n < 256 ^ k) (hm : m < 256 ^ k) (h : be k n = be k m) : n = m := by
  have := congrArg unbe h
  rwa [unbe_be, unbe_be, Nat.mod_eq_of_lt hn, Nat.mod_eq_of_lt hm] at this

/-! ### The order of keys -/

theorem compare_cons (a b : UInt8) (s t : List UInt8) :
    compare (a :: s) (b :: t) = (compare a.toNat b.toNat).then (compare s t) := by
  have hab : compare a b = compare a.toNat b.toNat := by
    show compareOfLessAndEq a b = compareOfLessAndEq a.toNat b.toNat
    simp only [compareOfLessAndEq, UInt8.lt_iff_toNat_lt, ← UInt8.toNat_inj]
  rw [← hab]
  exact List.compareLex_cons_cons

theorem compare_append (p s t : List UInt8) : compare (p ++ s) (p ++ t) = compare s t := by
  induction p with
  | nil => rfl
  | cons a p ih => simp [ih]

/-- Keys whose first parts have the same length compare by the first parts, then by the rest. -/
theorem compare_append_append {p q : List UInt8} (h : p.length = q.length) (s t : List UInt8) :
    compare (p ++ s) (q ++ t) = (compare p q).then (compare s t) := by
  induction p generalizing q with
  | nil => rw [length_eq_zero_iff.mp h.symm]; rfl
  | cons a p ih =>
    obtain ⟨b, q, rfl⟩ := exists_cons_of_length_eq_add_one h.symm
    rw [cons_append, cons_append, compare_cons, compare_cons, ih (Nat.succ.inj h),
      Ordering.then_assoc]

/-- Two digits compare by the first, then by the second. -/
theorem compare_digits {c q r q' r' : Nat} (hr : r < c) (hr' : r' < c) :
    compare (c * q + r) (c * q' + r') = (compare q q').then (compare r r') := by
  rcases Nat.lt_trichotomy q q' with h | rfl | h
  · have : c * q + r < c * q' + r' := by
      have := Nat.mul_le_mul_left c (show q + 1 ≤ q' from h)
      rw [Nat.mul_succ] at this
      omega
    rw [Nat.compare_eq_lt.mpr this, Nat.compare_eq_lt.mpr h]
    rfl
  · rw [Nat.compare_eq_eq.mpr (rfl : q = q), Ordering.eq_then]
    rcases Nat.lt_trichotomy r r' with h | rfl | h
    · rw [Nat.compare_eq_lt.mpr h, Nat.compare_eq_lt.mpr (by omega)]
    · rw [Nat.compare_eq_eq.mpr rfl, Nat.compare_eq_eq.mpr rfl]
    · rw [Nat.compare_eq_gt.mpr h, Nat.compare_eq_gt.mpr (by omega)]
  · have : c * q' + r' < c * q + r := by
      have := Nat.mul_le_mul_left c (show q' + 1 ≤ q from h)
      rw [Nat.mul_succ] at this
      omega
    rw [Nat.compare_eq_gt.mpr this, Nat.compare_eq_gt.mpr h]
    rfl

/-- Numbers in order are keys in order. -/
theorem compare_be (k n m : Nat) : compare (be k n) (be k m) = compare (n % 256 ^ k) (m % 256 ^ k) := by
  induction k with
  | zero => simp [be, Nat.mod_one]
  | succ k ih =>
    have hpos : 0 < 256 ^ k := Nat.pow_pos (by decide)
    rw [be, be, compare_cons, ih, UInt8.toNat_ofNat', UInt8.toNat_ofNat', mod_split, mod_split,
      compare_digits (Nat.mod_lt _ hpos) (Nat.mod_lt _ hpos)]

/-- A key that is not below an extension of `p` is not below `p`. -/
theorem compare_ne_lt_of_append {k p s : List UInt8} (h : compare k (p ++ s) ≠ .lt) : compare k p ≠ .lt := by
  have hps : (compare p (p ++ s)).isLE := by
    have := compare_append p [] s
    rw [append_nil] at this
    rw [this]
    cases s <;> rfl
  exact fun hlt => h (Std.TransCmp.lt_of_lt_of_isLE hlt hps)

/-! ### Prefixes -/

/-- The least key above every key with a prefix: the last byte below `0xff` is incremented and ends it.
    A prefix of `0xff` only has none. -/
def prefixEnd : List UInt8 → Option (List UInt8)
  | [] => none
  | b :: p =>
    match prefixEnd p with
    | some e => some (b :: e)
    | none => if b < 0xff then some [b + 1] else none

/-- A key that is not below a prefix of `0xff` only has that prefix. -/
theorem isPrefix_iff_of_unbounded {p : List UInt8} (hp : prefixEnd p = none) (k : List UInt8) :
    p <+: k ↔ compare k p ≠ .lt := by
  induction p generalizing k with
  | nil => cases k <;> simp
  | cons b p ih =>
    cases he : prefixEnd p with
    | some e => simp [prefixEnd, he] at hp
    | none =>
      have hb : b = 0xff := by
        have hge : ¬b.toNat < 255 := by simpa [prefixEnd, he, UInt8.lt_iff_toNat_lt] using hp
        have hlt := b.toNat_lt
        exact UInt8.toNat.inj (show b.toNat = 255 by omega)
      cases k with
      | nil => simp
      | cons c k =>
        have hle : c.toNat ≤ b.toNat := by rw [hb]; exact Nat.le_of_lt_succ c.toNat_lt
        rw [cons_prefix_cons, ih he, compare_cons]
        rcases Nat.lt_or_eq_of_le hle with h | h
        · have hne : b ≠ c := fun e => by rw [e] at h; omega
          simp [Nat.compare_eq_lt.mpr h, hne]
        · obtain rfl := UInt8.toNat.inj h
          simp

/-- The keys with a prefix are those from the prefix up to its end. -/
theorem isPrefix_iff_of_prefixEnd {p e : List UInt8} (hp : prefixEnd p = some e) (k : List UInt8) :
    p <+: k ↔ compare k p ≠ .lt ∧ compare k e = .lt := by
  induction p generalizing k e with
  | nil => simp [prefixEnd] at hp
  | cons b p ih =>
    rw [prefixEnd] at hp
    cases he : prefixEnd p with
    | some e' =>
      obtain rfl : b :: e' = e := by simpa [he] using hp
      cases k with
      | nil => simp
      | cons c k =>
        rw [cons_prefix_cons, ih he, compare_cons, compare_cons]
        rcases Nat.lt_trichotomy c.toNat b.toNat with h | h | h
        · have hne : b ≠ c := fun e => by rw [e] at h; omega
          simp [Nat.compare_eq_lt.mpr h, hne]
        · obtain rfl := UInt8.toNat.inj h
          simp
        · have hne : b ≠ c := fun e => by rw [e] at h; omega
          simp [Nat.compare_eq_gt.mpr h, hne]
    | none =>
      have hb : b < 0xff := by by_contra hb; simp [he, hb] at hp
      obtain rfl : [b + 1] = e := by simpa [he, hb] using hp
      have hsucc : (b + 1).toNat = b.toNat + 1 := by
        have : b.toNat < 255 := UInt8.lt_iff_toNat_lt.mp hb
        rw [UInt8.toNat_add]
        exact Nat.mod_eq_of_lt (by simpa using Nat.succ_lt_succ this)
      cases k with
      | nil => simp
      | cons c k =>
        rw [cons_prefix_cons, isPrefix_iff_of_unbounded he, compare_cons, compare_cons, hsucc]
        rcases Nat.lt_trichotomy c.toNat b.toNat with h | h | h
        · have hne : b ≠ c := fun e => by rw [e] at h; omega
          simp [Nat.compare_eq_lt.mpr h, hne]
        · obtain rfl := UInt8.toNat.inj h
          simp [Nat.compare_eq_lt.mpr (Nat.lt_succ_self c.toNat)]
        · have hne : b ≠ c := fun e => by rw [e] at h; omega
          have hge : compare c.toNat (b.toNat + 1) ≠ .lt := by
            rw [Ne, Nat.compare_eq_lt]; omega
          cases hc : compare c.toNat (b.toNat + 1) with
          | lt => exact absurd hc hge
          | eq => cases k <;> simp [hne]
          | gt => simp [hne]

theorem prefixEnd_isSome_of_lt {b : UInt8} (hb : b < 0xff) (p : List UInt8) :
    ∃ e, prefixEnd (b :: p) = some e := by
  rw [prefixEnd]
  cases prefixEnd p with
  | some e => exact ⟨b :: e, rfl⟩
  | none => exact ⟨[b + 1], by simp [hb]⟩

/-- A key between two extensions of `p` extends `p`. -/
theorem isPrefix_of_between {p s e k : List UInt8} (hge : compare k (p ++ s) ≠ .lt)
    (hlt : compare k (p ++ e) = .lt) : p <+: k := by
  induction p generalizing k with
  | nil => exact nil_prefix
  | cons b p ih =>
    cases k with
    | nil => exact absurd rfl hge
    | cons c k =>
      rw [cons_append, compare_cons] at hge hlt
      rcases Nat.lt_trichotomy c.toNat b.toNat with h | h | h
      · rw [Nat.compare_eq_lt.mpr h] at hge
        exact absurd rfl hge
      · obtain rfl := UInt8.toNat.inj h
        rw [Nat.compare_eq_eq.mpr rfl] at hge hlt
        exact cons_prefix_cons.mpr ⟨rfl, ih hge hlt⟩
      · rw [Nat.compare_eq_gt.mpr h] at hlt
        cases hlt

end Mailezine.Schemes
