import Mailezine.Delivery.Pipeline
import Mailezine.Mailstore.Surface

/-! The throttle of automatic replies over a history of deliveries.

    The pipeline asks the store when it last replied to a sender, and records the time of a new reply
    before it hands the reply on. The store keeps that time as eight bytes of nanoseconds under a key of
    the account and the lower-case sender. Nothing else is kept, so a restart between two deliveries
    changes nothing. -/

namespace Mailezine.Delivery
open Gostd Schemes Store Mailstore.Bytes List

/-- `VacationLastSent`. -/
def lastSent (raw : Raw) (account sender : Str) : Option Int :=
  (vacationLastSent raw account sender).map fun n : Nat => int64 (n : Int)

/-- `SetVacationLastSent`. -/
def setLastSent (raw : Raw) (account sender : Str) (time : Int) : Raw :=
  raw.batch [(metaVacationKey account sender, some (beUint64 (UInt64.ofInt time)))]

/-- A message for which a script requests a reply: `ans.now` is the clock when the throttle is asked, and
    `sent` the clock when the reply is recorded and made. -/
structure Arrival where
  sender : Str
  data : Str := []
  request : Sieve.Vacation
  ans : VacationAnswers
  sent : Int

/-- What `sendVacation` is told, with the time that the store has. -/
def Arrival.told (x : Arrival) (u : Unicode) (account : Str) (raw : Raw) : VacationAnswers :=
  { x.ans with last := .ok (lastSent raw account (u.toLower x.sender)) }

/-- Whether `sendVacation` hands a reply on. -/
def Arrival.replies (x : Arrival) (p : Pipeline) (u : Unicode) (account : Str) (raw : Raw) : Bool :=
  !(!p.redirect || suppressesAutoReply u x.data || x.sender = [] ||
    throttled (x.told u account raw) (if x.request.days ≤ 0 then 7 else x.request.days))

/-- The times of the replies that are handed on, in one delivery after the other. -/
def replyTimes (p : Pipeline) (u : Unicode) (account : Str) : Raw → List Arrival → List Int
  | _, [] => []
  | raw, x :: l =>
    if x.replies p u account raw then
      x.sent :: replyTimes p u account (setLastSent raw account (u.toLower x.sender) x.sent) l
    else replyTimes p u account raw l

/-- The nanoseconds of a day. -/
def day : Int := 24 * 3600 * 10 ^ 9

/-- Deliveries one after the other from one sender, in any letter case, to scripts with one `:days`, by
    a clock that does not go back and that fits in 64 bits of nanoseconds. -/
structure History (u : Unicode) (days : Int) (sender : Str) (l : List Arrival) : Prop where
  sender : ∀ x ∈ l, u.toLower x.sender = u.toLower sender
  days : ∀ x ∈ l, x.request.days = days
  clock : ∀ x ∈ l, x.ans.now ≤ x.sent
  later : l.Pairwise fun x y => x.sent ≤ y.ans.now
  range : ∀ x ∈ l, -(2 ^ 63) ≤ x.sent ∧ x.sent < 2 ^ 63

section
variable {p : Pipeline} {u : Unicode} {account sender : Str} {days : Int}

theorem sendVacation_eq (x : Arrival) (raw : Raw) :
    sendVacation p u (x.told u account raw) account x.sender x.data x.request =
      if x.replies p u account raw then match x.ans.send with
        | .ok _ => [.replied x.sender (replyText u x.ans account x.sender x.data x.request)]
        | .error _ => []
      else [] := by
  unfold sendVacation Arrival.replies
  extract_lets limit
  cases !p.redirect || suppressesAutoReply u x.data || x.sender = [] || throttled (x.told u account raw) limit <;> rfl

/-- The eight bytes hold a time that fits. -/
theorem lastSent_setLastSent (raw : Raw) (account key : Str) {t : Int} (ht : -(2 ^ 63) ≤ t ∧ t < 2 ^ 63) :
    lastSent (setLastSent raw account key t) account key = some t := by
  have hrow : (setLastSent raw account key t)[metaVacationKey account key]? = some (beUint64 (UInt64.ofInt t)) := by
    rw [setLastSent, Raw.batch, foldl_cons, foldl_nil, Raw.getElem?_write, if_pos rfl]
  have hval : unbe (beUint64 (UInt64.ofInt t)) = (t % 2 ^ 64).toNat := by
    rw [beUint64, unbe_be, Nat.mod_eq_of_lt (show (UInt64.ofInt t).toNat < 256 ^ 8 from (UInt64.ofInt t).toNat_lt)]
    simp only [UInt64.ofInt, UInt64.toNat_ofNat']
    omega
  have hint : int64 ((t % 2 ^ 64).toNat : Int) = t := by
    rw [Int.toNat_of_nonneg (Int.emod_nonneg _ (by decide))]
    refine (Int.emod_bmod (x := t) (n := 2 ^ 64)).trans ?_
    exact Int.bmod_eq_of_le (by omega) (by omega)
  rw [lastSent, vacationLastSent, hrow, decodeNumber, Option.filter_some, if_pos (by simp), Option.map_some,
    Option.map_some, hval, hint]

theorem History.tail {x : Arrival} {l : List Arrival} (h : History u days sender (x :: l)) :
    History u days sender l where
  sender y hy := h.sender y (.tail _ hy)
  days y hy := h.days y (.tail _ hy)
  clock y hy := h.clock y (.tail _ hy)
  later := (pairwise_cons.mp h.later).2
  range y hy := h.range y (.tail _ hy)

/-- A reply is handed on only when the interval has passed since the last one. -/
theorem interval_le {x : Arrival} {raw : Raw} {t : Int} (hfit : days * day < 2 ^ 63) (hdays : x.request.days = days)
    (hlast : lastSent raw account (u.toLower x.sender) = some t) (hle : t ≤ x.ans.now)
    (h : x.replies p u account raw = true) : days * day ≤ x.ans.now - t := by
  have hnot : throttled (x.told u account raw) (if x.request.days ≤ 0 then 7 else x.request.days) = false := by
    simp only [Arrival.replies, Bool.not_eq_true', Bool.or_eq_false_iff] at h
    exact h.2
  rw [hdays] at hnot
  simp only [throttled, Arrival.told, hlast, decide_eq_false_iff_not, not_lt] at hnot
  unfold day at hfit ⊢
  by_cases hpos : days ≤ 0
  · omega
  · have hint : int64 (days * (24 * 3600 * 10 ^ 9)) = days * (24 * 3600 * 10 ^ 9) :=
      Int.bmod_eq_of_le (by omega) (by omega)
    rw [if_neg hpos, hint, sub] at hnot
    omega

/-- After a reply the later ones keep their distance from it. -/
theorem distance_of_mem (hfit : days * day < 2 ^ 63) : ∀ {l : List Arrival} {raw : Raw} {t : Int},
    History u days sender l → lastSent raw account (u.toLower sender) = some t → (∀ x ∈ l, t ≤ x.ans.now) →
    ∀ t' ∈ replyTimes p u account raw l, days * day ≤ t' - t
  | [], _, _, _, _, _, _, h => by cases h
  | x :: l, raw, t, hist, hlast, hle, t', h => by
    have hsender := hist.sender x (by simp)
    have hclock := hist.clock x (by simp)
    have hnow := hle x (by simp)
    rw [replyTimes] at h
    split at h
    case isTrue hx =>
      rw [hsender] at h
      have hgap : days * day ≤ x.ans.now - t :=
        interval_le hfit (hist.days x (by simp)) (hsender ▸ hlast) hnow hx
      rcases mem_cons.mp h with rfl | h
      · omega
      · -- the later replies are that far from this one, which is not before `t`
        have := distance_of_mem hfit hist.tail
          (lastSent_setLastSent raw account (u.toLower sender) (hist.range x (by simp)))
          (pairwise_cons.mp hist.later).1 t' h
        omega
    case isFalse =>
      exact distance_of_mem hfit hist.tail hlast (fun y hy => hle y (.tail _ hy)) t' h

theorem pairwise_replyTimes (hfit : days * day < 2 ^ 63) : ∀ {l : List Arrival} {raw : Raw},
    History u days sender l → (replyTimes p u account raw l).Pairwise fun t t' => days * day ≤ t' - t
  | [], _, _ => .nil
  | x :: l, raw, hist => by
    rw [replyTimes]
    split
    · refine pairwise_cons.mpr ⟨?_, pairwise_replyTimes hfit hist.tail⟩
      rw [hist.sender x (by simp)]
      exact distance_of_mem hfit hist.tail (lastSent_setLastSent _ _ _ (hist.range x (by simp)))
        (pairwise_cons.mp hist.later).1
    · exact pairwise_replyTimes hfit hist.tail

end

/-- A message of `s@y` at a time of the clock. -/
def arrivalAt (days time : Int) : Arrival where
  sender := ascii "s@y"
  request := ⟨days, [], [], []⟩
  ans := { now := time }
  sent := time

theorem history_pair (days : Int) {gap : Int} (h : 0 ≤ gap ∧ gap < 2 ^ 63) :
    History asciiOnly days (ascii "s@y") [arrivalAt days 0, arrivalAt days gap] := by
  constructor <;> simp [arrivalAt] <;> omega

/-- Two messages are both replied to when the interval, as an `int64`, is not more than their distance. -/
theorem replyTimes_pair {days gap : Int} (hdays : 0 < days) (hgap : 0 ≤ gap ∧ gap < 2 ^ 63)
    (hle : int64 (days * day) ≤ gap) :
    replyTimes {} asciiOnly (ascii "a@x") ∅ [arrivalAt days 0, arrivalAt days gap] = [0, gap] := by
  have hquiet : suppressesAutoReply asciiOnly [] = false := by decide +kernel
  have hreply : ∀ (raw : Raw) (time : Int), throttled ((arrivalAt days time).told asciiOnly (ascii "a@x") raw) days =
      false → (arrivalAt days time).replies {} asciiOnly (ascii "a@x") raw = true := by
    intro raw time ht
    simp [Arrival.replies, arrivalAt, hquiet, ascii, not_le.mpr hdays] at ht ⊢
    exact ht
  have hfirst : (arrivalAt days 0).replies {} asciiOnly (ascii "a@x") ∅ = true := by
    refine hreply ∅ 0 ?_
    simp [throttled, Arrival.told, lastSent, vacationLastSent, decodeNumber]
  have hlast := lastSent_setLastSent ∅ (ascii "a@x") (asciiOnly.toLower (arrivalAt days 0).sender)
    (t := (arrivalAt days 0).sent) ⟨by simp [arrivalAt], by simp [arrivalAt]⟩
  have hsecond : (arrivalAt days gap).replies {} asciiOnly (ascii "a@x")
      (setLastSent ∅ (ascii "a@x") (asciiOnly.toLower (arrivalAt days 0).sender) (arrivalAt days 0).sent) = true := by
    refine hreply _ gap ?_
    simp only [throttled, Arrival.told, arrivalAt] at hlast ⊢
    rw [hlast]
    unfold day at hle
    refine decide_eq_false (not_lt.mpr (hle.trans ?_))
    rw [sub]
    omega
  rw [replyTimes, if_pos hfirst, replyTimes, if_pos hsecond, replyTimes]
  rfl

/-- THROTTLE: in every history any two replies are `days` days apart, whatever was in the store before,
    exactly when `days` days of nanoseconds fit in an `int64`. -/
theorem throttle_iff (days : Int) :
    (∀ (p : Pipeline) (u : Unicode) (account sender : Str) (raw : Raw) (l : List Arrival),
        History u days sender l → (replyTimes p u account raw l).Pairwise fun t t' => days * day ≤ t' - t) ↔
      days * day < 2 ^ 63 := by
  constructor
  · intro h
    by_contra hbig
    have hrange : int64 (days * day) < 2 ^ 63 := Int.bmod_lt (by decide)
    have hdays : 0 < days := by
      unfold day at hbig
      omega
    -- messages as far apart as the wrapped interval, or at once when it is negative
    have hgap : 0 ≤ max (int64 (days * day)) 0 ∧ max (int64 (days * day)) 0 < 2 ^ 63 := by omega
    have hfar := h {} asciiOnly (ascii "a@x") (ascii "s@y") ∅ _ (history_pair days hgap)
    rw [replyTimes_pair hdays hgap (le_max_left _ _)] at hfar
    have := (pairwise_cons.mp hfar).1 _ (mem_singleton.mpr rfl)
    omega
  · intro hfit p u account sender raw l
    exact pairwise_replyTimes hfit

/-- `:days 106752` is a negative interval: a second reply goes out an hour after the first. -/
theorem replies_after_an_hour :
    replyTimes {} asciiOnly (ascii "a@x") ∅ [arrivalAt 106752 0, arrivalAt 106752 (3600 * 10 ^ 9)] =
        [0, 3600 * 10 ^ 9] ∧
      History asciiOnly 106752 (ascii "s@y") [arrivalAt 106752 0, arrivalAt 106752 (3600 * 10 ^ 9)] ∧
      ¬ 106752 * day ≤ 3600 * 10 ^ 9 - 0 :=
  ⟨replyTimes_pair (by decide) (by decide) (by decide), history_pair _ (by decide), by decide⟩

end Mailezine.Delivery
