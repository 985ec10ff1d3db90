import Mailezine.Delivery.Visits
import Mailezine.Store.Layout

/-! Quota limits over whole runs of the pipeline.

    The pipeline here runs on the counters of the store: what a check reads is what the copies before
    it have charged. A visit budgets all its copies at once and each copy is charged on its own; the
    budget holds as long as its sum stays an `int64`. -/

namespace Mailezine.Delivery
open Gostd Schemes List

/-- The used-bytes counter of each account, as the store keeps it. -/
abbrev Counters := Str → Int64

/-- What one committed copy adds to the counter of its account. -/
structure Charge where
  account : Str
  bytes : Nat
  deriving DecidableEq

/-- Add it, in 64 bits. -/
def Counters.charge (used : Counters) (c : Charge) : Counters :=
  Function.update used c.account (used c.account + .ofInt c.bytes)

/-- The counters after some charges. -/
def Counters.after (used : Counters) (cs : List Charge) : Counters := cs.foldl Counters.charge used

/-- The charge of a stored copy: the bytes of its data. -/
def Event.charge : Event → Option Charge
  | .stored account _ copy => some ⟨account, copy.data.length⟩
  | _ => none

/-- What the store's transaction does to the counters of the accounts is such a charge. -/
theorem charge_deliverOne {ids : Str → UInt32} {account : Str} (hids : ∀ t, ids t = ids account → t = account)
    {bytes : Nat} {mb : UInt64} {fields : Store.Bytes.Fields} {blob : Str} {extra : List Store.IndexOp}
    {raw raw' : Store.Raw} {r : UInt64 × UInt64 × UInt64}
    (hrun : Store.Bytes.deliverOne (ids account) mb fields blob (.ofInt bytes) extra raw = .ok (r, raw')) :
    (fun t => Store.Bytes.quotaOf raw' (ids t)) =
      Counters.charge (fun t => Store.Bytes.quotaOf raw (ids t)) ⟨account, bytes⟩ := by
  have hquotas := Store.Bytes.quotas_deliverOne (ids account) mb fields blob (.ofInt bytes) extra
    (Store.Bytes.quotaOf raw) raw r raw' (fun _ => rfl) hrun
  funext t
  rw [hquotas (ids t), Counters.charge]
  by_cases ht : t = account
  · subst ht
    rw [Function.update_self, Function.update_self]
  · rw [Function.update_of_ne ht, Function.update_of_ne fun e => ht (hids t e)]

/-! ### The pipeline on the counters -/

section System
variable (p : Pipeline) (u : Unicode) (limit : Str → Except Fault Int)

/-- Both quota checks read the counter of the target; no copy is stored between them. -/
def TargetAnswers.reading (used : Counters) (target : Str) (ans : TargetAnswers) : TargetAnswers :=
  { ans with
    quota := ⟨limit target, .ok (used target).toInt⟩
    finalQuota := ⟨limit target, .ok (used target).toInt⟩ }

/-- `deliverToTarget` on the counters: what it charges, and how it ends. -/
def visitTarget (used : Counters) (ans : TargetAnswers) (target sender : Str)
    (targets : List Str) (stored raw : Str) : Attempt Charge Error Unit :=
  let out := deliverToTarget p u (ans.reading limit used target) target sender targets stored raw
  ⟨out.events.filterMap Event.charge, out.result⟩

/-- One after the other until one fails, each on the counters that the ones before it left. -/
def eachOn {β : Type} (f : Counters → β → Attempt Charge Error Unit) (used : Counters) :
    List β → Attempt Charge Error Unit
  | [] => pure ()
  | b :: l => f used b >>= fun _ => eachOn f (used.after (f used b).events) l

/-- `deliverTo` on the counters. -/
def visitTargets (used : Counters) (ans : RcptAnswers) (rcpt sender : Str)
    (stored raw : Str) : Attempt Charge Error Unit := do
  let targets ← Attempt.lift (resolve p ans rcpt)
  eachOn (fun used (target, j) =>
    visitTarget p u limit used (ans.targets j) target sender targets stored raw)
    used targets.zipIdx

/-- One call of `Pipeline.Deliver` with what it is answered, quotas apart. -/
structure Call where
  ans : DeliverAnswers := {}
  peer : Option Str := none
  sender : Str := []
  rcpts : List Str
  data : Str

/-- `Pipeline.Deliver` on the counters. -/
def Call.deliver (used : Counters) (c : Call) : Attempt Charge Error Unit := do
  let stored ← Attempt.lift (prepared p u c.ans c.peer c.data)
  eachOn (fun used (rcpt, i) =>
    visitTargets p u limit used (c.ans.rcpts i) rcpt c.sender stored c.data)
    used c.rcpts.zipIdx

/-- Everything that calls one after another charge, whether they fail or not. -/
def chargesOf (used : Counters) : List Call → List Charge
  | [] => []
  | c :: cs => (c.deliver p u limit used).events ++ chargesOf (used.after (c.deliver p u limit used).events) cs

end System

/-! ### What a visit charges -/

section Visit
variable {p : Pipeline} {u : Unicode} {limit : Str → Except Fault Int} {used : Counters}
  {ans : TargetAnswers} {target sender : Str} {targets : List Str} {stored raw : Str}

/-- A visit asks for `n` copies of `size` bytes. -/
def Asks (p : Pipeline) (u : Unicode) (ans : TargetAnswers) (stored : Str) (size n : Nat) : Prop :=
  ∃ mailboxes res, decision p ans = .deliver mailboxes res ∧ n = mailboxes.length ∧
    size = (applyHeaderEdits u stored res).length

theorem charge_redirects (sender data : Str) (res : Sieve.Result) :
    (redirects p ans sender data res).filterMap Event.charge = [] := by
  rw [filterMap_eq_nil_iff]
  intro e he
  obtain ⟨_, -, rfl⟩ := List.mem_map.mp ((redirects_sublist ans sender data res).subset he)
  rfl

theorem charge_reply {v : VacationAnswers} {account sender data : Str} (vac : Option Sieve.Vacation) :
    ((vac.map (sendVacation p u v account sender data)).getD []).filterMap Event.charge = [] := by
  rw [filterMap_eq_nil_iff]
  intro e he
  cases vac with
  | none => simp at he
  | some w =>
    have := isReply_sendVacation _ _ _ _ _ e he
    cases e <;> first | rfl | cases this

/-- The loop over the mailboxes: a charge for each copy it has stored. -/
theorem charges_copies (ans : TargetAnswers) (target : Str) (copy : Copy) (mailboxes : List Str) :
    (∃ m, m ≤ mailboxes.length ∧ (storeLoop ans target copy mailboxes.zipIdx).events.filterMap Event.charge =
      List.replicate m ⟨target, copy.data.length⟩) ∧
    (storeLoop ans target copy mailboxes.zipIdx).result ≠ .error .quota := by
  refine ⟨?_, fun h => ?_⟩
  · obtain ⟨m, hm, hev⟩ := Attempt.events_each_call
      (fun q : Str × Nat => Event.stored target (normalizeMailboxName q.1) copy) (fun q => ans.late q.2)
      (fun q => (ans.deliver q.2).mapError (Error.store target (normalizeMailboxName q.1)))
      mailboxes.zipIdx
    rw [length_zipIdx] at hm
    refine ⟨m, hm, ?_⟩
    have hcharge : (Event.charge ∘ fun q : Str × Nat =>
        Event.stored target (normalizeMailboxName q.1) copy) =
        some ∘ fun _ => (⟨target, copy.data.length⟩ : Charge) := rfl
    refine (congrArg _ hev).trans ?_
    rw [filterMap_map, hcharge, filterMap_eq_map, map_const', length_take,
      length_zipIdx, Nat.min_eq_left hm]
  · obtain ⟨q, -, hq⟩ := Attempt.error_of_each h
    cases hd : ans.deliver q.2 with
    | ok v => simp [Attempt.call, hd, Except.mapError] at hq
    | error e => simp [Attempt.call, hd, Except.mapError] at hq

/-- What a visit charges: nothing, or as much as its budget at most, which its last check has let
    through. A visit that is refused for its quota charges nothing. -/
theorem charges_visitTarget (p : Pipeline) (u : Unicode) (limit : Str → Except Fault Int)
    (used : Counters) (ans : TargetAnswers) (target sender : Str) (targets : List Str)
    (stored raw : Str) :
    let out := visitTarget p u limit used ans target sender targets stored raw
    (out.events = [] ∨ ∃ size n m, Asks p u ans stored size n ∧ m ≤ n ∧
      checkQuota ⟨limit target, .ok (used target).toInt⟩ (size * n) = .ok () ∧
      out.events = List.replicate m ⟨target, size⟩) ∧
    (out.result = .error .quota → out.events = []) := by
  have hsame : decision p (ans.reading limit used target) = decision p ans := rfl
  simp only [visitTarget, deliverToTarget]
  cases hquota : checkQuota (ans.reading limit used target).quota raw.length with
  | error e => exact ⟨.inl rfl, fun _ => rfl⟩
  | ok =>
    rw [Attempt.lift_bind_ok rfl, hsame]
    cases hd : decision p ans with
    | discard => exact ⟨.inl rfl, fun _ => rfl⟩
    | reject reason => exact ⟨.inl rfl, fun _ => rfl⟩
    | deliver mailboxes res =>
      simp only
      rw [Attempt.bind_ok (v := ()) rfl]
      cases hfinal : checkQuota (ans.reading limit used target).finalQuota
          ((applyHeaderEdits u stored res).length * mailboxes.length) with
      | error e =>
        rw [Attempt.lift_bind_error rfl, append_nil, Attempt.emit, filterMap_append, charge_redirects,
          charge_reply]
        exact ⟨.inl rfl, fun _ => rfl⟩
      | ok =>
        rw [Attempt.lift_bind_ok rfl, Attempt.emit, filterMap_append, filterMap_append, charge_redirects,
          charge_reply]
        obtain ⟨⟨m, hm, hev⟩, hne⟩ := charges_copies (ans.reading limit used target) target
          ⟨sender, targets, applyHeaderEdits u stored res, res.flags, ans.now⟩ mailboxes
        exact ⟨.inr ⟨_, _, m, ⟨mailboxes, res, hd, rfl, rfl⟩, hm, hfinal, hev⟩, fun h => absurd h hne⟩

end Visit

/-! ### Counters below a limit -/

/-- The counter of an account stays at or below `L` while the charges come in. -/
def Within (t : Str) (L : Int) (used : Counters) (cs : List Charge) : Prop :=
  ∀ k, ((used.after (cs.take k)) t).toInt ≤ L

theorem Within.finish {t : Str} {L : Int} {used : Counters} {cs : List Charge} (h : Within t L used cs) :
    (used.after cs t).toInt ≤ L := by
  have := h cs.length
  rwa [take_length] at this

theorem within_nil {t : Str} {L : Int} {used : Counters} (h : (used t).toInt ≤ L) : Within t L used [] :=
  fun k => by rwa [take_nil]

theorem after_append (used : Counters) (cs ds : List Charge) :
    used.after (cs ++ ds) = (used.after cs).after ds := foldl_append ..

theorem Within.append {t : Str} {L : Int} {used : Counters} {cs ds : List Charge}
    (h : Within t L used cs) (hd : Within t L (used.after cs) ds) : Within t L used (cs ++ ds) := by
  intro k
  rcases Nat.le_total k cs.length with hk | hk
  · rw [take_append_of_le_length hk]
    exact h k
  · rw [take_append, take_of_length_le hk, after_append]
    exact hd _

/-- Charges of other accounts leave the counter alone. -/
theorem after_other {t : Str} {used : Counters} : ∀ {cs : List Charge}, (∀ c ∈ cs, c.account ≠ t) →
    used.after cs t = used t
  | [], _ => rfl
  | c :: cs, h => by
    rw [Counters.after, foldl_cons, ← Counters.after, after_other fun d hd => h d (by simp [hd]),
      Counters.charge, Function.update_of_ne (h c (by simp)).symm]

/-- Charges that fit in an `int64` add up. -/
theorem toInt_after_replicate {t : Str} {size : Nat} : ∀ (m : Nat) {used : Counters},
    (used t).toInt + size * m < 2 ^ 63 →
    (used.after (List.replicate m ⟨t, size⟩) t).toInt = (used t).toInt + size * m
  | 0, _, _ => by simp [Counters.after]
  | m + 1, used, h => by
    have hstep : ((used.charge ⟨t, size⟩) t).toInt = (used t).toInt + size := by
      have hlow := (used t).le_toInt
      have hle : (used t).toInt + size < 2 ^ 63 := by
        refine lt_of_le_of_lt ?_ h
        have : (size : Int) * 1 ≤ size * (m + 1 : Nat) := by gcongr; omega
        omega
      rw [Counters.charge, Function.update_self, Int64.toInt_add, Int64.toInt_ofInt, Int.add_bmod_bmod]
      refine Int.bmod_eq_of_le ?_ ?_ <;> simp only [Int64.size] <;> omega
    have hsum : (size : Int) * (m + 1 : Nat) = size + size * m := by push_cast; ring
    rw [replicate_succ, Counters.after, foldl_cons, ← Counters.after,
      toInt_after_replicate m (by rw [hstep]; omega), hstep]
    omega

/-! ### Runs -/

section Runs
variable {p : Pipeline} {u : Unicode} {limit : Str → Except Fault Int} {t : Str} {L : Int}

/-- The last check lets a budget through when it fits below the limit. -/
theorem fits_of_checkQuota {used size : Int} (hL : 0 < L) (hlow : -2 ^ 63 ≤ used + size)
    (hhigh : used + size < 2 ^ 63) (h : checkQuota ⟨.ok L, .ok used⟩ size = .ok ()) : used + size ≤ L := by
  have hwrap : int64 (used + size) = used + size := Int.bmod_eq_of_le (by omega) (by omega)
  simp only [checkQuota, hwrap] at h
  by_contra hlt
  rw [if_pos ⟨hL, by omega⟩] at h
  cases h

/-- One visit keeps the counter within the limit. -/
theorem within_visitTarget (hlimit : limit t = .ok L) (hL : 0 < L) {used : Counters}
    (hused : (used t).toInt ≤ L) {ans : TargetAnswers} {target sender : Str}
    {targets : List Str} {stored raw : Str}
    (hfits : target = t → ∀ size n, Asks p u ans stored size n → L + size * n < 2 ^ 63) :
    Within t L used (visitTarget p u limit used ans target sender targets stored raw).events := by
  obtain ⟨hev | ⟨size, n, m, hasks, hm, hcheck, hev⟩, -⟩ :=
    charges_visitTarget p u limit used ans target sender targets stored raw
  · rw [hev]
    exact within_nil hused
  · rw [hev]
    intro k
    rw [take_replicate]
    by_cases ht : target = t
    · subst ht
      have hfit := hfits rfl size n hasks
      have hlow := (used target).le_toInt
      have hpos : (0 : Int) ≤ size * n := by positivity
      have hbudget : (used target).toInt + size * n ≤ L := by
        rw [hlimit] at hcheck
        exact fits_of_checkQuota hL (by omega) (by omega) hcheck
      have hle : (size : Int) * (min k m : Nat) ≤ size * n := by gcongr; omega
      rw [toInt_after_replicate _ (by omega)]
      omega
    · rw [after_other fun c hc => by rw [eq_of_mem_replicate hc]; exact ht]
      exact hused

/-- A row of steps that each keep the counter within the limit keeps it there. -/
theorem within_eachOn {β : Type} {f : Counters → β → Attempt Charge Error Unit} : ∀ {l : List β},
    (∀ b ∈ l, ∀ used : Counters, (used t).toInt ≤ L → Within t L used (f used b).events) →
    ∀ used : Counters, (used t).toInt ≤ L → Within t L used (eachOn f used l).events
  | [], _, _, hused => within_nil hused
  | b :: l, h, used, hused => by
    have hb := h b (by simp) used hused
    have hstep : eachOn f used (b :: l) =
      f used b >>= fun _ => eachOn f (used.after (f used b).events) l := rfl
    rw [hstep]
    cases hr : (f used b).result with
    | error e =>
      rw [Attempt.bind_error hr]
      exact hb
    | ok v =>
      rw [Attempt.bind_ok hr]
      exact hb.append (within_eachOn (fun c hc => h c (by simp [hc])) _ hb.finish)

/-- The visits of a call. -/
def Call.visits (p : Pipeline) (c : Call) : List Visit :=
  c.rcpts.zipIdx.flatMap fun (rcpt, i) => rcptVisits p (c.ans.rcpts i) rcpt

/-- No visit of account `t` asks for more than an `int64` holds on top of the limit. -/
def Call.Fits (p : Pipeline) (u : Unicode) (L : Int) (t : Str) (c : Call) : Prop :=
  ∀ stored, prepared p u c.ans c.peer c.data = .ok stored → ∀ v ∈ c.visits p, v.target = t →
    ∀ size n, Asks p u v.ans stored size n → L + size * n < 2 ^ 63

/-- One call keeps the counter within the limit. -/
theorem within_deliver (hlimit : limit t = .ok L) (hL : 0 < L) {c : Call} (hfits : c.Fits p u L t)
    {used : Counters} (hused : (used t).toInt ≤ L) : Within t L used (c.deliver p u limit used).events := by
  unfold Call.deliver
  cases hstored : prepared p u c.ans c.peer c.data with
  | error e => exact within_nil hused
  | ok stored =>
    rw [Attempt.lift_bind_ok rfl]
    refine within_eachOn (fun q hq used hused => ?_) used hused
    obtain ⟨rcpt, i⟩ := q
    simp only [visitTargets]
    cases hres : resolve p (c.ans.rcpts i) rcpt with
    | error e => exact within_nil hused
    | ok targets =>
      rw [Attempt.lift_bind_ok rfl]
      refine within_eachOn (fun r hr used hused => ?_) used hused
      refine within_visitTarget hlimit hL hused fun ht size n hasks => ?_
      refine hfits stored hstored ⟨r.1, targets, (c.ans.rcpts i).targets r.2⟩ ?_ ht size n hasks
      refine mem_flatMap.mpr ⟨(rcpt, i), hq, ?_⟩
      simp only [rcptVisits, hres]
      exact List.mem_map.mpr ⟨r, hr, rfl⟩

/-- QUOTA: while the budgets of an account's visits fit in an `int64` on top of its limit, its counter
    never exceeds the limit in a run of deliveries to any accounts; and no visit that is refused for its
    quota has stored a copy. -/
theorem counter_within_limit (p : Pipeline) (u : Unicode) {limit : Str → Except Fault Int} {t : Str}
    {L : Int} (hlimit : limit t = .ok L) (hL : 0 < L) (calls : List Call)
    (hfits : ∀ c ∈ calls, c.Fits p u L t) {used : Counters} (hused : (used t).toInt ≤ L) :
    (∀ k, ((used.after ((chargesOf p u limit used calls).take k)) t).toInt ≤ L) ∧
    ∀ used ans target sender targets stored raw,
      (visitTarget p u limit used ans target sender targets stored raw).result = .error .quota →
      (visitTarget p u limit used ans target sender targets stored raw).events = [] := by
  refine ⟨?_, fun used ans target sender targets stored raw h =>
    (charges_visitTarget p u limit used ans target sender targets stored raw).2 h⟩
  have hrun : ∀ (calls : List Call), (∀ c ∈ calls, c.Fits p u L t) → ∀ used : Counters,
      (used t).toInt ≤ L → Within t L used (chargesOf p u limit used calls) := by
    intro calls
    induction calls with
    | nil => exact fun _ used hused => within_nil hused
    | cons c calls ih =>
      intro hfits used hused
      have hc : Within t L used (c.deliver p u limit used).events :=
        within_deliver hlimit hL (hfits c (by simp)) hused
      exact hc.append (ih (fun d hd => hfits d (by simp [hd])) _ hc.finish)
  exact hrun calls hfits used hused

end Runs

/-- An empty message for `a@x`, whose script files it in the inbox and in `A`. -/
def twoCopies : Call where
  rcpts := [ascii "a@x"]
  data := ascii "\n"
  ans :=
    { receivedID := ascii "3f9a1c07be52"
      receivedDate := ascii "Mon, 02 Jan 2006 15:04:05 -0700"
      messageID := ascii "b1d2e3f4a5c6"
      messageStamp := ascii "20060102150405"
      rcpts := fun _ =>
        { aliases := .ok [ascii "a@x"]
          targets := fun _ => { script := .ok true, route := .ok { mailboxes := [Sieve.inbox, ascii "A"] } } } }

/-- Empty counters. -/
def noneUsed : Counters := fun _ => 0

/-- With 160 bytes to each copy and a small limit the budget is far from the end of an `int64`. -/
theorem twoCopies_within : twoCopies.Fits {} asciiOnly 1000 (ascii "a@x") ∧
      ∀ k, (noneUsed.after ((chargesOf {} asciiOnly (fun _ => .ok 1000) noneUsed [twoCopies]).take k)
        (ascii "a@x")).toInt ≤ 1000 := by
  have hlen : ∀ stored, prepared {} asciiOnly twoCopies.ans none twoCopies.data = .ok stored →
      stored.length = 160 := by
    intro stored hs
    have hall : (prepared {} asciiOnly twoCopies.ans none twoCopies.data).toOption.map List.length =
      some 160 := by decide +kernel
    rw [hs] at hall
    exact Option.some.inj hall
  have hfits : twoCopies.Fits {} asciiOnly 1000 (ascii "a@x") := by
    rintro stored hs v hv - size n ⟨mailboxes, res, hd, rfl, rfl⟩
    obtain rfl : v = ⟨ascii "a@x", [ascii "a@x"], ((twoCopies.ans.rcpts 0).targets 0)⟩ :=
      mem_singleton.mp hv
    cases hd
    rw [applyHeaderEdits, if_pos ⟨rfl, rfl⟩, hlen stored hs]
    decide
  have hlimit : (fun _ => .ok 1000 : Str → Except Fault Int) (ascii "a@x") = .ok 1000 := rfl
  have hused : (noneUsed (ascii "a@x")).toInt ≤ 1000 := by decide
  exact ⟨hfits, (counter_within_limit {} asciiOnly hlimit (by decide) [twoCopies]
    (by simpa using hfits) hused).1⟩

/-- The budget of two copies passes the end of an `int64` and is let through; the first copy alone is
    past the limit. -/
theorem budget_wraps :
    let L : Int := 2 ^ 63 - 250
    let used : Counters := fun _ => .ofInt (L - 5)
    let charges := chargesOf {} asciiOnly (fun _ => .ok L) used [twoCopies]
    (used (ascii "a@x")).toInt ≤ L ∧ charges = [⟨ascii "a@x", 160⟩, ⟨ascii "a@x", 160⟩] ∧
      L < (used.after (charges.take 1) (ascii "a@x")).toInt := by
  decide +kernel

end Mailezine.Delivery
