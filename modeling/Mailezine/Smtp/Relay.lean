import Mailezine.App.Atomicity
import Mailezine.Smtp.Session
import Mailezine.Schemes.Threads

/-! Which recipients reach the outbound queue.

    A recipient is looked up when RCPT is called and again by Submit. RCPT tells an address that is
    absent from a lookup that fails; Submit does not, and hands every recipient without targets to the
    queue. So a lookup that fails only the second time sends local mail to the relay. -/

namespace Mailezine.App
open Gostd Schemes Delivery List

/-! ### The recipients that are handed on -/

/-- The recipients whose lookup was answered in a certain way. -/
def answered (φ : Except Fault (List Str) → Bool) (aliases : Nat → Except Fault (List Str)) (i : Nat)
    (rcpts : List Str) : List Str :=
  ((rcpts.zipIdx i).filter fun q => φ (aliases q.2)).map (·.1)

/-- An address that is absent. -/
def absent (answer : Except Fault (List Str)) : Bool := answer = .error .notFound

/-- The calls before the queue takes the message: one of them fails. -/
def stopsBefore (p : Pipeline) (queue : Bool) (u : Unicode) (ans : SubmitAnswers) (peer : Option Str)
    (rcpts : List Str) : Bool :=
  match ans.clean with
  | .error _ => true
  | .ok data =>
    match splitRcpts queue ans.aliases 0 rcpts with
    | .error _ => true
    | .ok (loc, _) => localFails p u ans peer loc data || !ans.readSubject.isOk || !ans.openBody.isOk ||
        !ans.submit.isOk

/-- Every lookup gave targets or said that the address is absent. -/
def definite (aliases : Nat → Except Fault (List Str)) (rcpts : List Str) : Bool :=
  rcpts.zipIdx.all fun q => found (aliases q.2) || absent (aliases q.2)

section Split
variable {queue : Bool} {aliases : Nat → Except Fault (List Str)}

theorem splitRcpts_relay : ∀ {rcpts : List Str} {i : Nat} {loc relay : List Str},
    splitRcpts queue aliases i rcpts = .ok (loc, relay) → relay = answered (!found ·) aliases i rcpts
  | [], _, _, _, h => by
    cases h
    rfl
  | r :: rest, i, loc, relay, h => by
    obtain ⟨l, l', hs, ⟨hf, -, rfl⟩ | ⟨hf, -, -, rfl⟩⟩ := splitRcpts_cons h
    · rw [splitRcpts_relay hs]
      simp [answered, zipIdx_cons, hf]
    · rw [splitRcpts_relay hs]
      simp [answered, zipIdx_cons, hf]

/-- What is handed on was absent exactly when every lookup was definite. -/
theorem unfound_sublist_iff (rcpts : List Str) :
    (answered (!found ·) aliases 0 rcpts).Sublist (answered absent aliases 0 rcpts) ↔
      definite aliases rcpts = true := by
  have himp : ∀ q : Str × Nat, absent (aliases q.2) = true → (!found (aliases q.2)) = true := by
    intro q hq
    rw [of_decide_eq_true hq]
    rfl
  have hsub : rcpts.zipIdx.filter (fun q => absent (aliases q.2)) =
      (rcpts.zipIdx.filter fun q => !found (aliases q.2)).filter fun q => absent (aliases q.2) := by
    rw [List.filter_filter]
    refine filter_congr fun q _ => ?_
    cases hq : absent (aliases q.2)
    · rfl
    · simp [himp q hq]
  have hall : definite aliases rcpts = true ↔
      ∀ q ∈ rcpts.zipIdx.filter (fun q => !found (aliases q.2)), absent (aliases q.2) = true := by
    simp only [definite, List.all_eq_true, mem_filter, Bool.or_eq_true, Bool.not_eq_true']
    refine forall_congr' fun q => ⟨fun h hq => (h hq.1).resolve_left (by simp [hq.2]), fun h hq => ?_⟩
    cases hf : found (aliases q.2)
    · exact .inr (h ⟨hq, hf⟩)
    · exact .inl rfl
  rw [hall]
  constructor
  · intro h
    have hlen := h.length_le
    simp only [answered, length_map, hsub] at hlen
    exact length_filter_eq_length_iff.mp (le_antisymm (length_filter_le _ _) hlen)
  · intro h
    unfold answered
    rw [hsub, filter_eq_self.mpr h]

end Split

/-! ### What Submit hands to the queue -/

/-- An event that is not a message for the queue. -/
def Inside (e : Delivery.Event) : Prop := ∀ sender rcpts subject data, e ≠ .spooled sender rcpts subject data

section Spool
variable {p : Pipeline} {u : Unicode}

theorem inside_redirects (ans : TargetAnswers) (sender data : Str) (res : Sieve.Result) :
    ∀ e ∈ redirects p ans sender data res, Inside e := by
  intro e he
  obtain ⟨addr, -, rfl⟩ := mem_map.mp ((redirects_sublist ans sender data res).subset he)
  simp [Inside]

theorem inside_sendVacation (ans : VacationAnswers) (account sender data : Str) (v : Sieve.Vacation) :
    ∀ e ∈ sendVacation p u ans account sender data v, Inside e := by
  rintro e he _ _ _ _ rfl
  cases isReply_sendVacation ans account sender data v _ he

theorem inside_deliverToTarget (ans : TargetAnswers) (target sender : Str) (targets : List Str) (stored raw : Str) :
    ∀ e ∈ (deliverToTarget p u ans target sender targets stored raw).events, Inside e := by
  refine Attempt.forall_events_bind (fun e he => nomatch he) fun _ => ?_
  cases decision p ans with
  | discard => exact fun e he => nomatch he
  | reject reason => exact fun e he => nomatch he
  | deliver mailboxes res =>
    refine Attempt.forall_events_bind (fun e he => ?_) fun _ => Attempt.forall_events_bind (fun e he => nomatch he)
      fun _ => Attempt.forall_events_each fun q _ e he => ?_
    · rcases mem_append.mp he with he | he
      · exact inside_redirects ans sender stored res e he
      · cases hv : res.vacation with
        | none => simp [hv] at he
        | some v =>
          rw [hv] at he
          exact inside_sendVacation ans.vacation target sender stored v e he
    · rw [Attempt.eq_of_mem_call he]
      simp [Inside]

theorem inside_deliverLocal (ans : SubmitAnswers) (peer : Option Str) (sender : Str) (loc : List Str) (data : Str) :
    ∀ e ∈ (deliverLocal p u ans peer sender loc data).events, Inside e := by
  unfold deliverLocal
  split_ifs
  · exact fun e he => nomatch he
  · refine Attempt.forall_events_bind (fun e he => nomatch he) fun _ => ?_
    change ∀ e ∈ (p.deliver u ans.deliver peer sender loc (signed ans.sign data)).events, Inside e
    refine Attempt.forall_events_bind (fun e he => nomatch he) fun stored =>
      Attempt.forall_events_each fun q _ => ?_
    exact Attempt.forall_events_bind (fun e he => nomatch he) fun targets =>
      Attempt.forall_events_each fun q _ => inside_deliverToTarget _ _ _ _ _ _

/-- The message that Submit hands to the queue. -/
def handedOn (ans : SubmitAnswers) (user sender : Str) (relay : List Str) (data : Str) : Delivery.Event :=
  .spooled (relaySender user sender ans.srsForward) relay (subjectOf (split [0x0a] data)) data

/-- The relay part hands the message on when the queue takes it. -/
theorem spoolRelay_events (ans : SubmitAnswers) (user sender : Str) (relay : List Str) (data : Str) :
    (spoolRelay ans user sender relay data).events =
      if relay ≠ [] ∧ ans.readSubject.isOk ∧ ans.openBody.isOk ∧ ans.submit.isOk then
        [handedOn ans user sender relay data] else [] := by
  unfold spoolRelay
  by_cases hrelay : relay = []
  · simp [hrelay]
    rfl
  rw [if_neg hrelay]
  cases hsubj : ans.readSubject with
  | error e => simp [Except.isOk, Except.toBool]; rfl
  | ok _ =>
    cases hopen : ans.openBody with
    | error e => simp [Except.isOk, Except.toBool]; rfl
    | ok _ =>
      cases hsub : ans.submit with
      | error e => simp [Except.isOk, Except.toBool]; rfl
      | ok _ =>
        simp [hrelay, Except.isOk, Except.toBool]
        cases ans.closeBody <;> rfl

/-- No mail is relayed by accident: what reaches the queue was absent, recipient by recipient, and a lookup
    that fails makes the message fail. -/
structure KeepsLocal (aliases : Nat → Except Fault (List Str)) (rcpts : List Str) (events : List Delivery.Event)
    (failed : Bool) : Prop where
  relay : ∀ sender relay subject data, .spooled sender relay subject data ∈ events →
    relay.Sublist (answered absent aliases 0 rcpts)
  refused : ∀ i < rcpts.length, ∀ err, aliases i = .error (.other err) → failed = true

/-- A message that fails before the queue. -/
theorem KeepsLocal.of_failed {aliases : Nat → Except Fault (List Str)} {rcpts : List Str}
    {events : List Delivery.Event} (h : ∀ e ∈ events, Inside e) : KeepsLocal aliases rcpts events true :=
  ⟨fun _ _ _ _ he => absurd rfl (h _ he _ _ _ _), fun _ _ _ _ => rfl⟩

theorem not_other_of_definite {aliases : Nat → Except Fault (List Str)} {rcpts : List Str}
    (h : definite aliases rcpts = true) : ∀ i < rcpts.length, ∀ err, aliases i ≠ .error (.other err) := by
  intro i hi err he
  have hq : (rcpts[i], i) ∈ rcpts.zipIdx := by simp [mem_zipIdx_iff_getElem?, hi]
  have hdef := List.all_eq_true.mp h _ hq
  simp [he, found, absent] at hdef

theorem submit_eq {queue : Bool} {ans : SubmitAnswers} {rcpts loc relay : List Str} {data : Str}
    (hclean : ans.clean = .ok data) (hsplit : splitRcpts queue ans.aliases 0 rcpts = .ok (loc, relay))
    (peer : Option Str) (user sender : Str) : submit p queue u ans peer user sender rcpts =
      (deliverLocal p u ans peer sender loc data >>= fun _ => spoolRelay ans user sender relay data) := by
  unfold submit
  rw [hclean, hsplit]
  rfl

/-- Submit keeps local mail exactly when all lookups are definite or a call before the queue fails. -/
theorem keepsLocal_submit_iff (queue : Bool) (ans : SubmitAnswers) (peer : Option Str) (user sender : Str)
    (rcpts : List Str) : KeepsLocal ans.aliases rcpts (submit p queue u ans peer user sender rcpts).events
        (submit p queue u ans peer user sender rcpts).failed ↔
      definite ans.aliases rcpts = true ∨ stopsBefore p queue u ans peer rcpts = true := by
  cases hclean : ans.clean with
  | error e =>
    have hsub : submit p queue u ans peer user sender rcpts = ⟨[], .error (.outclean e)⟩ := by
      unfold submit
      rw [hclean]
      rfl
    rw [hsub]
    exact iff_of_true (.of_failed fun e he => nomatch he) (.inr (by simp only [stopsBefore, hclean]))
  | ok data =>
    cases hsplit : splitRcpts queue ans.aliases 0 rcpts with
    | error e =>
      have hsub : submit p queue u ans peer user sender rcpts = ⟨[], .error e⟩ := by
        unfold submit
        rw [hclean, hsplit]
        rfl
      rw [hsub]
      exact iff_of_true (.of_failed fun e he => nomatch he) (.inr (by simp only [stopsBefore, hclean, hsplit]))
    | ok q =>
      obtain ⟨loc, relay⟩ := q
      have hlocal : (deliverLocal p u ans peer sender loc data).failed = localFails p u ans peer loc data :=
        failed_deliverLocal ..
      have hiff : relay.Sublist (answered absent ans.aliases 0 rcpts) ↔ definite ans.aliases rcpts = true := by
        rw [splitRcpts_relay hsplit, unfound_sublist_iff]
      have hinside := inside_deliverLocal (p := p) (u := u) ans peer sender loc data
      rw [submit_eq hclean hsplit]
      simp only [stopsBefore, hclean, hsplit, ← hlocal]
      cases hres : (deliverLocal p u ans peer sender loc data).result with
      | error e =>
        rw [Attempt.bind_error hres]
        have hfail : (deliverLocal p u ans peer sender loc data).failed = true := by simp only [Attempt.failed, hres]
        exact iff_of_true (.of_failed hinside) (.inr (by simp [hfail]))
      | ok _ =>
        rw [Attempt.bind_ok hres, Attempt.failed_of_ok hres]
        by_cases hpass : relay ≠ [] ∧ ans.readSubject.isOk ∧ ans.openBody.isOk ∧ ans.submit.isOk
        · have hev := (spoolRelay_events ans user sender relay data).trans (if_pos hpass)
          rw [hev]
          constructor
          · intro h
            exact .inl (hiff.mp (h.relay _ relay _ _ (mem_append_right _ (mem_singleton_self _))))
          · rintro (hdef | hstop)
            · refine ⟨fun _ _ _ _ he => ?_, fun i hi err he => absurd he (not_other_of_definite hdef i hi err)⟩
              rcases mem_append.mp he with he | he
              · exact absurd rfl (hinside _ he _ _ _ _)
              · cases mem_singleton.mp he
                exact hiff.mpr hdef
            · simp [hpass.2] at hstop
        · have hev := (spoolRelay_events ans user sender relay data).trans (if_neg hpass)
          rw [hev, append_nil]
          by_cases hnil : relay = []
          · have hdef : definite ans.aliases rcpts = true := hiff.mp (hnil ▸ nil_sublist _)
            exact iff_of_true ⟨fun _ _ _ _ he => absurd rfl (hinside _ he _ _ _ _),
              fun i hi err he => absurd he (not_other_of_definite hdef i hi err)⟩ (.inl hdef)
          · have hstop : (!ans.readSubject.isOk || !ans.openBody.isOk || !ans.submit.isOk) = true := by
              by_contra hno
              exact hpass (by simpa [hnil, and_assoc] using hno)
            have hfail : (spoolRelay ans user sender relay data).failed = true := by
              simp only [failed_spoolRelay hnil, ← Bool.or_assoc, hstop, Bool.true_or]
            refine iff_of_true ?_ (.inr (by simpa only [Bool.false_or] using hstop))
            simp only [Attempt.failed] at hfail ⊢
            rw [hfail]
            exact .of_failed hinside

end Spool

end Mailezine.App

namespace Mailezine.Smtp
open Gostd Schemes Delivery App

/-! ### What a session hands to the queue -/

/-- What Submit did with the messages of some events. -/
def effects (events : List Event) : List Delivery.Event :=
  events.flatMap fun
    | .submitted _ _ _ _ done => done
    | _ => []

/-- LOCAL: after every run of a session, with any answers of the directory, DATA hands only absent
    recipients to the queue and fails when a lookup of Submit fails, exactly when each of these lookups
    gives targets or says that the address is absent, or a call before the queue fails. -/
theorem data_keeps_local_iff (b : Backend) (trusted : Bool) (calls : List Call) (p : Pipeline) (queue : Bool)
    (u : Unicode) (ans : SubmitAnswers) (peer : Option Str) (data : Str) :
    let s := runs (Session.step b) { trusted := trusted } calls
    let a := s.data (some fun user sender rcpts _ => submit p queue u ans peer user sender rcpts) (.ok data)
    KeepsLocal ans.aliases s.rcpts (effects a.events) a.failed ↔
      definite ans.aliases s.rcpts = true ∨ stopsBefore p queue u ans peer s.rcpts = true := by
  intro s a
  by_cases hnil : s.rcpts = []
  · have ha : a = refuse 503 (0, 0, 0) "no valid recipients" := if_pos hnil
    rw [ha, hnil]
    exact iff_of_true (.of_failed fun e he => nomatch he) (.inl rfl)
  · have ha : a = _ := Session.data_eq hnil _ data
    have heff : effects a.events = (submit p queue u ans peer s.user s.sender s.rcpts).events := by
      rw [ha]
      simp [effects]
    have hfail : a.failed = (submit p queue u ans peer s.user s.sender s.rcpts).failed := by
      rw [ha]
      exact Attempt.failed_mapError _ _
    rw [heff, hfail]
    exact keepsLocal_submit_iff queue ans peer s.user s.sender s.rcpts

/-- A recipient that RCPT found in the directory, and a second lookup that fails: the message is accepted
    and goes to the relay. -/
theorem failed_lookup_relays_local_mail :
    let dir : Directory.Service := { aliases := fun _ => .ok [ascii "a@x"] }
    let s := runs (Session.step {}) {} [.mail (ascii "s@y") dir, .rcpt (ascii "a@x") dir]
    let ans : SubmitAnswers := { clean := .ok [], aliases := fun _ => .error (.other (ascii "status 503")) }
    let a := s.data (some fun user sender rcpts _ => submit {} true asciiOnly ans none user sender rcpts) (.ok [])
    a.failed = false ∧ effects a.events = [.spooled (ascii "s@y") [ascii "a@x"] [] []] ∧
      ¬KeepsLocal ans.aliases s.rcpts (effects a.events) a.failed := by
  intro dir s ans a
  have hok : a.failed = false := by decide +kernel
  refine ⟨hok, by decide +kernel, fun h => ?_⟩
  have hfail := h.refused 0 (by decide +kernel) (ascii "status 503") rfl
  rw [hok] at hfail
  cases hfail

/-- HANDED ON: with the control plane's client, each recipient that Submit hands to the queue was answered
    with 404, now or shortly before, when every lookup is definite. -/
theorem handed_on_was_missing (p : Pipeline) (queue : Bool) (u : Unicode) (ans : SubmitAnswers)
    (peer : Option Str) (user sender : Str) (rcpts : List Str) (lookup : Nat → Directory.Lookup)
    (hl : ∀ i, ans.aliases i = (lookup i).answer) (hd : definite ans.aliases rcpts = true)
    (source : Str) (relay : List Str) (subject data : Str)
    (he : .spooled source relay subject data ∈ (submit p queue u ans peer user sender rcpts).events) :
    ∀ rcpt ∈ relay, ∃ i, rcpts[i]? = some rcpt ∧ (lookup i).missing := by
  intro rcpt hr
  have h := (keepsLocal_submit_iff (p := p) (u := u) queue ans peer user sender rcpts).mpr (.inl hd)
  obtain ⟨⟨r, i⟩, hq, rfl⟩ := List.mem_map.mp ((h.relay _ _ _ _ he).subset hr)
  obtain ⟨hmem, habs⟩ := List.mem_filter.mp hq
  refine ⟨i, by simpa [List.mem_zipIdx_iff_getElem?] using hmem, ?_⟩
  exact Directory.Lookup.missing_of_notFound ((hl i).symm.trans (of_decide_eq_true habs))

/-- A lookup that is answered with 404. -/
def unknown : Directory.Lookup := { path := [], net := fun _ => .status 404 [] (.ok []) }

theorem handed_on_was_missing_unknown : unknown.missing := by
  obtain ⟨_, _, h⟩ := handed_on_was_missing {} true asciiOnly
    { clean := .ok [], aliases := fun _ => unknown.answer } none [] [] [ascii "a@x"] (fun _ => unknown)
    (fun _ => rfl) (by decide +kernel) [] [ascii "a@x"] [] [] (by decide +kernel) (ascii "a@x") (by simp)
  exact h

end Mailezine.Smtp
