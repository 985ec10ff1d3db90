import Mailezine.Mailsmtp.Client

/-! What a transcript says about a recipient, and that the client says the same.

    A recipient has the message when its RCPT was answered with 2xx, the text was written after that, and
    the end of the text was answered with 2xx. It is refused when the last word to it is 5xx and the
    connection held. The client agrees with one exception: a server that answers DATA itself with 2xx
    makes it believe that the message was taken, although no text was sent. -/

namespace Mailezine.Mailsmtp
open Gostd Schemes List

/-- A reply whose code has the given first digit. -/
def answered (d : Int) : Reply → Bool
  | .ok (code, _) => hundreds code = d
  | .error _ => false

variable {r : Reply} {e : Exchange}

theorem not_answered {d d' : Int} (hd : d ≠ d') (h : answered d r = true) : answered d' r ≠ true := by
  cases r with
  | error err => simp [answered]
  | ok v =>
    have h : hundreds v.1 = d := of_decide_eq_true h
    exact fun h' => hd (h.symm.trans (of_decide_eq_true h'))

/-- The connection was lost here. -/
def Exchange.torn : Exchange → Bool
  | .session _ r | .rcpt _ _ r | .data r | .finish r => !r.isOk
  | .body _ _ written => !written.isOk
  | .rset => false

/-- The recipient at a position was accepted at RCPT. -/
def admits (j : Nat) : Exchange → Bool
  | .rcpt i _ r => i = j && answered 2 r
  | _ => false

/-- The reply of an exchange to the recipient at a position; those to the text are only for recipients that
    were accepted. -/
def Exchange.word (j : Nat) (admitted : Bool) : Exchange → Option Reply
  | .session _ r => some r
  | .rcpt i _ r => if i = j then some r else none
  | .data r | .finish r => if admitted then some r else none
  | .body .. | .rset => none

/-- The last word to the recipient at a position. -/
def lastWord (j : Nat) (log : List Exchange) : Option Reply :=
  (log.filterMap (Exchange.word j (log.any (admits j)))).getLast?

/-- The recipient at a position has the text. -/
def Accepted (j : Nat) (text : Str) (log : List Exchange) : Prop :=
  ∃ path r channel r', [.rcpt j path r, .body channel text (.ok ()), .finish r'].Sublist log ∧
    answered 2 r = true ∧ answered 2 r' = true

/-- The recipient at a position is refused. -/
def Refused (j : Nat) (log : List Exchange) : Prop :=
  (∀ e ∈ log, e.torn = false) ∧ ∃ r, lastWord j log = some r ∧ answered 5 r = true

/-- The recipient at a position was accepted, and DATA was answered as if it was the end of the text. -/
def Misled (j : Nat) (log : List Exchange) : Prop :=
  ∃ path r r', [.rcpt j path r, .data r'].Sublist log ∧ answered 2 r = true ∧ answered 2 r' = true

/-- What a dialogue with `n` recipients ends in agrees with its transcript. -/
structure Tells (text : Str) (n : Nat) (log : List Exchange) (out : Except Failure (List Response)) : Prop where
  length : ∀ rs, out = .ok rs → rs.length = n
  accepted : ∀ rs j r, out = .ok rs → rs[j]? = some r →
    (hundreds r.code = 2 ↔ Accepted j text log ∨ Misled j log)
  refused : ∀ rs j r, out = .ok rs → rs[j]? = some r → hundreds r.code ≠ 2 → (r.permanent = true ↔ Refused j log)
  failed : ∀ f j, out = .error f → j < n →
    ¬(Accepted j text log ∨ Misled j log) ∧ (f.permanent = true ↔ Refused j log)
  exclusive : ∀ i j, i < n → j < n → Misled i log → ¬Accepted j text log

variable {f : Failure}

/-- A dialogue that ended in an error. -/
theorem tells_of_error {text : Str} {n : Nat} {log : List Exchange}
    (h : ∀ j < n, ¬(Accepted j text log ∨ Misled j log) ∧ (f.permanent = true ↔ Refused j log)) :
    Tells text n log (.error f) where
  length _ h' := by cases h'
  accepted _ _ _ h' := by cases h'
  refused _ _ _ h' := by cases h'
  failed g j hg hj := by
    cases hg
    exact h j hj
  exclusive i _ hi _ hm := absurd (.inr hm) (h i hi).1

/-! ### Up to MAIL -/

/-- A command about the transaction that was answered with 2xx. -/
def Exchange.affirms : Exchange → Bool
  | .session _ r => answered 2 r
  | _ => false

theorem isOk_of_answered {d : Int} (h : answered d r = true) : (!r.isOk) = false := by
  cases r with
  | error err => cases h
  | ok v => rfl

theorem torn_of_affirms (h : e.affirms = true) : e.torn = false := by
  cases e with
  | session cmd r => exact isOk_of_answered h
  | _ => cases h

/-- A dialogue that goes on only after 2xx, and whose permanent errors are replies with 5xx. -/
structure Civil {α : Type} (a : Dialogue α) : Prop where
  sessions : ∀ e ∈ a.events, ∃ cmd r, e = .session cmd r
  ok : ∀ v, a.result = .ok v → ∀ e ∈ a.events, e.affirms = true
  kept : ∀ e ∈ a.events.dropLast, e.affirms = true
  error : ∀ f, a.result = .error f → f.noTLSUpgrade = true ∨
    (f.permanent = true ↔ ∃ cmd r, a.events.getLast? = some (.session cmd r) ∧ answered 5 r = true)

section Civil
variable {α β : Type}

theorem civil_pure (v : α) : Civil (pure v : Dialogue α) :=
  ⟨fun e he => (by cases he), fun _ _ e he => (by cases he), fun e he => (by cases he), fun f hf => by cases hf⟩

/-- An error that is not a reply. -/
theorem civil_lift {r : Except Failure α} (h : ∀ f, r = .error f → f.permanent = false) :
    Civil (Attempt.lift r : Dialogue α) := by
  refine ⟨fun e he => (by cases he), fun _ _ e he => (by cases he), fun e he => (by cases he), fun f hf => .inr ?_⟩
  simp [Attempt.lift, h f hf]

theorem Civil.bind {a : Dialogue α} {f : α → Dialogue β} (ha : Civil a)
    (hf : ∀ v, a.result = .ok v → Civil (f v)) : Civil (a >>= f) := by
  cases hr : a.result with
  | error e =>
    rw [Attempt.bind_error hr]
    exact ⟨ha.sessions, by simp, ha.kept, fun f hf => by
      cases hf
      exact ha.error e hr⟩
  | ok v =>
    have hb := hf v hr
    rw [Attempt.bind_ok hr]
    have hall := ha.ok v hr
    refine ⟨fun e he => ?_, fun w hw e he => ?_, fun e he => ?_, fun g hg => ?_⟩
    · exact (mem_append.mp he).elim (ha.sessions e) (hb.sessions e)
    · exact (mem_append.mp he).elim (hall e) (hb.ok w hw e)
    · by_cases hnil : (f v).events = []
      · dsimp only at he
        rw [hnil, append_nil] at he
        exact hall e ((dropLast_sublist _).mem he)
      · dsimp only at he
        rw [dropLast_append_of_ne_nil hnil] at he
        exact (mem_append.mp he).elim (hall e) (hb.kept e)
    · refine (hb.error g hg).imp_right fun hiff => hiff.trans ?_
      dsimp only
      by_cases hnil : (f v).events = []
      · rw [hnil, append_nil]
        refine iff_of_false (by rintro ⟨_, _, h, -⟩; cases h) ?_
        rintro ⟨cmd, r, hlast, h5⟩
        exact not_answered (by decide) (hall _ (mem_of_getLast? hlast)) h5
      · rw [getLast?_append_of_ne_nil _ hnil]

theorem Civil.mapError {a : Dialogue α} (ha : Civil a) {g : Failure → Failure}
    (hg : ∀ f, (g f).noTLSUpgrade = true ∨
      ((g f).permanent = f.permanent ∧ (g f).noTLSUpgrade = f.noTLSUpgrade)) : Civil (a.mapError g) := by
  refine ⟨ha.sessions, fun v hv => ?_, ha.kept, fun f hf => ?_⟩
  · cases hr : a.result with
    | error e => simp [Attempt.mapError, hr, Except.mapError] at hv
    | ok w => exact ha.ok w hr
  · cases hr : a.result with
    | ok w => simp [Attempt.mapError, hr, Except.mapError] at hf
    | error e =>
      obtain rfl : g e = f := by simpa [Attempt.mapError, hr, Except.mapError] using hf
      rcases hg e with h | ⟨hperm, hno⟩
      · exact .inl h
      · rw [hperm, hno]
        exact ha.error e hr

/-- A dialogue of one exchange about the transaction. -/
theorem civil_single (cmd : Cmd) {reply : Reply} {res : Except Failure α}
    (hok : ∀ v, res = .ok v → answered 2 reply = true)
    (herr : ∀ f, res = .error f → (f.permanent = true ↔ answered 5 reply = true)) :
    Civil (⟨[.session cmd reply], res⟩ : Dialogue α) := by
  refine ⟨fun e he => ⟨cmd, _, mem_singleton.mp he⟩, fun v hv e he => ?_, by simp,
    fun f hf => .inr ((herr f hf).trans (by simp))⟩
  rw [mem_singleton.mp he]
  exact hok v hv

/-- Ask for something that is about the transaction. -/
theorem civil_ask (cmd : Cmd) {reply : Reply} {P : Int → Prop} [DecidablePred P] {g : Int → List Str → α}
    (hP : ∀ code, ¬P code → hundreds code = 2) : Civil (ask (.session cmd) reply >>= fun x =>
      if P x.1 then fail (refusal x.1 x.2).failure else pure (g x.1 x.2)) := by
  cases reply with
  | error err =>
    rw [Attempt.bind_error (e := { text := err }) rfl]
    refine civil_single cmd (by simp) fun f hf => ?_
    cases hf
    simp [answered]
  | ok v =>
    rw [Attempt.bind_ok (v := v) rfl]
    by_cases hc : P v.1
    · rw [if_pos hc]
      refine civil_single cmd (fun v hv => (by cases hv)) fun f hf => ?_
      cases hf
      simp [answered, refusal, Response.failure]
    · rw [if_neg hc]
      refine civil_single cmd (fun w _ => ?_) (by simp)
      simp [answered, hP v.1 hc]

theorem civil_command (cmd : Cmd) (reply : Reply) : Civil (command (.session cmd) reply) :=
  civil_ask cmd (P := fun code => hundreds code ≠ 2) (g := fun _ lines => lines) fun _ => not_not.mp

end Civil

variable (c : Client)

theorem civil_ehlo (reply : Reply) : Civil (c.ehlo reply) :=
  (civil_command .ehlo reply).bind fun _ _ => civil_pure _

theorem handshake_error {c : Client} {peer : Peer} {dane : List TLSA}
    (h : c.handshake peer dane = .error f) : f.permanent = false := by
  unfold Client.handshake at h
  extract_lets text at h
  split at h
  · cases h
    rfl
  · split at h <;> split at h <;> first | (cases h; done) | (cases h; rfl)

theorem civil_startTLS (peer : Peer) (dane : List TLSA) : Civil (c.startTLS peer dane) :=
  (civil_command .starttls peer.starttls).bind fun _ _ =>
    (civil_lift fun _ => handshake_error).bind fun _ _ => civil_ehlo _ _

theorem civil_fail {α : Type} (h : f.permanent = false) : Civil (fail f : Dialogue α) :=
  civil_lift fun g hg => by
    cases hg
    exact h

theorem civil_greet (peer : Peer) (mode : TLSMode) (dane : List TLSA) (noTLS : Bool) :
    Civil (c.greet peer mode dane noTLS) := by
  refine (civil_command .greeting peer.greeting).bind fun _ _ => (civil_ehlo c peer.ehlo).bind fun c' _ => ?_
  split_ifs
  · exact civil_fail rfl
  · exact civil_pure c'
  · exact civil_fail rfl
  · exact (civil_startTLS c' peer dane).mapError fun f => .inl rfl
  · exact (civil_startTLS c' peer dane).mapError fun f => .inr ⟨rfl, rfl⟩
  · exact civil_pure c'

theorem civil_authPlain (peer : Peer) : Civil (c.authPlain peer) := by
  unfold Client.authPlain
  split
  · exact civil_fail rfl
  · refine civil_ask .auth (P := fun code => code ≠ 235) (g := fun _ _ => ()) fun code hcode => ?_
    rw [not_not.mp hcode]
    rfl

/-- Before the first RCPT, every reply is a word to every recipient. -/
theorem lastWord_of_sessions (j : Nat) : ∀ {log : List Exchange}, (∀ e ∈ log, ∃ cmd r, e = .session cmd r) →
    lastWord j log = log.getLast?.bind (Exchange.word j (log.any (admits j))) := by
  intro log h
  rcases eq_nil_or_concat log with rfl | ⟨front, last, rfl⟩
  · rfl
  · obtain ⟨cmd, r, rfl⟩ := h last (by simp)
    simp [lastWord, Exchange.word]

/-- A dialogue that ended before the first RCPT. -/
theorem Civil.tells {α : Type} {a : Dialogue α} (ha : Civil a) (hr : a.result = .error f)
    (hf : f.noTLSUpgrade = false) (text : Str) (n : Nat) : Tells text n a.events (.error f) := by
  have hrcpt : ∀ j path r, Exchange.rcpt j path r ∉ a.events := fun j path r hmem => by
    obtain ⟨_, _, h⟩ := ha.sessions _ hmem
    cases h
  refine tells_of_error fun j _ => ⟨?_, ?_⟩
  · rintro (⟨path, r, _, _, hsub, -⟩ | ⟨path, r, _, hsub, -⟩) <;>
      exact hrcpt j path r (hsub.mem mem_cons_self)
  · refine ((ha.error f hr).resolve_left (by simp [hf])).trans ⟨?_, ?_⟩
    · rintro ⟨cmd, r, hlast, h5⟩
      refine ⟨fun e he => ?_, r, by rw [lastWord_of_sessions j ha.sessions, hlast]; rfl, h5⟩
      rw [← dropLast_append_getLast? _ hlast] at he
      rcases mem_append.mp he with he | he
      · exact torn_of_affirms (ha.kept e he)
      · rw [mem_singleton.mp he]
        exact isOk_of_answered h5
    · rintro ⟨-, r, hlast, h5⟩
      rw [lastWord_of_sessions j ha.sessions] at hlast
      obtain ⟨e, he, hword⟩ := Option.bind_eq_some_iff.mp hlast
      obtain ⟨cmd, r', rfl⟩ := ha.sessions e (mem_of_getLast? he)
      cases hword
      exact ⟨cmd, r, he, h5⟩

/-! ### From RCPT on -/

/-- The RCPT commands, all answered. -/
def rcptEvents (peer : Peer) (i : Nat) (rcpts : List Str) : List Exchange :=
  (rcpts.zipIdx i).map fun p => .rcpt p.2 (sanitizePath p.1) (peer.rcpt p.2)

theorem mem_rcptAll {peer : Peer} : ∀ {rcpts : List Str} {i : Nat},
    e ∈ (rcptAll peer i rcpts).events → ∃ k path r, e = .rcpt k path r
  | [], _, h => by cases h
  | rcpt :: rest, i, h => by
    rcases Attempt.mem_events_bind h with h | ⟨v, -, h⟩
    · exact ⟨_, _, _, mem_singleton.mp h⟩
    · rcases Attempt.mem_events_bind h with h | ⟨_, -, h⟩
      · exact mem_rcptAll h
      · cases h

/-- The RCPT commands end with a lost connection, or with a response for everybody. -/
theorem rcptAll_cases (peer : Peer) : ∀ (rcpts : List Str) (i : Nat),
    (∃ f, (rcptAll peer i rcpts).result = .error f ∧ f.permanent = false ∧
      ∃ e ∈ (rcptAll peer i rcpts).events, e.torn = true) ∨
    ∃ rs, (rcptAll peer i rcpts).result = .ok rs ∧ (rcptAll peer i rcpts).events = rcptEvents peer i rcpts ∧
      rs.length = rcpts.length ∧ ∀ k < rcpts.length, ∃ code lines,
        peer.rcpt (i + k) = .ok (code, lines) ∧ rs[k]? = some (rcptResponse code lines)
  | [], _ => .inr ⟨[], rfl, rfl, rfl, fun k hk => absurd hk (Nat.not_lt_zero k)⟩
  | rcpt :: rest, i => by
    unfold rcptAll
    cases hreply : peer.rcpt i with
    | error err =>
      rw [Attempt.bind_error (e := { text := err }) rfl]
      exact .inl ⟨_, rfl, rfl, _, mem_singleton_self _, rfl⟩
    | ok v =>
      rw [Attempt.bind_ok (v := v) rfl]
      dsimp only
      rcases rcptAll_cases peer rest (i + 1) with
        ⟨g, hrest, hperm, e, he, htorn⟩ | ⟨rs, hrest, hev, hlen, hall⟩
      · rw [Attempt.bind_error hrest]
        exact .inl ⟨g, rfl, hperm, e, mem_append_right _ he, htorn⟩
      · rw [Attempt.bind_ok hrest]
        refine .inr ⟨_, rfl, ?_, by simp [hlen], fun k hk => ?_⟩
        · rw [hev]
          simp [ask, rcptEvents, hreply, pure]
        · cases k with
          | zero => exact ⟨v.1, v.2, hreply, rfl⟩
          | succ k =>
            have := hall k (by simpa using hk)
            rwa [Nat.add_right_comm] at this

/-- Exchanges after the last RCPT. -/
def Exchange.late : Exchange → Bool
  | .data _ | .body .. | .finish _ | .rset => true
  | _ => false

section Envelope
variable {peer : Peer} {pre tail : List Exchange} {rcpts : List Str} {j : Nat}

theorem mem_rcptEvents : e ∈ rcptEvents peer 0 rcpts ↔
    ∃ k a, rcpts[k]? = some a ∧ e = .rcpt k (sanitizePath a) (peer.rcpt k) := by
  simp only [rcptEvents, List.mem_map, Prod.exists, mem_zipIdx_iff_getElem?]
  exact ⟨fun ⟨a, k, h, he⟩ => ⟨k, a, h, he.symm⟩, fun ⟨k, a, h, he⟩ => ⟨a, k, h, he.symm⟩⟩

theorem words_rcptEvents {b : Bool} : ∀ {rcpts : List Str} {i : Nat},
    (rcptEvents peer i rcpts).filterMap (Exchange.word j b) =
      if i ≤ j ∧ j < i + rcpts.length then [peer.rcpt j] else []
  | [], i => by
    rw [if_neg (by simp only [length_nil]; omega)]
    rfl
  | rcpt :: rest, i => by
    have hrest : (rcptEvents peer (i + 1) rest).filterMap (Exchange.word j b) =
        if i + 1 ≤ j ∧ j < i + 1 + rest.length then [peer.rcpt j] else [] := words_rcptEvents
    simp only [rcptEvents, zipIdx_cons, map_cons, filterMap_cons, Exchange.word] at hrest ⊢
    rw [hrest]
    by_cases hij : i = j
    · rw [if_pos hij, if_neg (by omega), if_pos (by simp only [length_cons]; omega), hij]
    · rw [if_neg hij]
      refine if_congr ?_ rfl rfl
      simp only [length_cons]
      omega

/-- Where the replies of an envelope are: the prefix is before RCPT, the tail after it. -/
structure Envelope (pre tail : List Exchange) : Prop where
  before : ∀ e ∈ pre, e.affirms = true
  after : ∀ e ∈ tail, e.late = true

theorem Envelope.filter_late (h : Envelope pre tail) :
    (pre ++ rcptEvents peer 0 rcpts ++ tail).filter Exchange.late = tail := by
  have hpre : pre.filter Exchange.late = [] := filter_eq_nil_iff.mpr fun e he => by
    have := h.before e he
    cases e <;> simp_all [Exchange.affirms, Exchange.late]
  have hrcpt : (rcptEvents peer 0 rcpts).filter Exchange.late = [] := filter_eq_nil_iff.mpr fun e he => by
    obtain ⟨k, a, -, rfl⟩ := mem_rcptEvents.mp he
    simp [Exchange.late]
  rw [filter_append, filter_append, hpre, hrcpt, filter_eq_self.mpr h.after]
  rfl

/-- The one RCPT of the recipient. -/
theorem Envelope.rcpt_mem (h : Envelope pre tail) {path : Str} :
    .rcpt j path r ∈ pre ++ rcptEvents peer 0 rcpts ++ tail ↔
      ∃ a, rcpts[j]? = some a ∧ path = sanitizePath a ∧ r = peer.rcpt j := by
  simp only [mem_append, mem_rcptEvents, Exchange.rcpt.injEq]
  constructor
  · rintro ((hmem | ⟨k, a, ha, rfl, hpath, hr⟩) | hmem)
    · exact absurd (h.before _ hmem) (by simp [Exchange.affirms])
    · exact ⟨a, ha, hpath, hr⟩
    · exact absurd (h.after _ hmem) (by simp [Exchange.late])
  · rintro ⟨a, ha, hpath, hr⟩
    exact .inl (.inr ⟨j, a, ha, rfl, hpath, hr⟩)

theorem Envelope.any_admits (h : Envelope pre tail) (hj : j < rcpts.length) :
    (pre ++ rcptEvents peer 0 rcpts ++ tail).any (admits j) = answered 2 (peer.rcpt j) := by
  rw [Bool.eq_iff_iff, List.any_eq_true]
  constructor
  · rintro ⟨e, he, hadm⟩
    cases e with
    | rcpt i path r =>
      obtain ⟨rfl, h2⟩ : i = j ∧ answered 2 r = true := by simpa [admits] using hadm
      obtain ⟨_, -, -, rfl⟩ := h.rcpt_mem.mp he
      exact h2
    | _ => cases hadm
  · intro h2
    exact ⟨.rcpt j _ _, h.rcpt_mem.mpr ⟨_, getElem?_eq_getElem hj, rfl, rfl⟩, by simp [admits, h2]⟩

theorem Envelope.lastWord_eq (h : Envelope pre tail) (hj : j < rcpts.length) :
    lastWord j (pre ++ rcptEvents peer 0 rcpts ++ tail) =
      (tail.filterMap (Exchange.word j (answered 2 (peer.rcpt j)))).getLast?.or (some (peer.rcpt j)) := by
  rw [lastWord, h.any_admits hj, filterMap_append, filterMap_append, words_rcptEvents,
    if_pos (by omega), getLast?_append, getLast?_append]
  rfl

variable {text : Str}

section
variable (h : Envelope pre tail)
include h

theorem Envelope.accepted_iff (hj : j < rcpts.length) :
    Accepted j text (pre ++ rcptEvents peer 0 rcpts ++ tail) ↔ answered 2 (peer.rcpt j) = true ∧
      ∃ channel r, [.body channel text (.ok ()), .finish r].Sublist tail ∧ answered 2 r = true := by
  constructor
  · rintro ⟨path, r, channel, r', hsub, h2, h2'⟩
    obtain ⟨_, -, -, rfl⟩ := h.rcpt_mem.mp (hsub.mem mem_cons_self)
    have hlate := hsub.filter Exchange.late
    rw [h.filter_late] at hlate
    exact ⟨h2, channel, r', hlate, h2'⟩
  · rintro ⟨h2, channel, r, hsub, h2'⟩
    have hmem : .rcpt j (sanitizePath rcpts[j]) (peer.rcpt j) ∈ pre ++ rcptEvents peer 0 rcpts :=
      mem_append_right _ (mem_rcptEvents.mpr ⟨j, _, getElem?_eq_getElem hj, rfl⟩)
    exact ⟨_, _, channel, r, (singleton_sublist.mpr hmem).append hsub, h2, h2'⟩

theorem Envelope.misled_iff (hj : j < rcpts.length) :
    Misled j (pre ++ rcptEvents peer 0 rcpts ++ tail) ↔ answered 2 (peer.rcpt j) = true ∧
      ∃ r, .data r ∈ tail ∧ answered 2 r = true := by
  constructor
  · rintro ⟨path, r, r', hsub, h2, h2'⟩
    obtain ⟨_, -, -, rfl⟩ := h.rcpt_mem.mp (hsub.mem mem_cons_self)
    have hlate := hsub.filter Exchange.late
    rw [h.filter_late] at hlate
    exact ⟨h2, r', hlate.mem (by simp [Exchange.late]), h2'⟩
  · rintro ⟨h2, r, hmem', h2'⟩
    have hmem : .rcpt j (sanitizePath rcpts[j]) (peer.rcpt j) ∈ pre ++ rcptEvents peer 0 rcpts :=
      mem_append_right _ (mem_rcptEvents.mpr ⟨j, _, getElem?_eq_getElem hj, rfl⟩)
    exact ⟨_, _, r, (singleton_sublist.mpr hmem).append (singleton_sublist.mpr hmem'), h2, h2'⟩

section
variable (hok : ∀ k < rcpts.length, (peer.rcpt k).isOk = true) (htail : ∀ e ∈ tail, e.torn = false)
include hok htail

theorem Envelope.refused_iff (hj : j < rcpts.length) :
    Refused j (pre ++ rcptEvents peer 0 rcpts ++ tail) ↔
      ∃ r, (tail.filterMap (Exchange.word j (answered 2 (peer.rcpt j)))).getLast?.or (some (peer.rcpt j)) = some r ∧
        answered 5 r = true := by
  rw [Refused, h.lastWord_eq hj]
  refine and_iff_right fun e he => ?_
  rcases mem_append.mp he with he | he
  · rcases mem_append.mp he with he | he
    · exact torn_of_affirms (h.before e he)
    · obtain ⟨k, a, hk, rfl⟩ := mem_rcptEvents.mp he
      have hlt := (List.getElem?_eq_some_iff.mp hk).1
      simp [Exchange.torn, hok k hlt]
  · exact htail e he

/-- To a recipient that was accepted at RCPT, the last word comes after that. -/
theorem Envelope.refused_of_admitted (hj : j < rcpts.length) (h2 : answered 2 (peer.rcpt j) = true) :
    Refused j (pre ++ rcptEvents peer 0 rcpts ++ tail) ↔
      ∃ r, (tail.filterMap (Exchange.word j true)).getLast? = some r ∧ answered 5 r = true := by
  rw [h.refused_iff hok htail hj, h2]
  cases (tail.filterMap (Exchange.word j true)).getLast? with
  | some r => rfl
  | none =>
    refine iff_of_false ?_ (by simp)
    rintro ⟨r, hr, h5⟩
    cases hr
    exact not_answered (by decide) h2 h5

/-- To one that was not, its own is the last. -/
theorem Envelope.refused_of_turned (hj : j < rcpts.length) (h2 : answered 2 (peer.rcpt j) ≠ true) :
    Refused j (pre ++ rcptEvents peer 0 rcpts ++ tail) ↔ answered 5 (peer.rcpt j) = true := by
  have hnil : tail.filterMap (Exchange.word j false) = [] := filterMap_eq_nil_iff.mpr fun e he => by
    have := h.after e he
    cases e <;> simp_all [Exchange.late, Exchange.word]
  rw [h.refused_iff hok htail hj, Bool.eq_false_iff.mpr h2, hnil]
  simp

end

/-- A dialogue that broke off after the RCPT commands. -/
theorem Envelope.tells_error {f : Failure} (hf : f.permanent = false)
    (htorn : ∃ e ∈ tail, e.torn = true) (hdata : ∀ r, .data r ∈ tail → answered 2 r ≠ true)
    (hfinish : ∀ r, .finish r ∈ tail → answered 2 r ≠ true) :
    Tells text rcpts.length (pre ++ rcptEvents peer 0 rcpts ++ tail) (.error f) := by
  refine tells_of_error fun j hj => ?_
  rw [h.accepted_iff hj, h.misled_iff hj, hf]
  refine ⟨?_, iff_of_false (by simp) fun href => ?_⟩
  · rintro (⟨-, channel, r, hsub, h2⟩ | ⟨-, r, hmem, h2⟩)
    · exact hfinish r (hsub.mem (by simp)) h2
    · exact hdata r hmem h2
  · obtain ⟨e, he, htorn⟩ := htorn
    simp [href.1 e (mem_append_right _ he)] at htorn

/-- A dialogue with a response for everybody: those who were accepted at RCPT have a response that agrees
    with what follows, the others have that of their RCPT. -/
theorem Envelope.tells_ok {rs out : List Response}
    (hrcpt : ∀ k < rcpts.length, ∃ code lines,
      peer.rcpt k = .ok (code, lines) ∧ rs[k]? = some (rcptResponse code lines))
    (hlen : out.length = rcpts.length) (htail : ∀ e ∈ tail, e.torn = false)
    (hout : ∀ k < rcpts.length, answered 2 (peer.rcpt k) ≠ true → out[k]? = rs[k]?)
    (hacc : ∀ k r, answered 2 (peer.rcpt k) = true → out[k]? = some r → (hundreds r.code = 2 ↔
        (∃ channel r, [.body channel text (.ok ()), .finish r].Sublist tail ∧ answered 2 r = true) ∨
          ∃ r, .data r ∈ tail ∧ answered 2 r = true) ∧ (hundreds r.code ≠ 2 → (r.permanent = true ↔
        ∃ r, (tail.filterMap (Exchange.word k true)).getLast? = some r ∧ answered 5 r = true)))
    (hexcl : ∀ r channel, .data r ∈ tail → answered 2 r = true → .body channel text (.ok ()) ∉ tail) :
    Tells text rcpts.length (pre ++ rcptEvents peer 0 rcpts ++ tail) (.ok out) := by
  have hok : ∀ k < rcpts.length, (peer.rcpt k).isOk = true := fun k hk => by
    obtain ⟨code, lines, hr, -⟩ := hrcpt k hk
    rw [hr]
    rfl
  have hlt : ∀ {j r}, out[j]? = some r → j < rcpts.length := fun hr => hlen ▸ (List.getElem?_eq_some_iff.mp hr).1
  have hturned : ∀ {j r}, out[j]? = some r → answered 2 (peer.rcpt j) ≠ true →
      hundreds r.code ≠ 2 ∧ (r.permanent = true ↔ answered 5 (peer.rcpt j) = true) := fun {j r} hr h2 => by
    obtain ⟨code, lines, hreply, hresp⟩ := hrcpt j (hlt hr)
    have hcode : hundreds code ≠ 2 := by simpa [hreply, answered] using h2
    obtain rfl : rcptResponse code lines = r := by simpa [hout j (hlt hr) h2, hresp] using hr
    rw [rcptResponse, if_pos hcode, hreply]
    exact ⟨hcode, Iff.rfl⟩
  refine ⟨fun rs' h => (by cases h; exact hlen), fun rs' j r h' hr => ?_, fun rs' j r h' hr hcode => ?_,
    by simp, fun i j hi hj hm ha => ?_⟩
  · cases h'
    rw [h.accepted_iff (hlt hr), h.misled_iff (hlt hr), ← and_or_left]
    by_cases h2 : answered 2 (peer.rcpt j) = true
    · rw [and_iff_right h2]
      exact (hacc j r h2 hr).1
    · exact iff_of_false (hturned hr h2).1 fun hand => h2 hand.1
  · cases h'
    by_cases h2 : answered 2 (peer.rcpt j) = true
    · rw [h.refused_of_admitted hok htail (hlt hr) h2]
      exact (hacc j r h2 hr).2 hcode
    · rw [h.refused_of_turned hok htail (hlt hr) h2]
      exact (hturned hr h2).2
  · obtain ⟨-, r, hdata, h2⟩ := (h.misled_iff hi).mp hm
    obtain ⟨-, channel, r', hsub, -⟩ := (h.accepted_iff hj).mp ha
    exact hexcl r channel hdata h2 (hsub.mem mem_cons_self)

end

end Envelope

/-! ### The whole dialogue -/

section Deliver
variable {peer : Peer} {pre : List Exchange} {rcpts : List Str} {rs : List Response}

theorem accepted_rcptResponse (code : Int) (lines : List Str) :
    (rcptResponse code lines).accepted = decide (hundreds code = 2) := by
  unfold rcptResponse
  split <;> rfl

/-- The responses to RCPT are those to the recipients. -/
def Answers (peer : Peer) (rcpts : List Str) (rs : List Response) : Prop :=
  rs.length = rcpts.length ∧ ∀ k < rcpts.length, ∃ code lines,
    peer.rcpt k = .ok (code, lines) ∧ rs[k]? = some (rcptResponse code lines)

theorem Answers.accepted (h : Answers peer rcpts rs) {k : Nat} {r : Response} (hr : rs[k]? = some r) :
    r.accepted = answered 2 (peer.rcpt k) := by
  obtain ⟨code, lines, hreply, hresp⟩ := h.2 k (h.1 ▸ (List.getElem?_eq_some_iff.mp hr).1)
  cases hr.symm.trans hresp
  rw [accepted_rcptResponse, hreply]
  rfl

theorem Answers.overrule_turned (h : Answers peer rcpts rs) (r' : Response) {k : Nat}
    (h2 : answered 2 (peer.rcpt k) ≠ true) : (overrule r' rs)[k]? = rs[k]? := by
  rw [overrule, getElem?_map]
  cases hr : rs[k]? with
  | none => rfl
  | some r => simp [h.accepted hr, h2]

theorem Answers.overrule_admitted (h : Answers peer rcpts rs) {r r' : Response} {k : Nat}
    (h2 : answered 2 (peer.rcpt k) = true) (hr : (overrule r' rs)[k]? = some r) : r = r' := by
  rw [overrule, getElem?_map] at hr
  obtain ⟨r₀, hr₀, rfl⟩ := Option.map_eq_some_iff.mp hr
  simp [h.accepted hr₀, h2]

section Transmit
variable {c : Client} {body : Str} {code code' : Int} {lines lines' : List Str} {err : Str}

theorem transmit_noReply (hdata : peer.data = .error err) :
    c.transmit peer body rs = ⟨[.data (.error err)], .error { text := err }⟩ := by
  rw [Client.transmit, hdata, Attempt.bind_error (e := { text := err }) rfl]
  rfl

theorem transmit_refused (hdata : peer.data = .ok (code, lines)) (hcode : code ≠ 354) :
    c.transmit peer body rs = ⟨[.data (.ok (code, lines)), .rset], .ok (overrule (refusal code lines) rs)⟩ := by
  rw [Client.transmit, hdata, Attempt.bind_ok (v := (code, lines)) rfl]
  simp only [if_pos hcode]
  rfl

theorem transmit_broken (hdata : peer.data = .ok (354, lines)) (hwrite : peer.write = .error err) :
    c.transmit peer body rs =
      ⟨[.data (.ok (354, lines)), .body c.channel (wireText body) (.error err)], .error { text := err }⟩ := by
  rw [Client.transmit, hdata, Attempt.bind_ok (v := (354, lines)) rfl]
  simp only [ne_eq, not_true_eq_false, if_false]
  rw [Attempt.bind_error (e := { text := err }) (by simp [Client.writeData, hwrite, Except.mapError]),
    Client.writeData, hwrite]
  rfl

theorem transmit_written (hdata : peer.data = .ok (354, lines)) (hwrite : peer.write = .ok ()) :
    c.transmit peer body rs =
      ⟨[.data (.ok (354, lines)), .body c.channel (wireText body) (.ok ()), .finish peer.finish],
        match peer.finish with
        | .error err => .error { text := err }
        | .ok (code', lines') => .ok (if hundreds code' ≠ 2 then overrule (refusal code' lines') rs else rs)⟩ := by
  rw [Client.transmit, hdata, Attempt.bind_ok (v := (354, lines)) rfl]
  simp only [ne_eq, not_true_eq_false, if_false]
  rw [Attempt.bind_ok (v := ()) (by simp [Client.writeData, hwrite, Except.mapError]), Client.writeData, hwrite]
  cases hfinish : peer.finish with
  | error err =>
    rw [Attempt.bind_error (e := { text := err }) rfl]
    rfl
  | ok v =>
    rw [Attempt.bind_ok (v := v) rfl]
    rfl

end Transmit

theorem tells_transmit (body : Str) (hpre : ∀ e ∈ pre, e.affirms = true) (h : Answers peer rcpts rs) :
    Tells (wireText body) rcpts.length (pre ++ rcptEvents peer 0 rcpts ++ (c.transmit peer body rs).events)
      (c.transmit peer body rs).result := by
  have h354 : ∀ lines, answered 2 (.ok (354, lines)) ≠ true := fun _ => by simp [answered, hundreds]
  rcases hdata : peer.data with err | ⟨code, lines⟩
  · rw [transmit_noReply hdata]
    exact Envelope.tells_error ⟨hpre, by simp [Exchange.late]⟩ rfl ⟨_, mem_cons_self, rfl⟩
      (by simp [answered]) (by simp)
  by_cases hcode : code = 354
  swap
  · rw [transmit_refused hdata hcode]
    refine Envelope.tells_ok ⟨hpre, by simp [Exchange.late]⟩ h.2 (by simp [overrule, h.1])
      (by simp [Exchange.torn, Except.isOk, Except.toBool]) (fun k _ => h.overrule_turned _) (fun k r h2 hr => ?_)
      (by simp)
    rw [h.overrule_admitted h2 hr]
    simp [refusal, answered, Exchange.word, sublist_cons_iff, filterMap_cons]
  subst hcode
  rcases hwrite : peer.write with err | ⟨⟩
  · rw [transmit_broken hdata hwrite]
    exact Envelope.tells_error ⟨hpre, by simp [Exchange.late]⟩ rfl
      ⟨_, mem_cons_of_mem _ mem_cons_self, rfl⟩ (by simpa using h354 lines) (by simp)
  rw [transmit_written hdata hwrite]
  obtain ⟨tail, htail⟩ : ∃ tail, tail = [Exchange.data (.ok (354, lines)),
    .body c.channel (wireText body) (.ok ()), .finish peer.finish] := ⟨_, rfl⟩
  have hlate : Envelope pre tail := ⟨hpre, by simp [htail, Exchange.late]⟩
  have hdata2 : ∀ r, .data r ∈ tail → answered 2 r ≠ true := fun r hmem => by
    obtain rfl : r = .ok (354, lines) := by simpa [htail] using hmem
    exact h354 lines
  rw [← htail]
  rcases hfinish : peer.finish with err | ⟨code, lines'⟩ <;> rw [hfinish] at htail
  · exact hlate.tells_error rfl ⟨.finish (.error err), by simp [htail], rfl⟩ hdata2 (by simp [htail, answered])
  have htorn : ∀ e ∈ tail, e.torn = false := by simp [htail, Exchange.torn, Except.isOk, Except.toBool]
  have hexcl : ∀ r channel, .data r ∈ tail → answered 2 r = true → .body channel (wireText body) (.ok ()) ∉ tail :=
    fun r _ hmem h2 => absurd h2 (hdata2 r hmem)
  by_cases hcode : hundreds code = 2
  · simp only [if_neg (not_not.mpr hcode)]
    refine hlate.tells_ok h.2 h.1 htorn (fun k _ _ => rfl) (fun k r h2 hr => ?_) hexcl
    have hcode₂ : hundreds r.code = 2 := of_decide_eq_true ((h.accepted hr).trans h2)
    refine ⟨iff_of_true hcode₂ (.inl ⟨c.channel, .ok (code, lines'), ?_, ?_⟩), absurd hcode₂⟩
    · simp [htail]
    · simp [answered, hcode]
  · simp only [if_pos (show hundreds code ≠ 2 from hcode)]
    refine hlate.tells_ok h.2 (by simp [overrule, h.1]) htorn (fun k _ => h.overrule_turned _)
      (fun k r h2 hr => ?_) hexcl
    rw [h.overrule_admitted h2 hr]
    refine ⟨iff_of_false hcode ?_, fun _ => ?_⟩
    · rintro (⟨channel, r', hsub, h2'⟩ | ⟨r', hmem, h2'⟩)
      · obtain rfl : r' = .ok (code, lines') := by
          simpa [htail] using hsub.mem (mem_cons_of_mem _ mem_cons_self)
        exact hcode (of_decide_eq_true h2')
      · exact hdata2 r' hmem h2'
    · simp [htail, refusal, answered, Exchange.word, filterMap_cons]

end Deliver

/-- What the envelope ends in agrees with the transcript. -/
theorem tells_envelope (peer : Peer) (rcpts : List Str) (body : Str) {pre : List Exchange}
    (hpre : ∀ e ∈ pre, e.affirms = true) :
    Tells (wireText body) rcpts.length (pre ++ (c.envelope peer rcpts body).events)
      (c.envelope peer rcpts body).result := by
  unfold Client.envelope
  rcases rcptAll_cases peer rcpts 0 with ⟨f, hrs, hperm, e, he, htorn⟩ | ⟨rs, hrs, hev, h⟩
  · rw [Attempt.bind_error hrs]
    have hearly : ∀ e ∈ pre ++ (rcptAll peer 0 rcpts).events, e.late = false := fun e he => by
      rcases mem_append.mp he with he | he
      · have := hpre e he
        cases e <;> simp_all [Exchange.affirms, Exchange.late]
      · obtain ⟨k, path, r, rfl⟩ := mem_rcptAll he
        rfl
    refine tells_of_error fun j _ => ?_
    rw [hperm]
    refine ⟨?_, iff_of_false (by simp) fun href => ?_⟩
    · rintro (⟨path, r, channel, r', hsub, -⟩ | ⟨path, r, r', hsub, -⟩)
      · cases hearly _ (hsub.mem (mem_cons_of_mem _ mem_cons_self))
      · cases hearly _ (hsub.mem (mem_cons_of_mem _ mem_cons_self))
    · simp [href.1 e (mem_append_right _ he)] at htorn
  · simp only [Nat.zero_add] at h
    rw [Attempt.bind_ok hrs]
    dsimp only
    rw [hev, ← append_assoc]
    split
    · rename_i hnone
      have hturned : ∀ k < rcpts.length, answered 2 (peer.rcpt k) ≠ true := fun k hk h2 => by
        obtain ⟨r, hr⟩ : ∃ r, rs[k]? = some r := ⟨_, getElem?_eq_getElem (h.1.symm ▸ hk)⟩
        have hacc := (Answers.accepted h hr).trans h2
        simp [List.any_eq_false] at hnone
        exact absurd hacc (by simp [hnone r (mem_of_getElem? hr)])
      refine Envelope.tells_ok ⟨hpre, ?_⟩ h.2 h.1 ?_ (fun k _ _ => rfl) (fun k r h2 hr => ?_) ?_
      · simp [Attempt.emit, Exchange.late, Bind.bind, Attempt.bind, pure]
      · simp [Attempt.emit, Exchange.torn, Bind.bind, Attempt.bind, pure]
      rotate_left
      · simp [Attempt.emit, Bind.bind, Attempt.bind, pure]
      · exact absurd h2 (hturned k (h.1 ▸ (List.getElem?_eq_some_iff.mp hr).1))
    · exact tells_transmit c body hpre h

end Mailezine.Mailsmtp
