import Mailezine.Smtp.Session
import Mailezine.Schemes.Threads

/-! In whose name a session submits, and to whom.

    The sender is checked against the user when MAIL is called, and each recipient when RCPT is. Nothing
    is checked again at DATA, so a login that comes after MAIL gives the session a user that the sender
    was never checked for. The protocol forbids a login during a transaction; the session does not. -/

namespace Mailezine.Smtp
open Gostd Schemes Delivery Directory List

/-- A call with the session that it found and what it did. -/
structure Turn where
  before : Session
  call : Call
  done : Attempt Event Error Session

/-- The calls of a run, one after the other. -/
def turns (b : Backend) : Session → List Call → List Turn
  | _, [] => []
  | s, c :: cs => ⟨s, c, s.call b c⟩ :: turns b (s.step b c) cs

/-- The user of a login. -/
def Event.login : Event → Option Str
  | .authenticated user => some user
  | _ => none

/-- The user of the latest login. -/
def loginOf (hist : List Turn) : Option Str :=
  ((hist.flatMap (·.done.events)).filterMap Event.login).getLast?

/-- The directory was asked and let the user send as the address. -/
def Granted (b : Backend) (hist : List Turn) (user sender : Str) : Prop :=
  ∃ t ∈ hist, ∃ ans, .sender user sender (.ok ans) ∈ t.done.events ∧ permits b sender ans = true

/-- The recipient was accepted, because it is local or because the session was trusted and may relay. -/
def Vouched (b : Backend) (hist : List Turn) (rcpt : Str) : Prop :=
  ∃ t ∈ hist, t.done.result = .ok (t.before.accept rcpt) ∧
    ((∃ targets, .aliases rcpt (.ok targets) ∈ t.done.events) ∨ t.before.trusted = true ∧ b.allowRelay = true)

/-- What a call hands to Submit is covered by the calls before it. -/
def Authorized (b : Backend) (hist : List Turn) (t : Turn) : Prop :=
  ∀ user sender rcpts data effects, .submitted user sender rcpts data effects ∈ t.done.events →
    (∀ u, loginOf hist = some u → Granted b hist u sender) ∧ ∀ rcpt ∈ rcpts, Vouched b hist rcpt

/-! ### What each call does -/

section Calls
variable {b : Backend} {s s' : Session}

theorem auth_ok {mech username : Str} {answer : Except Str Bool} (h : (s.auth mech username answer).result = .ok s') :
    answer = .ok true ∧ s' = { s with user := username, trusted := true } ∧
      (s.auth mech username answer).events = [.authenticated username] := by
  unfold Session.auth at h ⊢
  split_ifs at h ⊢
  · cases h
  · match answer, h with
    | .ok true, h => exact ⟨rfl, (Except.ok.inj h).symm, rfl⟩

theorem auth_error {mech username : Str} {answer : Except Str Bool} {e : Error}
    (h : (s.auth mech username answer).result = .error e) : (s.auth mech username answer).events = [] := by
  unfold Session.auth at h ⊢
  split_ifs at h ⊢
  · rfl
  · match answer, h with
    | .ok false, _ => rfl
    | .error _, _ => rfl

variable {dir : Service} {sender : Str}

theorem checkSender_ok (h : (checkSender b s sender dir).failed = false) (hu : s.user ≠ []) :
    ∃ ans, .sender s.user sender (.ok ans) ∈ (checkSender b s sender dir).events ∧ permits b sender ans = true := by
  unfold checkSender at h ⊢
  rw [if_pos hu] at h ⊢
  obtain ⟨_, -, h, hev⟩ := Attempt.ok_of_bind h
  rw [hev]
  cases hans : dir.sender s.user sender with
  | ok ans =>
    refine ⟨ans, by simp [Attempt.emit], ?_⟩
    by_contra hp
    rw [hans] at h
    simp only [if_neg hp] at h
    split_ifs at h <;> simp at h
  | error err =>
    rw [hans] at h
    cases err <;> simp at h

theorem mail_ok (h : (s.mail b sender dir).result = .ok s') : s' = { s with sender := sender, rcpts := [] } ∧
      (s.user ≠ [] → ∃ ans, .sender s.user sender (.ok ans) ∈ (s.mail b sender dir).events ∧
        permits b sender ans = true) := by
  unfold Session.mail at h ⊢
  split_ifs at h ⊢
  · cases h
  · cases h
  · obtain ⟨_, hrate, hrest, hev⟩ := Attempt.ok_of_bind (Attempt.failed_of_ok h)
    obtain ⟨_, hsender, -, hev'⟩ := Attempt.ok_of_bind hrest
    refine ⟨?_, fun hu => ?_⟩
    · rw [Attempt.bind_ok hrate, Attempt.bind_ok hsender] at h
      exact (Except.ok.inj h).symm
    · obtain ⟨ans, hans, hp⟩ := checkSender_ok (Attempt.failed_of_ok hsender) hu
      exact ⟨ans, by rw [hev, hev']; simp [hans], hp⟩

theorem relay_ok {rcpt : Str} (h : (s.relay b rcpt).result = .ok s') :
    s' = s.accept rcpt ∧ s.trusted = true ∧ b.allowRelay = true := by
  unfold Session.relay at h
  split_ifs at h with hr
  · exact ⟨(Except.ok.inj h).symm, hr.2, hr.1⟩
  · cases h

theorem rcpt_ok {addr : Str} (h : (s.rcpt b addr dir).result = .ok s') :
    ∃ rcpt, s' = s.accept rcpt ∧ ((∃ targets, .aliases rcpt (.ok targets) ∈ (s.rcpt b addr dir).events) ∨
      s.trusted = true ∧ b.allowRelay = true) := by
  unfold Session.rcpt at h ⊢
  split_ifs at h ⊢
  · cases h
  · cases h
  · dsimp only at h ⊢
    cases hal : dir.aliases (restore dir addr) with
    | ok targets =>
      rw [hal] at h
      exact ⟨_, (Except.ok.inj h).symm, .inl ⟨targets, by simp [Attempt.bind_ok, Attempt.emit]⟩⟩
    | error err =>
      rw [hal] at h
      cases err with
      | other text => cases h
      | notFound =>
        cases hbase : splitDelimited (restore dir addr) b.recipientDelimiter with
        | none =>
          rw [hbase] at h
          obtain ⟨rfl, hr⟩ := relay_ok h
          exact ⟨_, rfl, .inr hr⟩
        | some base =>
          rw [hbase] at h
          cases hal' : dir.aliases base with
          | error err =>
            simp only [hal'] at h
            obtain ⟨rfl, hr⟩ := relay_ok h
            exact ⟨_, rfl, .inr hr⟩
          | ok targets =>
            simp only [hal'] at h
            refine ⟨base, (Except.ok.inj h).symm, .inl ⟨targets, ?_⟩⟩
            simp only [hal']
            exact mem_append_right _ (mem_append_left _ (by simp [Attempt.emit]))

/-- MAIL asks whether the user may send as the address, and nothing else. -/
theorem events_mail (sender : Str) (dir : Service) :
    ∀ e ∈ (s.mail b sender dir).events, ∃ ans, e = .sender s.user sender ans := by
  unfold Session.mail
  split_ifs
  · simp
  · simp
  · refine Attempt.forall_events_bind ?_ fun _ => Attempt.forall_events_bind ?_ fun _ e he => nomatch he
    · intro e he
      unfold checkRate at he
      split at he
      · split at he
        · cases he
        · cases he
        · split_ifs at he <;> cases he
      · cases he
    · unfold checkSender
      split
      · refine Attempt.forall_events_bind ?_ fun _ e he => ?_
        · simp [Attempt.emit]
        · split at he
          · split_ifs at he <;> cases he
          · cases he
          · cases he
      · intro e he
        cases he

/-- RCPT looks up addresses, and nothing else. -/
theorem events_rcpt (addr : Str) (dir : Service) :
    ∀ e ∈ (s.rcpt b addr dir).events, ∃ rcpt ans, e = .aliases rcpt ans := by
  have hrelay : ∀ r, ∀ e ∈ (s.relay b r).events, ∃ rcpt ans, e = .aliases rcpt ans := by
    intro r e he
    unfold Session.relay at he
    split_ifs at he <;> cases he
  have hask : ∀ r ans', ∀ e ∈ (Attempt.emit [.aliases r ans'] : Attempt Event Error Unit).events,
      ∃ rcpt ans, e = .aliases rcpt ans := by
    simp [Attempt.emit]
  unfold Session.rcpt
  split_ifs
  · simp
  · simp
  · refine Attempt.forall_events_bind (hask _ _) fun _ => ?_
    split
    · intro e he
      cases he
    · split
      · refine Attempt.forall_events_bind (hask _ _) fun _ => ?_
        split
        · intro e he
          cases he
        · exact hrelay _
      · exact hrelay _
    · simp

/-- DATA submits the envelope of the session, and nothing else. -/
theorem events_data (submit : Option Submit) (body : Except ReadError Str) :
    ∀ e ∈ (s.data submit body).events, ∃ data effects, e = .submitted s.user s.sender s.rcpts data effects := by
  intro e he
  unfold Session.data at he
  split_ifs at he
  · simp at he
  · match submit, body, he with
    | none, _, he => cases he
    | some _, .error err, he => cases err <;> cases he
    | some _, .ok _, he =>
      rcases mem_append.mp he with he | he
      · cases he
      · rcases mem_append.mp he with he | he
        · exact ⟨_, _, mem_singleton.mp he⟩
        · cases he

theorem events_call_data (submit : Option Submit) (body : Except ReadError Str) :
    ∀ e ∈ (s.call b (.data submit body)).events,
      ∃ data effects, e = .submitted s.user s.sender s.rcpts data effects :=
  Attempt.forall_events_bind (events_data submit body) fun _ _ he => nomatch he

/-- DATA leaves the session. -/
theorem step_data (submit : Option Submit) (body : Except ReadError Str) : s.step b (.data submit body) = s := by
  cases hr : (s.data submit body).result with
  | error e => exact Session.after_error (congrArg Attempt.result (Attempt.bind_error hr fun _ => pure s))
  | ok _ => exact Session.after_ok (congrArg Attempt.result (Attempt.bind_ok hr fun _ => pure s))

/-- Only DATA submits, and it submits the envelope of the session. -/
theorem submitted_of_call {c : Call} {user : Str} {rcpts : List Str} {data : Str}
    {effects : List Delivery.Event} (h : .submitted user sender rcpts data effects ∈ (s.call b c).events) :
    (∃ submit body, c = .data submit body) ∧ user = s.user ∧ sender = s.sender ∧ rcpts = s.rcpts := by
  cases c with
  | auth mech username answer =>
    cases hr : (s.auth mech username answer).result with
    | error e =>
      rw [show (s.call b (.auth mech username answer)).events = [] from auth_error hr] at h
      cases h
    | ok s' =>
      rw [show (s.call b (.auth mech username answer)).events = _ from (auth_ok hr).2.2] at h
      cases mem_singleton.mp h
  | mail addr dir =>
    obtain ⟨_, he⟩ := events_mail addr dir _ h
    cases he
  | rcpt addr dir =>
    obtain ⟨_, _, he⟩ := events_rcpt addr dir _ h
    cases he
  | data submit body =>
    obtain ⟨_, _, he⟩ := events_call_data submit body _ h
    cases he
    exact ⟨⟨submit, body, rfl⟩, rfl, rfl, rfl⟩
  | reset => cases h

end Calls

/-! ### Transactions -/

/-- A session, and whether a transaction is open: MAIL was accepted and nothing has reset it since. -/
structure Dialogue where
  session : Session
  opened : Bool := false

def Dialogue.step (b : Backend) (d : Dialogue) (c : Call) : Dialogue where
  session := d.session.step b c
  opened := match c with
    | .mail sender dir => d.opened || (d.session.mail b sender dir).result.isOk
    | .reset => false
    | _ => d.opened

/-- The order of the protocol: a login names a user and comes outside a transaction, unless it is one of
    the same user; a message of a user comes inside. -/
def Dialogue.allows (d : Dialogue) : Call → Bool
  | .auth _ username (.ok true) => username ≠ [] && (!d.opened || username = d.session.user)
  | .data _ _ => d.opened || d.session.user = []
  | _ => true

/-- What the calls so far say about the session. -/
structure Inv (b : Backend) (hist : List Turn) (d : Dialogue) : Prop where
  login : loginOf hist = if d.session.user = [] then none else some d.session.user
  granted : d.opened = true → d.session.user ≠ [] → Granted b hist d.session.user d.session.sender
  vouched : ∀ rcpt ∈ d.session.rcpts, Vouched b hist rcpt

section Run
variable {b : Backend} {hist : List Turn} {d : Dialogue} {t : Turn}

theorem Granted.append {user sender : Str} (h : Granted b hist user sender) (t : Turn) :
    Granted b (hist ++ [t]) user sender := by
  obtain ⟨t', ht', hans⟩ := h
  exact ⟨t', mem_append_left _ ht', hans⟩

theorem Vouched.append {rcpt : Str} (h : Vouched b hist rcpt) (t : Turn) : Vouched b (hist ++ [t]) rcpt := by
  obtain ⟨t', ht', hacc⟩ := h
  exact ⟨t', mem_append_left _ ht', hacc⟩

theorem loginOf_append (h : ∀ e ∈ t.done.events, e.login = none) : loginOf (hist ++ [t]) = loginOf hist := by
  have hnone : t.done.events.filterMap Event.login = [] := filterMap_eq_nil_iff.mpr h
  simp [loginOf, flatMap_append, filterMap_append, hnone]

theorem loginOf_authenticated {user : Str} (h : t.done.events = [.authenticated user]) :
    loginOf (hist ++ [t]) = some user := by
  simp [loginOf, flatMap_append, filterMap_append, h, Event.login]

section
variable (h : Inv b hist d)
include h

/-- A call that does not log in and leaves the session leaves what is known about it. -/
theorem Inv.idle (ht : ∀ e ∈ t.done.events, e.login = none) : Inv b (hist ++ [t]) d where
  login := (loginOf_append ht).trans h.login
  granted ho hu := (h.granted ho hu).append t
  vouched rcpt hr := (h.vouched rcpt hr).append t

theorem Inv.auth (mech username : Str) (answer : Except Str Bool)
    (hok : d.allows (.auth mech username answer) = true) :
    Inv b (hist ++ [⟨d.session, .auth mech username answer, d.session.call b (.auth mech username answer)⟩])
      (d.step b (.auth mech username answer)) := by
  cases hr : (d.session.auth mech username answer).result with
  | error e =>
    have hstep : d.step b (.auth mech username answer) = d := by
      simp only [Dialogue.step, Session.step, Session.call, Session.after_error hr]
    rw [hstep]
    refine h.idle fun e' he' => ?_
    rw [show (d.session.call b (.auth mech username answer)).events = [] from auth_error hr] at he'
    cases he'
  | ok s' =>
    obtain ⟨rfl, hs', hev⟩ := auth_ok hr
    have hstep : d.step b (.auth mech username (.ok true)) = ⟨s', d.opened⟩ := by
      simp only [Dialogue.step, Session.step, Session.call, Session.after_ok hr]
    rw [hstep, hs']
    simp only [Dialogue.allows, Bool.and_eq_true, decide_eq_true_eq, Bool.or_eq_true, Bool.not_eq_true'] at hok
    refine ⟨?_, fun ho hu => ?_, fun rcpt hrcpt => (h.vouched rcpt hrcpt).append _⟩
    · exact (loginOf_authenticated hev).trans (if_neg hok.1).symm
    · rcases hok.2 with hclosed | rfl
      · exact absurd ho (by simp [hclosed])
      · exact (h.granted ho hu).append _

theorem Inv.mail (sender : Str) (dir : Service) :
    Inv b (hist ++ [⟨d.session, .mail sender dir, d.session.call b (.mail sender dir)⟩])
      (d.step b (.mail sender dir)) := by
  have hlogin : ∀ e ∈ (d.session.call b (.mail sender dir)).events, e.login = none := by
    intro e he
    obtain ⟨_, rfl⟩ := events_mail sender dir e he
    rfl
  cases hr : (d.session.mail b sender dir).result with
  | error e =>
    have hstep : d.step b (.mail sender dir) = d := by
      simp [Dialogue.step, Session.step, Session.call, Session.after_error hr, hr, Except.isOk, Except.toBool]
    rw [hstep]
    exact h.idle hlogin
  | ok s' =>
    obtain ⟨hs', hgrant⟩ := mail_ok hr
    have hstep : d.step b (.mail sender dir) = ⟨s', true⟩ := by
      simp [Dialogue.step, Session.step, Session.call, Session.after_ok hr, hr, Except.isOk, Except.toBool]
    rw [hstep, hs']
    refine ⟨(loginOf_append hlogin).trans h.login, fun _ hu => ?_, by simp⟩
    exact ⟨_, mem_append_right _ (mem_singleton_self _), hgrant hu⟩

theorem Inv.rcpt (addr : Str) (dir : Service) :
    Inv b (hist ++ [⟨d.session, .rcpt addr dir, d.session.call b (.rcpt addr dir)⟩])
      (d.step b (.rcpt addr dir)) := by
  have hidle := h.idle (t := ⟨d.session, .rcpt addr dir, d.session.call b (.rcpt addr dir)⟩) fun e he => by
    obtain ⟨_, _, rfl⟩ := events_rcpt addr dir e he
    rfl
  cases hr : (d.session.rcpt b addr dir).result with
  | error e =>
    have hstep : d.step b (.rcpt addr dir) = d := by
      simp only [Dialogue.step, Session.step, Session.call, Session.after_error hr]
    rw [hstep]
    exact hidle
  | ok s' =>
    obtain ⟨rcpt, rfl, hcover⟩ := rcpt_ok hr
    have hstep : d.step b (.rcpt addr dir) = ⟨d.session.accept rcpt, d.opened⟩ := by
      simp only [Dialogue.step, Session.step, Session.call, Session.after_ok hr]
    rw [hstep]
    refine ⟨hidle.login, hidle.granted, fun r hmem => ?_⟩
    rcases mem_append.mp hmem with hmem | hmem
    · exact hidle.vouched r hmem
    · obtain rfl := mem_singleton.mp hmem
      exact ⟨_, mem_append_right _ (mem_singleton_self _), hr, hcover⟩

theorem Inv.step (c : Call) (hok : d.allows c = true) :
    Inv b (hist ++ [⟨d.session, c, d.session.call b c⟩]) (d.step b c) := by
  cases c with
  | auth mech username answer => exact h.auth mech username answer hok
  | mail sender dir => exact h.mail sender dir
  | rcpt addr dir => exact h.rcpt addr dir
  | data submit body =>
    have hstep : d.step b (.data submit body) = d := by
      simp only [Dialogue.step, step_data]
    rw [hstep]
    refine h.idle fun e he => ?_
    obtain ⟨_, _, rfl⟩ := events_call_data (b := b) submit body e he
    rfl
  | reset =>
    have hlogin : ∀ e ∈ (d.session.call b .reset).events, e.login = none := fun _ he => nomatch he
    exact ⟨(loginOf_append hlogin).trans h.login, fun ho => absurd ho (by simp [Dialogue.step]),
      fun _ hr => nomatch hr⟩

/-- What is submitted is covered. -/
theorem Inv.authorized (c : Call) (hok : d.allows c = true) :
    Authorized b hist ⟨d.session, c, d.session.call b c⟩ := by
  intro user sender rcpts data effects hsub
  obtain ⟨⟨submit, body, rfl⟩, rfl, rfl, rfl⟩ := submitted_of_call hsub
  refine ⟨fun u hu => ?_, h.vouched⟩
  rw [h.login] at hu
  split_ifs at hu with huser
  cases hu
  simp only [Dialogue.allows, Bool.or_eq_true, decide_eq_true_eq] at hok
  exact h.granted (hok.resolve_right huser) huser

end

theorem Inv.run : ∀ (calls : List Call) (hist : List Turn) (d : Dialogue), Inv b hist d →
    steady (Dialogue.step b) Dialogue.allows d calls = true →
    ∀ pre t post, turns b d.session calls = pre ++ t :: post → Authorized b (hist ++ pre) t
  | [], _, _, _, _, pre, t, post, he => by simp [turns] at he
  | c :: cs, hist, d, h, hs, pre, t, post, he => by
    simp only [steady, Bool.and_eq_true] at hs
    cases pre with
    | nil =>
      obtain ⟨rfl, -⟩ := cons.inj he
      rw [append_nil]
      exact h.authorized c hs.1
    | cons t' pre =>
      obtain ⟨rfl, hrest⟩ := cons.inj he
      have hrun := Inv.run cs _ _ (h.step c hs.1) hs.2 pre t post hrest
      rwa [append_assoc] at hrun

end Run

/-- AUTHORITY: in every run in which logins come outside a transaction and messages of a user inside one,
    whatever is submitted is covered by the calls before it. -/
theorem session_authority (b : Backend) (trusted : Bool) (calls : List Call)
    (h : steady (Dialogue.step b) Dialogue.allows { session := { trusted := trusted } } calls = true) :
    ∀ pre t post, turns b { trusted := trusted } calls = pre ++ t :: post → Authorized b pre t :=
  Inv.run calls [] _ ⟨rfl, fun ho => absurd ho (by simp), fun _ hr => absurd hr (by simp)⟩ h

/-- A directory that knows one address, and lets every user send as it. -/
def oneAddress (addr : Str) : Service where
  sender _ email := if email = addr then .ok { allowed := true, addresses := [addr] } else .error .notFound
  aliases rcpt := if rcpt = addr then .ok [addr] else .error .notFound

/-- Two messages of a user, with the login first. -/
theorem session_authority_login :
    let dir := oneAddress (ascii "a@x")
    let done : Submit := fun _ _ _ _ => pure ()
    let message : List Call := [.mail (ascii "a@x") dir, .rcpt (ascii "a@x") dir, .data (some done) (.ok []), .reset]
    let calls := .auth (ascii "PLAIN") (ascii "a@x") (.ok true) :: message ++ message
    steady (Dialogue.step {}) Dialogue.allows { session := {} } calls = true ∧
      ∀ pre t post, turns {} {} calls = pre ++ t :: post → Authorized {} pre t := by
  refine ⟨by decide +kernel, session_authority {} false _ (by decide +kernel)⟩

/-- A login after MAIL: the message goes out in the name of a user for whom the directory was never
    asked about the sender. -/
theorem login_after_mail_spoofs :
    let dir := oneAddress (ascii "a@x")
    let done : Submit := fun _ _ _ _ => pure ()
    let calls : List Call := [.mail (ascii "boss@x") dir, .auth (ascii "PLAIN") (ascii "eve@x") (.ok true),
      .rcpt (ascii "a@x") dir, .data (some done) (.ok [])]
    (∃ pre t, turns {} {} calls = pre ++ [t] ∧ loginOf pre = some (ascii "eve@x") ∧
        t.done.events = [.submitted (ascii "eve@x") (ascii "boss@x") [ascii "a@x"] [] []]) ∧
      ¬∀ pre t post, turns {} {} calls = pre ++ t :: post → Authorized {} pre t := by
  intro dir done calls
  have hne : turns {} {} calls ≠ [] := fun he => nomatch he
  have hcut := (dropLast_append_getLast hne).symm
  have hpre : (turns {} {} calls).dropLast.flatMap (·.done.events) =
      [.authenticated (ascii "eve@x"), .aliases (ascii "a@x") (.ok [ascii "a@x"])] := by decide +kernel
  have hlogin : loginOf (turns {} {} calls).dropLast = some (ascii "eve@x") := by decide +kernel
  have hlast : (turns {} {} calls).getLast?.map (·.done.events) =
      some [.submitted (ascii "eve@x") (ascii "boss@x") [ascii "a@x"] [] []] := by decide +kernel
  rw [getLast?_eq_some_getLast hne, Option.map_some, Option.some_inj] at hlast
  refine ⟨⟨_, _, hcut, hlogin, hlast⟩, fun h => ?_⟩
  have hcover := h _ _ [] hcut (ascii "eve@x") (ascii "boss@x") [ascii "a@x"] [] [] (by rw [hlast]; simp)
  obtain ⟨t, ht, ans, hans, -⟩ := hcover.1 _ hlogin
  have hmem := mem_flatMap_of_mem (f := fun t : Turn => t.done.events) ht hans
  rw [hpre] at hmem
  simp at hmem

end Mailezine.Smtp
