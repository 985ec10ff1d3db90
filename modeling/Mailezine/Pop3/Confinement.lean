import Mailezine.Pop3.Session

/-! Account confinement of a POP3 session.

    `confined` reads a run's events in order and keeps the account of the latest login: every entry
    the session shows, every message it opens and every message QUIT deletes has to belong to the
    INBOX of that account. The invariant `Inv` ties the account to the session's separate fields
    (user name, authenticated bit, message list, deletion marks); each command keeps it except one.
    USER is accepted after a login too and replaces the account name under the listed messages
    (AUTH, its sibling, is refused there), so the run theorem asks that no command redirects the
    session in this way. -/

namespace Mailezine.Pop3
open Gostd List

/-- The account of the latest login, `cur` before the first one. -/
def lastLogin : Option Str → List Event → Option Str
  | cur, [] => cur
  | _, .login a :: es => lastLogin (some a) es
  | cur, _ :: es => lastLogin cur es

/-- What one event may touch when the latest login was `cur`. -/
def Event.within (cur : Option Str) : Event → Bool
  | .reply _ => true
  | .login _ => true
  | .shows m => cur = some m.owner
  | .opens a m => cur = some a && cur = some m.owner
  | .deletes a uids ms =>
    cur = some a && uids.all (fun u => ms.any (·.uid = u)) && ms.all (cur = some ·.owner)

/-- Every event stays within the account of the latest login before it. -/
def confined : Option Str → List Event → Bool
  | _, [] => true
  | cur, e :: es => e.within cur && confined (lastLogin cur [e]) es

/-- The session is authenticated and the command is a USER that names another account. -/
def redirects (s : Session) (c : Cmd) : Bool :=
  s.authed && match fields (trimCRLF c.line) with
    | [word, name] => Verb.of word = .user && name ≠ s.user
    | _ => false

/-- No command of the run redirects the session it finds. -/
def steady (srv : Server) : Session → List Cmd → Bool
  | _, [] => true
  | s, c :: cs => !redirects s c &&
    match readLine [c.line] with
    | none => true
    | some (line, _) =>
      if line = [] then steady srv s cs
      else
        let out := handle srv s c line
        out.stop || steady srv out.ses cs

/-- The session's fields agree with the latest login. -/
structure Inv (cur : Option Str) (s : Session) : Prop where
  fresh : s.authed = false → s.msgs = []
  account : s.authed = true → cur = some s.user
  owner : s.authed = true → ∀ m ∈ s.msgs, m.owner = s.user
  marked : ∀ u ∈ s.deleted, ∃ m ∈ s.msgs, m.uid = u

/-- What a command has to achieve: its events are confined and the invariant holds after them. -/
def Good (cur : Option Str) (out : Out) : Prop :=
  confined cur out.events = true ∧ Inv (lastLogin cur out.events) out.ses

/-! ### Traces -/

theorem lastLogin_append (cur : Option Str) :
    ∀ es fs : List Event, lastLogin cur (es ++ fs) = lastLogin (lastLogin cur es) fs
  | [], _ => rfl
  | e :: es, fs => by
    cases e <;> simp only [cons_append, lastLogin] <;> exact lastLogin_append _ es fs

theorem lastLogin_cons (cur : Option Str) (e : Event) (es : List Event) :
    lastLogin cur (e :: es) = lastLogin (lastLogin cur [e]) es :=
  lastLogin_append cur [e] es

theorem confined_append (cur : Option Str) : ∀ es fs : List Event, confined cur (es ++ fs) =
      (confined cur es && confined (lastLogin cur es) fs)
  | [], _ => by simp [confined, lastLogin]
  | e :: es, fs => by
    simp only [cons_append, confined]
    rw [confined_append (lastLogin cur [e]) es fs, lastLogin_cons cur e es, Bool.and_assoc]

variable {cur : Option Str} {out : Out} {s : Session} {m : Message}

/-- Events that are no login and each stay within the account leave it as it is. -/
theorem confined_of_within : ∀ {es : List Event}, (∀ e ∈ es, e.within cur = true ∧ ∀ a, e ≠ .login a) →
    confined cur es = true ∧ lastLogin cur es = cur
  | [], _ => ⟨rfl, rfl⟩
  | e :: es, h => by
    obtain ⟨hw, hl⟩ := h e (by simp)
    have he : lastLogin cur [e] = cur := by
      cases e with
      | login a => exact absurd rfl (hl a)
      | _ => rfl
    have htail : ∀ f ∈ es, f.within cur = true ∧ ∀ a, f ≠ .login a := fun f hf => h f (by simp [hf])
    obtain ⟨hc, hcur⟩ := confined_of_within htail
    have hcons : lastLogin cur (e :: es) = cur := by rw [lastLogin_cons, he, hcur]
    refine ⟨?_, hcons⟩
    simp only [confined, he, hw, hc, Bool.and_self]

/-- A command whose events are no logins. -/
theorem good_of_within (hs : Inv cur out.ses)
    (h : ∀ e ∈ out.events, e.within cur = true ∧ ∀ a, e ≠ .login a) : Good cur out := by
  obtain ⟨hc, hcur⟩ := confined_of_within h
  exact ⟨hc, by rw [hcur]; exact hs⟩

theorem good_say (hs : Inv cur s) (line : Str) : Good cur (s.say line) :=
  good_of_within hs (by simp [Session.say, Event.within])

theorem good_hangup (hs : Inv cur s) (line : Str) : Good cur (s.hangup [.reply line]) :=
  good_of_within hs (by simp [Session.hangup, Event.within])

/-- A prompt in front of a good outcome. -/
theorem Good.ask (h : Good cur out) (line : Str) : Good cur { out with events := .reply line :: out.events } :=
  ⟨by simpa [confined, Event.within, lastLogin] using h.1, h.2⟩

/-! ### Logins -/

/-- Before a login the account name and the half-read credentials are free. -/
theorem Inv.rename (hs : Inv cur s) (ha : s.authed = false) (user authUser : Str) (tlsUp : Bool) :
    Inv cur { s with user := user, authUser := authUser, tlsUp := tlsUp } :=
  ⟨hs.fresh, fun h => by simp [ha] at h, fun h => by simp [ha] at h, hs.marked⟩

/-- A successful login lists the session's own account on top of what is already its own. -/
theorem good_tryLogin (hs : Inv cur s) (srv : Server)
    (ans : Answers) (password : Str) : Good cur (tryLogin srv ans s password) := by
  unfold tryLogin
  cases hl : login srv ans s password with
  | none => exact good_say hs _
  | some s' =>
    unfold login at hl
    split_ifs at hl
    obtain ⟨msgs, -, rfl⟩ := Option.map_eq_some_iff.mp hl
    refine ⟨rfl, ⟨by simp, fun _ => rfl, ?_, by simp⟩⟩
    intro _ m hm
    simp only [mem_insertionSort, mem_append, List.mem_map] at hm
    rcases hm with hm | ⟨p, -, rfl⟩
    · cases ha : s.authed with
      | true => exact hs.owner ha m hm
      | false => rw [hs.fresh ha] at hm; cases hm
    · rfl

theorem good_authPlain (hs : Inv cur s) (ha : s.authed = false)
    (srv : Server) (ans : Answers) (token : Str) : Good cur (authPlain srv ans s token) := by
  have hgo : ∀ user pass : Str, Good cur (if user = [] then
      s.say (ascii "-ERR malformed credentials")
      else tryLogin srv ans { s with user := user } pass) := by
    intro user pass
    split
    · exact good_say hs _
    · exact good_tryLogin (hs.rename ha user s.authUser s.tlsUp) srv ans pass
  unfold authPlain
  split
  · exact good_say hs _
  · dsimp only
    split
    · exact hgo _ _
    · exact hgo _ _
    · exact good_say hs _

theorem good_authLoginPassword (hs : Inv cur s)
    (ha : s.authed = false) (srv : Server) (ans : Answers) (more : List Str) :
    Good cur (authLoginPassword srv ans s more) := by
  unfold authLoginPassword
  dsimp only
  split
  · exact good_hangup hs _
  · refine Good.ask ?_ _
    split
    · exact good_say hs _
    · exact good_tryLogin (hs.rename ha s.authUser [] s.tlsUp) srv ans _

theorem good_handleAuth (hs : Inv cur s) (srv : Server)
    (ans : Answers) (fields more : List Str) : Good cur (handleAuth srv ans s fields more) := by
  unfold handleAuth
  by_cases ha : s.authed = true
  · rw [if_pos ha]; exact good_say hs _
  rw [if_neg ha]
  have ha' : s.authed = false := by simpa using ha
  have hpw : ∀ u more, Good cur (authLoginPassword srv ans { s with authUser := u } more) :=
    fun u more => good_authLoginPassword (hs.rename ha' s.user u s.tlsUp) ha' srv ans more
  split
  · exact good_say hs _
  split
  · split
    · -- PLAIN, with the response inline or asked for
      split
      · exact good_authPlain hs ha' srv ans _
      · dsimp only
        split
        · exact good_hangup hs _
        · exact (good_authPlain hs ha' srv ans _).ask _
    · split
      · -- LOGIN, with the user name inline or asked for
        split
        · split
          · exact good_say hs _
          · exact hpw _ _
        · dsimp only
          split
          · exact good_hangup hs _
          · refine Good.ask ?_ _
            split
            · exact good_say hs _
            · exact hpw _ _
      · exact good_say hs _
  · exact good_say hs _

/-! ### Commands on the message list -/

theorem messageAt_mem {idx : Int} (h : s.messageAt idx = some m) : m ∈ s.msgs := by
  unfold Session.messageAt at h
  split at h
  · cases h
  · exact mem_of_getElem? (Option.eq_some_of_filter_eq_some h)

theorem message_mem {fields : List Str} (h : s.message fields = some m) : m ∈ s.msgs := by
  unfold Session.message at h
  split at h
  · obtain ⟨idx, -, hm⟩ := Option.bind_eq_some_iff.mp h
    exact messageAt_mem hm
  · cases h

/-- After a login every list entry belongs to the account. -/
theorem Inv.within (hs : Inv cur s) (ha : s.authed = true) (hm : m ∈ s.msgs) :
    cur = some s.user ∧ cur = some m.owner :=
  ⟨hs.account ha, by rw [hs.owner ha m hm]; exact hs.account ha⟩

theorem good_needAuth (hs : Inv cur s) (h : s.authed = true → Good cur out) : Good cur (s.needAuth out) := by
  unfold Session.needAuth
  cases ha : s.authed with
  | false => exact good_say hs _
  | true => exact h ha

/-- An event that shows, opens or writes about an entry of the session. -/
def Event.own (s : Session) : Event → Prop
  | .reply _ => True
  | .shows m => m ∈ s.msgs
  | .opens account m => account = s.user ∧ m ∈ s.msgs
  | _ => False

/-- A command that keeps the session and whose events are about its entries. -/
theorem good_read (hs : Inv cur s) (ha : s.authed = true) {es : List Event} (h : ∀ e ∈ es, e.own s) :
    Good cur ⟨s, es, false⟩ := by
  refine good_of_within hs fun e he => ?_
  have hown := h e he
  cases e with
  | reply l => simp [Event.within]
  | shows m => simp [Event.within, ← (hs.within ha hown).2]
  | opens account m =>
    obtain ⟨rfl, hm⟩ := hown
    simp [Event.within, ← (hs.within ha hm).2, ← (hs.within ha hm).1]
  | login | deletes => exact hown.elim

theorem mem_numbered {ms : List Message} {p : Nat × Message} (h : p ∈ numbered ms) : p.2 ∈ ms := by
  obtain ⟨q, hq, rfl⟩ := List.mem_map.mp h
  exact fst_mem_of_mem_zipIdx hq

theorem good_handleStat (hs : Inv cur s) : Good cur (handleStat s) := by
  refine good_needAuth hs fun ha => good_read hs ha fun e he => ?_
  rcases mem_append.mp he with he | he
  · obtain ⟨m, hm, rfl⟩ := List.mem_map.mp he
    exact mem_of_mem_filter hm
  · rw [mem_singleton.mp he]
    trivial

/-- The short form of LIST and UIDL: one entry, picked by its index. -/
theorem messageAt_of_bind {arg : Str} {idx : Int}
    (h : ((atoi arg).bind fun i => (s.messageAt i).map fun m => (i, m)) = some (idx, m)) : m ∈ s.msgs := by
  obtain ⟨i, -, hi⟩ := Option.bind_eq_some_iff.mp h
  obtain ⟨m', hm', he⟩ := Option.map_eq_some_iff.mp hi
  cases he
  exact messageAt_mem hm'

section
variable (hs : Inv cur s)
include hs

theorem good_entry (ha : s.authed = true) (hm : m ∈ s.msgs) (line : Str) :
    Good cur ⟨s, [.shows m, .reply line], false⟩ :=
  good_read hs ha (by simp [Event.own, hm])

/-- The long form: some of the entries, each with a line about it. -/
theorem good_rows (ha : s.authed = true) {rows : List (Nat × Message)} (h : ∀ p ∈ rows, p ∈ numbered s.msgs)
    (head : Str) (line : Nat × Message → Str) :
    Good cur ⟨s, .reply head :: rows.flatMap (fun p => [.shows p.2, .reply (line p)]) ++ [.reply (ascii ".")],
      false⟩ := by
  refine good_read hs ha ?_
  simp only [mem_append, mem_cons, mem_flatMap, not_mem_nil, or_false]
  rintro e ((rfl | ⟨p, hp, rfl | rfl⟩) | rfl)
  · trivial
  · exact mem_numbered (h p hp)
  · trivial
  · trivial

theorem good_handleList (fields : List Str) : Good cur (handleList s fields) := by
  refine good_needAuth hs fun ha => ?_
  split
  · split
    · exact good_say hs _
    · rename_i idx m h
      exact good_entry hs ha (messageAt_of_bind h) _
  · exact good_rows hs ha (fun p hp => mem_of_mem_filter hp) _ _

theorem good_handleUIDL (fields : List Str) : Good cur (handleUIDL s fields) := by
  refine good_needAuth hs fun ha => ?_
  split
  · split
    · exact good_say hs _
    · rename_i idx m h
      exact good_entry hs ha (messageAt_of_bind h) _
  · exact good_rows hs ha (fun p hp => hp) _ _

/-- RETR and TOP open one entry and then only write lines. -/
theorem good_open (ha : s.authed = true) (hm : m ∈ s.msgs) (lines : List Str) :
    Good cur ⟨s, .opens s.user m :: lines.map .reply, false⟩ :=
  good_read hs ha (by simp [Event.own, hm])

theorem good_handleRetr (ans : Answers)
    (fields : List Str) : Good cur (handleRetr ans s fields) := by
  refine good_needAuth hs fun ha => ?_
  split
  · exact good_say hs _
  · rename_i m h
    have hm := message_mem h
    split
    · exact good_open hs ha hm [_]
    · rename_i body _
      have := good_open hs ha hm
        ((ascii "+OK " ++ decimal m.size ++ ascii " octets") :: dotCopy body ++ [ascii "."])
      simpa using this

theorem good_handleTop (ans : Answers)
    (fields : List Str) : Good cur (handleTop ans s fields) := by
  refine good_needAuth hs fun ha => ?_
  split
  · split
    · exact good_say hs _
    · rename_i m h
      obtain ⟨idx, -, hi⟩ := Option.bind_eq_some_iff.mp h
      have hm := messageAt_mem hi
      split
      · exact good_say hs _
      · rename_i n _
        split
        · exact good_open hs ha hm [_]
        · rename_i body _
          have := good_open hs ha hm ((ascii "+OK top of message " ++
            decimal (s.messageIndex m.uid)) :: topLines n false 0 (rawLines body) ++ [ascii "."])
          simpa using this
  · exact good_say hs _

theorem good_handleDele (fields : List Str) : Good cur (handleDele s fields) := by
  refine good_needAuth hs fun _ => ?_
  split
  · exact good_say hs _
  · rename_i m h
    have hm := message_mem h
    split
    · exact good_say hs _
    · refine good_say (s := { s with deleted := m.uid :: s.deleted })
        ⟨hs.fresh, hs.account, hs.owner, ?_⟩ _
      intro u hu
      rcases mem_cons.mp hu with rfl | hu
      · exact ⟨m, hm, rfl⟩
      · exact hs.marked u hu

theorem good_quit : Good cur ⟨s, commit s ++ [.reply (ascii "+OK bye")], true⟩ := by
  refine good_of_within hs fun e he => ?_
  rcases mem_append.mp he with he | he
  · unfold commit at he
    split at he
    · cases he
    · rename_i hn
      have ha : s.authed = true := by by_contra h; exact hn (Or.inl (by simpa using h))
      obtain rfl := mem_singleton.mp he
      simp only [Event.within, Bool.and_eq_true, decide_eq_true_eq, List.all_eq_true,
        List.any_eq_true, mem_filter, contains_iff_mem]
      refine ⟨⟨⟨hs.account ha, ?_⟩, fun m hm => (hs.within ha hm.1).2⟩, by simp⟩
      intro u hu
      obtain ⟨m, hm, rfl⟩ := hs.marked u hu
      exact ⟨m, ⟨hm, hu⟩, rfl⟩
  · obtain rfl := mem_singleton.mp he
    simp [Event.within]

theorem good_handleSTLS (srv : Server) (ans : Answers) : Good cur (handleSTLS srv ans s) := by
  unfold handleSTLS
  split
  · exact good_say hs _
  · split
    · exact good_say hs _
    · split
      · exact good_say hs _
      · rename_i ha
        split
        · exact good_hangup hs _
        · exact good_say (hs.rename (by simpa using ha) [] s.authUser true) _

/-! ### Runs -/

/-- One command keeps the invariant and stays confined, unless it redirects the session. -/
theorem good_handle (srv : Server) (c : Cmd)
    (hc : redirects s c = false) : Good cur (handle srv s c (trimCRLF c.line)) := by
  unfold handle
  unfold redirects at hc
  generalize fields (trimCRLF c.line) = fs at hc ⊢
  cases fs with
  | nil => exact good_say hs _
  | cons word args =>
    dsimp only [handleFields]
    cases hv : Verb.of word with
    | quit => exact good_quit hs
    | user =>
      dsimp only
      split
      · rename_i name
        by_cases ha : s.authed = true
        · -- the name is the account's own, so the session is unchanged
          have hn : name = s.user := by simpa [ha, hv] using hc
          subst hn
          exact good_say hs _
        · exact good_say (hs.rename (by simpa using ha) name s.authUser s.tlsUp) _
      · exact good_say hs _
    | auth => exact good_handleAuth hs srv c.ans _ _
    | pass =>
      dsimp only
      split
      · split
        · exact good_say hs _
        · exact good_tryLogin hs srv c.ans _
      · exact good_say hs _
    | stat => exact good_handleStat hs
    | list => exact good_handleList hs _
    | uidl => exact good_handleUIDL hs _
    | retr => exact good_handleRetr hs c.ans _
    | top => exact good_handleTop hs c.ans _
    | dele => exact good_handleDele hs _
    | noop => exact good_say hs _
    | rset =>
      exact good_say (s := { s with deleted := [] }) ⟨hs.fresh, hs.account, hs.owner, by simp⟩ _
    | capa =>
      refine good_of_within hs fun e he => ?_
      obtain ⟨l, -, rfl⟩ := List.mem_map.mp he
      simp [Event.within]
    | stls => exact good_handleSTLS hs srv c.ans
    | unknown => exact good_say hs _

end

theorem readLine_eq {l line : Str} {rest : List Str} (h : readLine [l] = some (line, rest)) :
    line = trimCRLF l := by
  simp only [readLine] at h
  split_ifs at h
  simp only [Option.some.injEq, Prod.mk.injEq] at h
  exact h.1.symm

/-- The invariant carries the loop: every run from a session that has it is confined. -/
theorem confined_serve (srv : Server) : ∀ (cs : List Cmd) {cur : Option Str} {s : Session},
    Inv cur s → steady srv s cs = true → confined cur (serve srv s cs) = true
  | [], _, _, _, _ => rfl
  | c :: cs, cur, s, hs, hst => by
    simp only [steady, Bool.and_eq_true, Bool.not_eq_true'] at hst
    obtain ⟨hc, hst⟩ := hst
    unfold serve
    cases hr : readLine [c.line] with
    | none => rfl
    | some p =>
      obtain ⟨line, rest⟩ := p
      simp only [hr] at hst ⊢
      split
      · rename_i hl
        rw [if_pos hl] at hst
        exact confined_serve srv cs hs hst
      · rename_i hl
        rw [if_neg hl] at hst
        obtain ⟨hcf, hinv⟩ := good_handle hs srv c hc
        rw [← readLine_eq hr] at hcf hinv
        rw [confined_append, hcf, Bool.true_and]
        cases hstop : (handle srv s c line).stop with
        | true => rfl
        | false =>
          rw [hstop, Bool.false_or] at hst
          simpa using confined_serve srv cs hinv hst

/-- CONFINED: whatever the services answer, a connection on which no command redirects the
    authenticated session to another account touches only the INBOX of its latest login. -/
theorem run_confined (srv : Server) (tlsUp : Bool) (cs : List Cmd)
    (h : steady srv { tlsUp := tlsUp } cs = true) :
    confined none (run srv { tlsUp := tlsUp } cs) = true := by
  have hinv : Inv none { tlsUp := tlsUp : Session } := ⟨fun _ => rfl, by simp, by simp, by simp⟩
  simpa [run, confined, Event.within, lastLogin] using confined_serve srv cs hinv h

/-- Services that know every account, with one message of UID 1 in each INBOX. -/
def openHouse : Answers where
  authenticate _ _ := true
  directoryUser _ := some true
  listMessages _ := some [(1, 3)]
  openMessage user _ := some user

/-- A login, the listed message read, marked and deleted, with the account's own name repeated. -/
def ownCommands : List Cmd :=
  ["USER alice", "PASS pw", "USER alice", "RETR 1", "DELE 1", "QUIT"].map fun line =>
    { line := ascii line, ans := openHouse }

/-- The same login, then USER with another account's name in front of RETR. -/
def foreignCommands : List Cmd :=
  ["USER alice", "PASS pw", "USER bob", "RETR 1"].map fun line =>
    { line := ascii line, ans := openHouse }

theorem run_confined_own : steady {} {} ownCommands = true ∧ confined none (run {} {} ownCommands) = true :=
  ⟨by decide +kernel, run_confined {} false ownCommands (by decide +kernel)⟩

theorem run_not_confined_foreign : confined none (run {} {} foreignCommands) = false := by
  decide +kernel

end Mailezine.Pop3
