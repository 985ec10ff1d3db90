import Mailezine.Queue.Deliver

/-! What a round records of each recipient, against what the servers said to it.

    The connections of a domain are its own, and the last of them decides: the ones before it ended without
    a word that is final. So the result of a recipient can be read off the transcripts, apart from two
    answers that the deliverer takes for others: DATA answered as if it was the end of the text, and a name
    service that did not know. The results then go through a map from addresses, where the last recipient of
    an address speaks for all of it. -/

namespace Mailezine.Queue
open Gostd Schemes Mailsmtp List

/-! ### Groups -/

/-- Some connection of a group took the text for the recipient. -/
def AcceptedBy (contacts : List Contact) (text : Str) (j : Nat) : Prop := ∃ c ∈ contacts, Accepted j text c.log

/-- Some connection of a group misled the client about the recipient. -/
def MisledBy (contacts : List Contact) (j : Nat) : Prop := ∃ c ∈ contacts, Misled j c.log

/-- The last connection of a group refused the recipient. -/
def RefusedBy (contacts : List Contact) (j : Nat) : Prop :=
  ∃ c, contacts.getLast? = some c ∧ Refused j c.log

/-- What a group of `n` recipients ends in agrees with its connections. -/
structure Agrees (text : Str) (n : Nat) (contacts : List Contact)
    (out : Except (Option Failure) (List Response)) : Prop where
  length : ∀ rs, out = .ok rs → rs.length = n
  accepted : ∀ rs j r, out = .ok rs → rs[j]? = some r →
    (hundreds r.code = 2 ↔ AcceptedBy contacts text j ∨ MisledBy contacts j)
  refused : ∀ rs j r, out = .ok rs → rs[j]? = some r → hundreds r.code ≠ 2 →
    (r.permanent = true ↔ RefusedBy contacts j)
  failed : ∀ f j, out = .error f → j < n → ¬(AcceptedBy contacts text j ∨ MisledBy contacts j) ∧
    (f.any (·.permanent) = true ↔ RefusedBy contacts j)
  exclusive : ∀ i j, i < n → j < n → MisledBy contacts i → ¬AcceptedBy contacts text j

variable {contacts : List Contact} {f : Failure} {refused : Prop}

section Groups
variable {text : Str} {n : Nat}

theorem agrees_of_tells {c : Contact} {out : Except Failure (List Response)} (h : Tells text n c.log out) :
    Agrees text n [c] (out.mapError some) := by
  have hmem : ∀ P : Contact → Prop, (∃ c' ∈ [c], P c') ↔ P c := by simp
  have hlast : ∀ P : Contact → Prop, (∃ c', [c].getLast? = some c' ∧ P c') ↔ P c := by simp
  cases out with
  | error f =>
    refine ⟨fun _ h => (by cases h), fun _ _ _ h => (by cases h), fun _ _ _ h => (by cases h),
      fun g j hg hj => ?_, ?_⟩
    · cases hg
      simpa only [AcceptedBy, MisledBy, RefusedBy, hmem, hlast, Option.any_some] using h.failed f j rfl hj
    · simpa only [AcceptedBy, MisledBy, hmem] using h.exclusive
  | ok rs =>
    refine ⟨fun rs' h' => ?_, fun rs' j r h' hr => ?_, fun rs' j r h' hr hcode => ?_, fun f j h' => (by cases h'), ?_⟩
    · cases h'
      exact h.length rs rfl
    · cases h'
      simpa only [AcceptedBy, MisledBy, hmem] using h.accepted rs j r rfl hr
    · cases h'
      simpa only [RefusedBy, hlast] using h.refused rs j r rfl hr hcode
    · simpa only [AcceptedBy, MisledBy, hmem] using h.exclusive

theorem agrees_nil {last : Option Failure} (hlast : last.any (·.permanent) = false) :
    Agrees text n [] (.error last) := by
  refine ⟨by simp, by simp, by simp, fun f j hf _ => ?_,
    fun i j _ _ hm => ?_⟩
  · cases hf
    simp [AcceptedBy, MisledBy, RefusedBy, hlast]
  · obtain ⟨_, hmem, -⟩ := hm
    cases hmem

/-- Connections that ended without a final word do not matter. -/
theorem Agrees.prepend {front : List Contact} {out : Except (Option Failure) (List Response)}
    (h : Agrees text n contacts out) (hfront : ∀ j < n, ¬(AcceptedBy front text j ∨ MisledBy front j))
    (hlast : contacts ≠ [] ∨ ∀ j < n, ¬RefusedBy front j) : Agrees text n (front ++ contacts) out := by
  have hacc : ∀ j < n, (AcceptedBy (front ++ contacts) text j ↔ AcceptedBy contacts text j) := fun j hj => by
    have := fun h => hfront j hj (.inl h)
    simp only [AcceptedBy, mem_append, or_and_right, exists_or] at this ⊢
    exact or_iff_right this
  have hmis : ∀ j < n, (MisledBy (front ++ contacts) j ↔ MisledBy contacts j) := fun j hj => by
    have := fun h => hfront j hj (.inr h)
    simp only [MisledBy, mem_append, or_and_right, exists_or] at this ⊢
    exact or_iff_right this
  have href : ∀ j < n, (RefusedBy (front ++ contacts) j ↔ RefusedBy contacts j) := fun j hj => by
    rcases eq_nil_or_concat contacts with rfl | ⟨init, last, rfl⟩
    · rw [append_nil]
      exact iff_of_false (hlast.resolve_left (by simp) j hj) (by rintro ⟨_, h, -⟩; cases h)
    · simp [RefusedBy, ← append_assoc]
  refine ⟨h.length, fun rs j r hout hr => ?_, fun rs j r hout hr hcode => ?_, fun f j hout hj => ?_,
    fun i j hi hj => ?_⟩
  · have hj : j < n := h.length rs hout ▸ (List.getElem?_eq_some_iff.mp hr).1
    rw [hacc j hj, hmis j hj]
    exact h.accepted rs j r hout hr
  · have hj : j < n := h.length rs hout ▸ (List.getElem?_eq_some_iff.mp hr).1
    rw [href j hj]
    exact h.refused rs j r hout hr hcode
  · rw [hacc j hj, hmis j hj, href j hj]
    exact h.failed f j hout hj
  · rw [hmis i hi, hacc j hj]
    exact h.exclusive i j hi hj

end Groups

/-! ### One connection -/

/-- A dialogue whose errors are not that of a failed upgrade. -/
def Plain {α : Type} (a : Dialogue α) : Prop := ∀ f, a.result = .error f → f.noTLSUpgrade = false

section Plain
variable {α β : Type}

theorem Plain.bind {a : Dialogue α} {g : α → Dialogue β} (ha : Plain a) (hg : ∀ v, Plain (g v)) :
    Plain (a >>= g) := by
  intro f hf
  cases hr : a.result with
  | error f' =>
    rw [Attempt.bind_error hr] at hf
    cases hf
    exact ha f hr
  | ok v =>
    rw [Attempt.bind_ok hr] at hf
    exact hg v f hf

theorem Plain.wrap {a : Dialogue α} (ha : Plain a) (text : Str) : Plain (a.mapError (Failure.wrap text)) := by
  intro f hf
  cases hr : a.result with
  | ok v => simp [Attempt.mapError, hr, Except.mapError] at hf
  | error e =>
    obtain rfl : Failure.wrap text e = f := by simpa [Attempt.mapError, hr, Except.mapError] using hf
    exact ha e hr

theorem plain_pure (v : α) : Plain (pure v : Dialogue α) := fun f hf => by cases hf

theorem plain_fail (h : f.noTLSUpgrade = false) : Plain (fail f : Dialogue α) := fun g hg => by
  cases hg
  exact h

theorem plain_ask (e : Reply → Exchange) (reply : Reply) : Plain (ask e reply) := fun f hf => by
  cases reply with
  | error err =>
    cases hf
    rfl
  | ok v => cases hf

theorem plain_command (e : Reply → Exchange) (reply : Reply) : Plain (command e reply) := by
  refine (plain_ask e reply).bind fun v => ?_
  split
  split
  · exact plain_fail rfl
  · exact plain_pure _

/-- Without an attempt at TLS there is no failed upgrade. -/
theorem plain_connect (d : SMTPDeliverer) (peer : Peer) (host : Str) (mode : TLSMode) (dane : List TLSA) :
    Plain (connect d peer host mode dane true) := by
  have hgreet : ∀ c : Client, Plain (c.greet peer mode dane true) := fun c => by
    refine (plain_command _ _).bind fun _ => ((plain_command _ _).bind fun _ => plain_pure _).bind fun c => ?_
    rw [if_pos rfl]
    split
    · exact plain_fail rfl
    · exact plain_pure c
  refine Plain.bind (fun f hf => ?_) fun _ => ((hgreet _).wrap _).bind fun c => ?_
  · cases hdial : peer.dial with
    | error err =>
      rw [hdial] at hf
      cases hf
      rfl
    | ok u =>
      rw [hdial] at hf
      cases hf
  · split
    · split
      · exact plain_fail rfl
      · refine Plain.bind (Plain.wrap ?_ _) fun _ => plain_pure c
        unfold Client.authPlain
        split
        · exact plain_fail rfl
        · refine (plain_ask _ _).bind fun v => ?_
          split
          split
          · exact plain_fail rfl
          · exact plain_pure _
    · exact plain_pure c

end Plain

/-- A connection that ended before the first RCPT. -/
theorem tells_of_civil {α : Type} {a : Dialogue α} (hcivil : Civil a) (hplain : Plain a)
    (hr : a.result = .error f) (text : Str) (n : Nat) : Tells text n a.events (.error f) :=
  hcivil.tells hr (hplain f hr) text n

/-- What a connection ends in agrees with its transcript. -/
theorem tells_session {a : Dialogue Client} (hcivil : Civil a) (hplain : Plain a) (peer : Peer) (sender : Str)
    (addrs : List Str) (body : Str) :
    Tells (wireText body) addrs.length (a >>= fun c => c.deliver peer sender addrs body).events
      (a >>= fun c => c.deliver peer sender addrs body).result := by
  cases hr : a.result with
  | error f =>
    rw [Attempt.bind_error hr]
    exact tells_of_civil hcivil hplain hr _ _
  | ok c =>
    rw [Attempt.bind_ok hr, Client.deliver]
    split
    · have hfail : ∀ f : Failure, f.permanent = false → f.noTLSUpgrade = false → Tells (wireText body) addrs.length
          (a.events ++ (fail f : Dialogue (List Response)).events) (fail f : Dialogue (List Response)).result :=
        fun f hf hno => by
          have h := tells_of_civil (hcivil.bind fun _ _ => civil_fail (α := Unit) hf)
            (hplain.bind fun _ => plain_fail hno) (by rw [Attempt.bind_ok hr]; rfl) (wireText body) addrs.length
          rwa [Attempt.bind_ok hr] at h
      exact hfail _ rfl rfl
    split
    · rename_i hnil
      refine ⟨fun rs h => ?_, fun rs j r h hj => ?_, fun rs j r h hj => ?_, by simp,
        fun i j hi => ?_⟩
      · cases h
        exact (congrArg List.length hnil).symm
      · cases h
        cases hj
      · cases h
        cases hj
      · simp [hnil] at hi
    obtain ⟨mail, hmail⟩ : ∃ mail, mail = command (.session (.mail (sanitizePath sender))) peer.mail := ⟨_, rfl⟩
    have hcmail : Civil mail := hmail ▸ civil_command _ _
    rw [← hmail]
    cases hm : mail.result with
    | error f =>
      have h := tells_of_civil (hcivil.bind fun _ _ => hcmail)
        (hplain.bind fun _ => hmail ▸ plain_command _ _) (f := f) (by rw [Attempt.bind_ok hr]; exact hm)
        (wireText body) addrs.length
      rw [Attempt.bind_error hm]
      rwa [Attempt.bind_ok hr] at h
    | ok lines =>
      rw [Attempt.bind_ok hm]
      dsimp only
      rw [← append_assoc]
      refine tells_envelope c peer addrs body fun e he => ?_
      exact (mem_append.mp he).elim (hcivil.ok c hr e) (hcmail.ok lines hm e)

/-! ### The hosts of a group -/

section Hosts
variable {d : SMTPDeliverer} {w : Outside} {domain sender : Str} {addrs : List Str} {body host : Str}

theorem agrees_deliverGroup (mode : TLSMode) (dane : List TLSA) :
    Agrees (wireText body) addrs.length (deliverGroup d w domain sender addrs body host mode dane).1
      ((deliverGroup d w domain sender addrs body host mode dane).2.mapError some) := by
  have hcivil := fun noTLS => civil_connect d (w.peer domain host noTLS) host mode dane noTLS
  unfold deliverGroup
  extract_lets session
  have hsession : ∀ noTLS, Plain (connect d (w.peer domain host noTLS) host mode dane noTLS) →
      Agrees (wireText body) addrs.length [⟨host, (session noTLS).events⟩] ((session noTLS).result.mapError some) :=
    fun noTLS hplain => agrees_of_tells (tells_session (hcivil noTLS) hplain ..)
  split
  · rename_i f hf
    have hfirst : session false =
        ⟨(connect d (w.peer domain host false) host mode dane false).events, .error f⟩ := Attempt.bind_error hf _
    split
    · -- the first connection ended before RCPT, so the second one alone decides
      have hquiet : ∀ j path r, .rcpt j path r ∉ (session false).events := fun j path r hmem => by
        rw [hfirst] at hmem
        obtain ⟨_, _, h⟩ := (hcivil false).sessions _ hmem
        cases h
      have hfront : ∀ j < addrs.length, ¬(AcceptedBy [⟨host, (session false).events⟩] (wireText body) j ∨
          MisledBy [⟨host, (session false).events⟩] j) := fun j _ => ?_
      · exact (hsession true (plain_connect _ _ _ _ _)).prepend hfront (.inl (by simp))
      simp only [AcceptedBy, MisledBy, mem_singleton, exists_eq_left]
      rintro (⟨path, r, _, _, hsub, -⟩ | ⟨path, r, _, hsub, -⟩) <;>
        exact hquiet j path r (hsub.mem mem_cons_self)
    · rename_i hno
      have h := hsession false fun g hg => by
        cases hf.symm.trans hg
        simpa using hno
      rwa [hfirst] at h ⊢
  · rename_i c hc
    exact hsession false fun g hg => by cases hc.symm.trans hg

theorem outboundTLSPolicy_error (h : outboundTLSPolicy d w domain host = .error f) :
    f.permanent = false := by
  unfold outboundTLSPolicy at h
  split at h
  · cases h
  · dsimp only at h
    split at h
    · split at h
      · cases h
        rfl
      · cases h
    · cases h

/-- The hosts in turn: all but the last one that was asked ended without a final word. -/
theorem agrees_tryHosts : ∀ (hosts : List Str) {last : Option Failure}, last.any (·.permanent) = false →
    Agrees (wireText body) addrs.length (tryHosts d w domain sender addrs body hosts last).1
      (tryHosts d w domain sender addrs body hosts last).2
  | [], last, hlast => agrees_nil hlast
  | host :: rest, last, hlast => by
    rcases hpolicy : outboundTLSPolicy d w domain host with f | ⟨mode, dane⟩
    · rw [tryHosts_skip hpolicy]
      exact agrees_tryHosts rest (outboundTLSPolicy_error hpolicy)
    have hgroup : Agrees (wireText body) addrs.length (deliverGroup d w domain sender addrs body host mode dane).1
        ((deliverGroup d w domain sender addrs body host mode dane).2.mapError some) := agrees_deliverGroup mode dane
    cases hout : (deliverGroup d w domain sender addrs body host mode dane).2 with
    | ok resps =>
      rw [tryHosts_ok hpolicy hout]
      rwa [hout] at hgroup
    | error f =>
      rw [hout] at hgroup
      cases hf : f.permanent with
      | true =>
        rw [tryHosts_permanent hpolicy hout hf]
        exact hgroup
      | false =>
        rw [tryHosts_next hpolicy hout hf]
        have hlast' : (some f).any (·.permanent) = false := hf
        refine (agrees_tryHosts rest hlast').prepend (fun j hj => (hgroup.failed _ j rfl hj).1)
          (.inr fun j hj href => ?_)
        cases hlast'.symm.trans ((hgroup.failed _ j rfl hj).2.mpr href)

end Hosts

/-! ### Results -/

/-- The name service says that there is nothing. -/
def settled (err : Option LookupError) : Bool := err.all (·.notFound)

/-- There is no host for a domain. -/
def Outside.hostless (w : Outside) (domain : Str) : Bool :=
  mxHosts (w.lookupMX domain).1 = [] && ([0x2e] ∈ (w.lookupMX domain).1 || (w.lookupIP domain).1 = [])

/-- It is known that a domain takes no mail: it has a null MX, or neither MX records nor addresses. -/
def Outside.unserved (w : Outside) (domain : Str) : Bool :=
  w.hostless domain &&
    ([0x2e] ∈ (w.lookupMX domain).1 || (settled (w.lookupMX domain).2 && settled (w.lookupIP domain).2))

/-- The name service failed, so that it is not known whether a domain takes mail. -/
def Outside.unknown (w : Outside) (domain : Str) : Bool := w.hostless domain && !w.unserved domain

theorem mxCandidates_error_iff {w : Outside} {domain : Str} :
    (∃ err, mxCandidates w domain = .error err) ↔ w.hostless domain = true := by
  unfold mxCandidates Outside.hostless
  by_cases hhosts : mxHosts (w.lookupMX domain).1 = []
  · by_cases hnull : [0x2e] ∈ (w.lookupMX domain).1
    · simp [hhosts, hnull]
    · by_cases hips : (w.lookupIP domain).1 = []
      · rcases hmx : (w.lookupMX domain).2 with _ | mxErr <;> rcases hip : (w.lookupIP domain).2 with _ | ipErr <;>
          simp [hhosts, hnull, hips, hmx, hip]
      · simp [hhosts, hnull, hips]
  · simp [hhosts]

theorem hostless_iff {w : Outside} {domain : Str} :
    w.hostless domain = true ↔ w.unserved domain = true ∨ w.unknown domain = true := by
  have h : w.unserved domain = true → w.hostless domain = true := fun h => by
    unfold Outside.unserved at h
    exact (Bool.and_eq_true_iff.mp h).1
  unfold Outside.unknown
  cases hs : w.unserved domain with
  | true => simp [h hs]
  | false => simp

/-- What the result of a recipient says. -/
structure Reflects (res : Result) (addr : Str) (taken refused : Prop) : Prop where
  addr : res.addr = addr
  ok : res.ok = true ↔ taken
  permanent : res.ok = false → (res.permanent = true ↔ refused)

/-- The status that a result makes, when what is still pending is given up or not. -/
theorem Reflects.status_iff {res : Result} {addr : Str} {taken exhausted : Prop} [Decidable exhausted]
    {s : RecipientStatus} (hs : s = if res.ok then .delivered else if res.permanent then .bounced else .pending)
    (h : Reflects res addr taken refused) :
    ((if s = .pending ∧ exhausted then RecipientStatus.bounced else s) = .delivered ↔ taken) ∧
      ((if s = .pending ∧ exhausted then RecipientStatus.bounced else s) = .bounced ↔
        ¬taken ∧ (refused ∨ exhausted)) := by
  rw [hs, ← h.ok]
  cases hok : res.ok with
  | true => simp
  | false =>
    rw [← h.permanent hok]
    cases res.permanent <;> by_cases he : exhausted <;> simp [he]

theorem reflects_failAll {addrs : List Str} {permanent : Bool} {err : Option Str} {j : Nat} {addr : Str}
    {taken : Prop} (ha : addrs[j]? = some addr) (ht : ¬taken) (hr : permanent = true ↔ refused) :
    ∃ res, (failAll addrs permanent err)[j]? = some res ∧ Reflects res addr taken refused := by
  refine ⟨⟨addr, false, permanent, err⟩, ?_, rfl, iff_of_false (by simp) ht, fun _ => hr⟩
  rw [failAll, getElem?_map, ha]
  rfl

theorem reflects_resultsOf {text : Str} {addrs : List Str} {resps : List Response}
    (h : Agrees text addrs.length contacts (.ok resps)) {j : Nat} {addr : Str} (ha : addrs[j]? = some addr) :
    ∃ res, (resultsOf addrs resps)[j]? = some res ∧
      Reflects res addr (AcceptedBy contacts text j ∨ MisledBy contacts j) (RefusedBy contacts j) := by
  have hj : j < resps.length := h.length resps rfl ▸ (List.getElem?_eq_some_iff.mp ha).1
  have hr := getElem?_eq_getElem hj
  refine ⟨resultOf addr resps[j]?, by simp [resultsOf, ha], ?_⟩
  rw [hr]
  have hiff := h.accepted resps j _ rfl hr
  by_cases hcode : hundreds resps[j].code = 2
  · rw [resultOf, if_neg (not_not.mpr hcode)]
    exact ⟨rfl, iff_of_true rfl (hiff.mp hcode), by simp⟩
  · rw [resultOf, if_pos hcode]
    exact ⟨rfl, iff_of_false (by simp) fun ht => hcode (hiff.mpr ht), fun _ => h.refused resps j _ rfl hr hcode⟩

/-- The results that the end of a group makes. -/
def outcome (addrs : List Str) : Except (Option Failure) (List Response) → List Result
  | .error last => failAll addrs (last.any (·.permanent)) (last.map (·.text))
  | .ok resps => resultsOf addrs resps

theorem length_outcome (addrs : List Str) (out : Except (Option Failure) (List Response)) :
    (outcome addrs out).length = addrs.length := by
  cases out <;> simp [outcome, failAll, resultsOf]

theorem Agrees.reflects {text : Str} {addrs : List Str}
    {out : Except (Option Failure) (List Response)} (h : Agrees text addrs.length contacts out) {j : Nat} {addr : Str}
    (ha : addrs[j]? = some addr) : ∃ res, (outcome addrs out)[j]? = some res ∧
      Reflects res addr (AcceptedBy contacts text j ∨ MisledBy contacts j) (RefusedBy contacts j) := by
  cases out with
  | error last =>
    obtain ⟨ht, hr⟩ := h.failed last j rfl (List.getElem?_eq_some_iff.mp ha).1
    exact reflects_failAll ha ht hr
  | ok resps => exact reflects_resultsOf h ha

section Rounds
variable (d : SMTPDeliverer) (w : Outside) (sender body : Str) (addrs : List Str)

/-- The round of a domain that has a host. -/
theorem deliverDomain_of_host {domain : Str} (hhost : w.hostless domain = false) :
    ∃ out, Agrees (wireText body) addrs.length (deliverDomain d w sender body domain addrs).contacts out ∧
      (deliverDomain d w sender body domain addrs).results = outcome addrs out := by
  cases hosts : mxCandidates w domain with
  | error err => cases hhost.symm.trans (mxCandidates_error_iff.mp ⟨err, hosts⟩)
  | ok hs =>
    refine ⟨(tryHosts d w domain sender addrs body hs none).2, ?_⟩
    have hagree : Agrees (wireText body) addrs.length (tryHosts d w domain sender addrs body hs none).1
        (tryHosts d w domain sender addrs body hs none).2 := agrees_tryHosts hs rfl
    simp only [deliverDomain, hosts]
    split <;> rename_i hout <;> rw [hout] at hagree ⊢ <;> exact ⟨hagree, rfl⟩

/-- The round of a domain that has none. -/
theorem deliverDomain_of_hostless {domain : Str} (hhost : w.hostless domain = true) :
    ∃ err, deliverDomain d w sender body domain addrs = ⟨[], failAll addrs true (some err)⟩ := by
  obtain ⟨err, herr⟩ := mxCandidates_error_iff.mpr hhost
  exact ⟨err, by simp only [deliverDomain, herr]⟩

theorem deliverToHost_spec :
    ∃ out, Agrees (wireText body) addrs.length (deliverToHost d w sender body addrs).contacts out ∧
      (deliverToHost d w sender body addrs).results = outcome addrs out := by
  unfold deliverToHost
  split
  · rename_i hnil
    exact ⟨.error none, agrees_nil rfl, by rw [hnil]; rfl⟩
  · extract_lets policy
    have hagree : Agrees (wireText body) addrs.length
        (deliverGroup d w [] sender addrs body d.fixedHost policy.1 policy.2).1
        ((deliverGroup d w [] sender addrs body d.fixedHost policy.1 policy.2).2.mapError some) :=
      agrees_deliverGroup policy.1 policy.2
    split <;> rename_i hout <;> rw [hout] at hagree <;> exact ⟨_, hagree, rfl⟩

end Rounds

/-! ### Recipients -/

/-- Where the answers to a recipient are: the connections of its group, and its position there. -/
structure Place where
  contacts : List Contact
  index : Nat

/-- The place of the recipient at a position of those handed to `Deliver`. -/
def SMTPDeliverer.place (d : SMTPDeliverer) (w : Outside) (sender body : Str) (addrs : List Str) (p : Nat)
    (addr : Str) : Place :=
  if d.fixedHost ≠ [] then ⟨(deliverToHost d w sender body addrs).contacts, p⟩
  else match domainOf addr with
    | none => ⟨[], 0⟩
    | some domain => ⟨(d.group w sender body addrs domain).contacts, rank (ofDomain domain) addrs p⟩

/-- Its RCPT was answered with 2xx, the whole text was then written and the end of it was answered with 2xx. -/
def Place.Accepted (x : Place) (body : Str) : Prop := AcceptedBy x.contacts (wireText body) x.index

/-- Its RCPT was answered with 2xx, and DATA with 2xx instead of 354. -/
def Place.Misled (x : Place) : Prop := MisledBy x.contacts x.index

/-- The last word to it on the last connection was 5xx. -/
def Place.Refused (x : Place) : Prop := RefusedBy x.contacts x.index

/-- There is no way to an address: it has no domain, or its domain takes no mail. -/
def SMTPDeliverer.Unreachable (d : SMTPDeliverer) (w : Outside) (addr : Str) : Prop :=
  d.fixedHost = [] ∧ ∀ domain, domainOf addr = some domain → w.unserved domain = true

/-- The name service failed for the domain of an address. -/
def SMTPDeliverer.Unresolved (d : SMTPDeliverer) (w : Outside) (addr : Str) : Prop :=
  d.fixedHost = [] ∧ ∃ domain, domainOf addr = some domain ∧ w.unknown domain = true

section Deliver
variable {d : SMTPDeliverer} {w : Outside} {sender body : Str} {addrs : List Str} {p q : Nat} {addr : Str}

theorem place_fixed (hfix : d.fixedHost ≠ []) :
    d.place w sender body addrs p addr = ⟨(deliverToHost d w sender body addrs).contacts, p⟩ := if_pos hfix

theorem place_domain (hfix : d.fixedHost = []) {domain : Str} (hdom : domainOf addr = some domain) :
    d.place w sender body addrs p addr =
      ⟨(d.group w sender body addrs domain).contacts, rank (ofDomain domain) addrs p⟩ := by
  simp [SMTPDeliverer.place, hfix, hdom]

theorem place_malformed (hfix : d.fixedHost = []) (hdom : domainOf addr = none) :
    d.place w sender body addrs p addr = ⟨[], 0⟩ := by
  simp [SMTPDeliverer.place, hfix, hdom]

theorem unreachable_or_iff (hfix : d.fixedHost = []) {domain : Str} (hdom : domainOf addr = some domain) :
    d.Unreachable w addr ∨ d.Unresolved w addr ↔ w.hostless domain = true := by
  simp [SMTPDeliverer.Unreachable, SMTPDeliverer.Unresolved, hfix, hdom, hostless_iff]

theorem not_unreachable_of_unresolved (h : d.Unresolved w addr) : ¬d.Unreachable w addr := by
  obtain ⟨-, domain, hdom, hunk⟩ := h
  rintro ⟨-, h⟩
  simp [Outside.unknown, h domain hdom] at hunk

/-- Nothing is sent to a recipient that cannot be reached. -/
theorem contacts_of_unreachable (h : d.Unreachable w addr ∨ d.Unresolved w addr) :
    (d.place w sender body addrs p addr).contacts = [] := by
  have hfix : d.fixedHost = [] := h.elim (·.1) (·.1)
  cases hdom : domainOf addr with
  | none => rw [place_malformed hfix hdom]
  | some domain =>
    obtain ⟨err, herr⟩ := deliverDomain_of_hostless d w sender body
      ((selected (ofDomain domain) addrs).map (·.1)) ((unreachable_or_iff hfix hdom).mp h)
    rw [place_domain hfix hdom, SMTPDeliverer.group, herr]

/-- A recipient is in the group of its domain. -/
theorem group_rank {domain : Str} (ha : addrs[p]? = some addr) (hdom : domainOf addr = some domain) :
    ((selected (ofDomain domain) addrs).map (·.1))[rank (ofDomain domain) addrs p]? = some addr := by
  rw [getElem?_map, selected_rank ha (by simp [ofDomain, hdom])]
  rfl

/-- No group has a recipient that misled the client and one that was accepted. -/
theorem not_accepted_of_misled (hp : addrs[p]? = some addr) (hq : addrs[q]? = some addr)
    (h : (d.place w sender body addrs p addr).Misled) : ¬(d.place w sender body addrs q addr).Accepted body := by
  by_cases hfix : d.fixedHost = []
  swap
  · rw [place_fixed hfix] at h ⊢
    obtain ⟨out, hagree, -⟩ := deliverToHost_spec d w sender body addrs
    exact hagree.exclusive p q (List.getElem?_eq_some_iff.mp hp).1 (List.getElem?_eq_some_iff.mp hq).1 h
  cases hdom : domainOf addr with
  | none =>
    rw [place_malformed hfix hdom] at h
    obtain ⟨_, hmem, -⟩ := h
    cases hmem
  | some domain =>
    cases hhost : w.hostless domain with
    | true =>
      obtain ⟨_, hmem, -⟩ := h
      rw [contacts_of_unreachable ((unreachable_or_iff hfix hdom).mpr hhost)] at hmem
      cases hmem
    | false =>
      rw [place_domain hfix hdom] at h ⊢
      obtain ⟨out, hagree, -⟩ := deliverDomain_of_host d w sender body
        ((selected (ofDomain domain) addrs).map (·.1)) hhost
      exact hagree.exclusive _ _ (List.getElem?_eq_some_iff.mp (group_rank hp hdom)).1
        (List.getElem?_eq_some_iff.mp (group_rank hq hdom)).1 h

/-- What the round of a domain says of a recipient. -/
theorem reflects_group (d : SMTPDeliverer) (w : Outside) (sender body : Str) {domain : Str}
    (ha : addrs[p]? = some addr) : ∃ res, (deliverDomain d w sender body domain addrs).results[p]? = some res ∧
      Reflects res addr (AcceptedBy (deliverDomain d w sender body domain addrs).contacts (wireText body) p ∨
          MisledBy (deliverDomain d w sender body domain addrs).contacts p)
        (w.hostless domain = true ∨ RefusedBy (deliverDomain d w sender body domain addrs).contacts p) := by
  cases hhost : w.hostless domain with
  | true =>
    obtain ⟨err, herr⟩ := deliverDomain_of_hostless d w sender body addrs hhost
    rw [herr]
    exact reflects_failAll ha (by simp [AcceptedBy, MisledBy]) (iff_of_true rfl (.inl rfl))
  | false =>
    obtain ⟨out, hagree, hres⟩ := deliverDomain_of_host d w sender body addrs hhost
    simp only [Bool.false_eq_true, false_or, hres]
    exact hagree.reflects ha

/-- What `Deliver` says of a recipient. -/
theorem reflects_deliver (d : SMTPDeliverer) (w : Outside) (sender body : Str) (ha : addrs[p]? = some addr) :
    ∃ res, (d.deliver w sender body addrs)[p]? = some res ∧ Reflects res addr
        ((d.place w sender body addrs p addr).Accepted body ∨ (d.place w sender body addrs p addr).Misled)
        ((d.Unreachable w addr ∨ d.Unresolved w addr) ∨ (d.place w sender body addrs p addr).Refused) := by
  have hp : p < addrs.length := (List.getElem?_eq_some_iff.mp ha).1
  by_cases hfix : d.fixedHost = []
  swap
  · have hno : ¬(d.Unreachable w addr ∨ d.Unresolved w addr) := fun h => hfix (h.elim (·.1) (·.1))
    rw [SMTPDeliverer.deliver, if_pos hfix, place_fixed hfix]
    obtain ⟨out, hagree, hres⟩ := deliverToHost_spec d w sender body addrs
    simp only [hno, false_or, hres]
    exact hagree.reflects ha
  rw [SMTPDeliverer.deliver, if_neg (not_not.mpr hfix)]
  cases hdom : domainOf addr with
  | none =>
    refine ⟨initialResult w addr, ?_, ?_⟩
    · rw [scatterAll_of_notMem ha fun i _ => by simp [ofDomain, hdom], getElem?_map, ha]
      rfl
    · rw [place_malformed hfix hdom, initialResult, hdom]
      refine ⟨rfl, iff_of_false (by simp) ?_, fun _ => iff_of_true rfl (.inl (.inl ⟨hfix, fun _ h => ?_⟩))⟩
      · simp [Place.Accepted, Place.Misled, AcceptedBy, MisledBy]
      · cases hdom.symm.trans h
  | some domain =>
    have hin : ofDomain domain addr = true := by simp [ofDomain, hdom]
    obtain ⟨res, hres, hreflects⟩ := reflects_group d w sender body (group_rank ha hdom)
    refine ⟨res, scatterAll_of_mem ha hin (fun i hi => ?_) hres ?_ (by simpa using hp), ?_⟩
    · exact Option.some.inj ((of_decide_eq_true hi).symm.trans hdom)
    · exact mem_eraseDups.mpr (mem_filterMap.mpr ⟨addr, mem_of_getElem? ha, hdom⟩)
    · rw [place_domain hfix hdom, unreachable_or_iff hfix hdom]
      exact hreflects

theorem length_deliver : (d.deliver w sender body addrs).length = addrs.length := by
  unfold SMTPDeliverer.deliver
  split
  · obtain ⟨out, -, hres⟩ := deliverToHost_spec d w sender body addrs
    rw [hres, length_outcome]
  · rw [length_scatterAll, length_map]

/-- The map from addresses keeps the result of the last recipient of an address. -/
theorem byAddr_deliver (ha : addrs[q]? = some addr) (hlast : ∀ i, q < i → addrs[i]? ≠ some addr) :
    byAddr (d.deliver w sender body addrs) addr = (d.deliver w sender body addrs)[q]? := by
  obtain ⟨res, hres, hreflects⟩ := reflects_deliver d w sender body ha
  rw [hres]
  refine find?_reverse_of_last hres (by simp [hreflects.addr]) fun i y hi hy => ?_
  have hlt : i < addrs.length := length_deliver (d := d) ▸ (List.getElem?_eq_some_iff.mp hy).1
  obtain ⟨res', hres', hreflects'⟩ := reflects_deliver d w sender body (getElem?_eq_getElem hlt)
  cases hy.symm.trans hres'
  refine decide_eq_false fun h => hlast i hi ?_
  rw [getElem?_eq_getElem hlt, ← hreflects'.addr, h]

end Deliver

/-! ### The round -/

/-- What `commitOutcome` writes after a round that ended without a transport error. -/
def committed (m : Manager) (now : Int) (jitter : Int → Int) (d : SMTPDeliverer) (w : Outside) (body : Str)
    (msg : Message) : Message :=
  (settle m now jitter (.ok (d.deliver w msg.sender body (pendingOf msg))) msg).json

/-- The place of the pending recipient at a position of a message. -/
def SMTPDeliverer.placeOf (d : SMTPDeliverer) (w : Outside) (body : Str) (msg : Message) (i : Nat) (addr : Str) :
    Place :=
  d.place w msg.sender body (pendingOf msg) (rank (·.status = .pending) msg.recipients i) addr

/-- A status that says what the answers say. -/
structure Truthful (accepted refused exhausted : Prop) (status : RecipientStatus) : Prop where
  delivered : status = .delivered ↔ accepted
  bounced : status = .bounced ↔ ¬accepted ∧ (refused ∨ exhausted)
  pending : status = .pending ↔ ¬accepted ∧ ¬(refused ∨ exhausted)

/-- The last pending recipient of an address. -/
structure LastPending (msg : Message) (addr : Str) (j : Nat) : Prop where
  found : ∃ r, msg.recipients[j]? = some r ∧ r.status = .pending ∧ r.address = addr
  last : ∀ i r, j < i → msg.recipients[i]? = some r → r.status = .pending → r.address ≠ addr

theorem truthful_iff {accepted exhausted : Prop} {status : RecipientStatus} :
    Truthful accepted refused exhausted status ↔
      (status = .delivered ↔ accepted) ∧ (status = .bounced ↔ ¬accepted ∧ (refused ∨ exhausted)) := by
  refine ⟨fun h => ⟨h.delivered, h.bounced⟩, fun ⟨hd, hb⟩ => ⟨hd, hb, ?_⟩⟩
  cases status <;> simp_all

section Round
variable {m : Manager} {now : Int} {jitter : Int → Int} {msg : Message} {i j : Nat} {r : Recipient} {addr : Str}

theorem pendingOf_rank (hr : msg.recipients[i]? = some r) (hp : r.status = .pending) :
    (pendingOf msg)[rank (·.status = .pending) msg.recipients i]? = some r.address := by
  rw [pendingOf, getElem?_map, filter_rank hr (by simpa using hp)]
  rfl

theorem LastPending.exists (hr : msg.recipients[i]? = some r) (hp : r.status = .pending) :
    ∃ j, LastPending msg r.address j := by
  obtain ⟨j, y, hy, hpy, hlast⟩ := exists_last (p := fun x => x.status = .pending ∧ x.address = r.address) hr
    (by simpa using hp)
  obtain ⟨hpend, haddr⟩ := of_decide_eq_true hpy
  refine ⟨j, ⟨y, hy, hpend, haddr⟩, fun k z hlt hz hpz haz => ?_⟩
  exact of_decide_eq_false (hlast k z hlt hz) ⟨hpz, haz⟩

/-- In the list handed to `Deliver` it is the last of its address as well. -/
theorem LastPending.rank_last (h : LastPending msg addr j) (q : Nat)
    (hq : rank (·.status = .pending) msg.recipients j < q) : (pendingOf msg)[q]? ≠ some addr := by
  intro hget
  rw [pendingOf, getElem?_map] at hget
  obtain ⟨r, hr, rfl⟩ := Option.map_eq_some_iff.mp hget
  obtain ⟨k, hk, hp, rfl⟩ := exists_rank hr
  have hlt : j < k := Nat.lt_of_not_le fun hle => by
    have := rank_mono (fun x : Recipient => decide (x.status = .pending)) msg.recipients hle
    omega
  exact h.last k r hlt hk (by simpa using hp) rfl

theorem finalizeState_status (hr : msg.recipients[i]? = some r) :
    ∃ r', (finalizeState m now jitter msg).recipients[i]? = some r' ∧
      r'.status = if r.status = .pending ∧ msg.maxAttempts ≤ msg.attempts then .bounced else r.status := by
  have hmem := mem_of_getElem? hr
  have hnone : ¬(msg.recipients.any fun r => r.status = .pending) = true → r.status ≠ .pending := fun h hp =>
    h (List.any_eq_true.mpr ⟨r, hmem, by simpa using hp⟩)
  unfold finalizeState
  dsimp only
  split
  · rename_i h
    exact ⟨r, hr, by rw [if_neg fun hc => hnone h.1 hc.1]⟩
  split
  · rename_i h
    exact ⟨r, hr, by rw [if_neg fun hc => hnone h hc.1]⟩
  split
  · rename_i hmax
    refine ⟨r.giveUp, by simp [hr], ?_⟩
    unfold Recipient.giveUp
    by_cases hp : r.status = .pending <;> simp [hp, hmax]
  · rename_i hmax
    exact ⟨r, hr, by rw [if_neg fun hc => hmax hc.2]⟩

theorem settle_status (results : List Result) (hr : msg.recipients[i]? = some r) :
    ∃ r', (settle m now jitter (.ok results) msg).json.recipients[i]? = some r' ∧
      r'.status = if (r.settle results).status = .pending ∧ msg.maxAttempts ≤ msg.attempts then .bounced
        else (r.settle results).status := by
  have hsettled : (msg.recipients.map (Recipient.settle results))[i]? = some (r.settle results) := by
    rw [getElem?_map, hr]
    rfl
  obtain ⟨r', hr', hstatus⟩ := finalizeState_status (m := m)
    (show { msg with recipients := msg.recipients.map (Recipient.settle results) }.recipients[i]? = _ from hsettled)
  refine ⟨r'.json, ?_, hstatus⟩
  change (List.map Recipient.json _)[i]? = _
  rw [getElem?_map, settle, hr']
  rfl

theorem status_settle {results : List Result} {res : Result} (hp : r.status = .pending)
    (hby : byAddr results r.address = some res) :
    (r.settle results).status = if res.ok then .delivered else if res.permanent then .bounced else .pending := by
  simp only [Recipient.settle, hp, hby, ne_eq, not_true_eq_false, if_false]
  split <;> rfl

/-- The status that the round gives a pending recipient, by the answers to the last one of its address. -/
theorem committed_status {d : SMTPDeliverer} {w : Outside} {body : Str} (hr : msg.recipients[i]? = some r)
    (hp : r.status = .pending) (hj : LastPending msg r.address j) {taken : Prop}
    (htaken : taken = ((d.placeOf w body msg j r.address).Accepted body ∨ (d.placeOf w body msg j r.address).Misled))
    (hrefused : refused = ((d.Unreachable w r.address ∨ d.Unresolved w r.address) ∨
      (d.placeOf w body msg j r.address).Refused)) :
    ∃ r', (committed m now jitter d w body msg).recipients[i]? = some r' ∧ (r'.status = .delivered ↔ taken) ∧
      (r'.status = .bounced ↔ ¬taken ∧ (refused ∨ msg.maxAttempts ≤ msg.attempts)) := by
  obtain ⟨rj, hrj, hpj, haddr⟩ := hj.found
  have hrank := haddr ▸ pendingOf_rank hrj hpj
  obtain ⟨res, hres, hreflects⟩ := reflects_deliver d w msg.sender body hrank
  have hby := (byAddr_deliver hrank hj.rank_last).trans hres
  obtain ⟨r', hr', hstatus⟩ := settle_status (m := m) (d.deliver w msg.sender body (pendingOf msg)) hr
  refine ⟨r', hr', ?_⟩
  rw [hstatus, htaken, hrefused]
  exact hreflects.status_iff (status_settle hp hby)

end Round

/-- One pending recipient, and the last one of its address: the answers to the last one hold for it too, and
    none of them is one that the deliverer takes for another. -/
structure SpeaksFor (d : SMTPDeliverer) (w : Outside) (body : Str) (msg : Message) (addr : Str) (j i : Nat) :
    Prop where
  notMisled : ¬(d.placeOf w body msg j addr).Misled
  accepted : (d.placeOf w body msg j addr).Accepted body ↔ (d.placeOf w body msg i addr).Accepted body
  resolved : ¬(d.placeOf w body msg i addr).Accepted body → msg.attempts < msg.maxAttempts → ¬d.Unresolved w addr
  refused : ¬(d.placeOf w body msg i addr).Accepted body → msg.attempts < msg.maxAttempts →
    ((d.placeOf w body msg j addr).Refused ↔ (d.placeOf w body msg i addr).Refused)

theorem truthful_iff_speaksFor {d : SMTPDeliverer} {w : Outside} {body : Str} {msg : Message} {r : Recipient}
    {i j : Nat} {s : RecipientStatus} (hr : msg.recipients[i]? = some r) (hp : r.status = .pending)
    (hj : LastPending msg r.address j) (hs : (s = .delivered ↔
        (d.placeOf w body msg j r.address).Accepted body ∨ (d.placeOf w body msg j r.address).Misled) ∧
      (s = .bounced ↔
        ¬((d.placeOf w body msg j r.address).Accepted body ∨ (d.placeOf w body msg j r.address).Misled) ∧
          (((d.Unreachable w r.address ∨ d.Unresolved w r.address) ∨ (d.placeOf w body msg j r.address).Refused) ∨
            msg.maxAttempts ≤ msg.attempts))) : Truthful ((d.placeOf w body msg i r.address).Accepted body)
      (d.Unreachable w r.address ∨ (d.placeOf w body msg i r.address).Refused)
      (msg.maxAttempts ≤ msg.attempts) s ↔ SpeaksFor d w body msg r.address j i := by
  obtain ⟨rj, hrj, hpj, haddr⟩ := hj.found
  have hexcl : (d.placeOf w body msg j r.address).Misled → ¬(d.placeOf w body msg i r.address).Accepted body :=
    not_accepted_of_misled (haddr ▸ pendingOf_rank hrj hpj) (pendingOf_rank hr hp)
  have hnone : ∀ k, d.Unreachable w r.address ∨ d.Unresolved w r.address →
      ¬(d.placeOf w body msg k r.address).Accepted body ∧ ¬(d.placeOf w body msg k r.address).Refused := fun k h => by
    have hcontacts : (d.placeOf w body msg k r.address).contacts = [] := contacts_of_unreachable h
    simp [Place.Accepted, Place.Refused, AcceptedBy, RefusedBy, hcontacts]
  have hunres : d.Unresolved w r.address → ¬d.Unreachable w r.address := not_unreachable_of_unresolved
  rw [truthful_iff, hs.1, hs.2]
  constructor
  · rintro ⟨hdel, hbou⟩
    have hmis : ¬(d.placeOf w body msg j r.address).Misled := fun h => hexcl h (hdel.mp (.inr h))
    rw [or_iff_left hmis] at hdel
    have hiff : ¬(d.placeOf w body msg i r.address).Accepted body → msg.attempts < msg.maxAttempts →
        ((d.Unreachable w r.address ∨ d.Unresolved w r.address) ∨ (d.placeOf w body msg j r.address).Refused ↔
          d.Unreachable w r.address ∨ (d.placeOf w body msg i r.address).Refused) := fun hacc hlt => by
      rwa [or_iff_left hmis, hdel, and_iff_right hacc, and_iff_right hacc, or_iff_left (Nat.not_le.mpr hlt),
        or_iff_left (Nat.not_le.mpr hlt)] at hbou
    refine ⟨hmis, hdel, fun hacc hlt hun => ?_, fun hacc hlt => ?_⟩
    · rcases (hiff hacc hlt).mp (.inl (.inr hun)) with h | h
      · exact hunres hun h
      · exact (hnone i (.inr hun)).2 h
    · by_cases hun : d.Unreachable w r.address ∨ d.Unresolved w r.address
      · exact iff_of_false (hnone j hun).2 (hnone i hun).2
      · have h := hiff hacc hlt
        rwa [or_iff_right hun, or_iff_right fun h => hun (.inl h)] at h
  · rintro ⟨hmis, hacc, hres, href⟩
    rw [or_iff_left hmis, hacc]
    refine ⟨Iff.rfl, and_congr_right fun hna => ?_⟩
    by_cases hmax : msg.maxAttempts ≤ msg.attempts
    · simp [hmax]
    · have hlt := Nat.lt_of_not_le hmax
      rw [href hna hlt, or_iff_left (hres hna hlt)]

/-- WHAT IS RECORDED: after a round each recipient has the status that its own answers ask for, exactly when
    the last pending recipient of each address speaks for all of that address. -/
theorem outcomes_recorded_iff (m : Manager) (now : Int) (jitter : Int → Int) (d : SMTPDeliverer) (w : Outside)
    (body : Str) (msg : Message) :
    (∀ i r, msg.recipients[i]? = some r → ∃ r', (committed m now jitter d w body msg).recipients[i]? = some r' ∧
      (r.status ≠ .pending → r'.status = r.status) ∧ (r.status = .pending →
        Truthful ((d.placeOf w body msg i r.address).Accepted body)
          (d.Unreachable w r.address ∨ (d.placeOf w body msg i r.address).Refused)
          (msg.maxAttempts ≤ msg.attempts) r'.status)) ↔
    ∀ i r j, msg.recipients[i]? = some r → r.status = .pending → LastPending msg r.address j →
      SpeaksFor d w body msg r.address j i := by
  constructor
  · intro h i r j hr hp hj
    obtain ⟨r', hr', -, hrec⟩ := h i r hr
    obtain ⟨r'', hr'', hstatus⟩ := committed_status hr hp hj rfl rfl
    cases hr'.symm.trans hr''
    exact (truthful_iff_speaksFor hr hp hj hstatus).mp (hrec hp)
  · intro h i r hr
    by_cases hp : r.status = .pending
    · obtain ⟨j, hj⟩ := LastPending.exists hr hp
      obtain ⟨r', hr', hstatus⟩ := committed_status hr hp hj rfl rfl
      exact ⟨r', hr', absurd hp, fun _ => (truthful_iff_speaksFor hr hp hj hstatus).mpr (h i r j hr hp hj)⟩
    · obtain ⟨r', hr', hstatus⟩ := settle_status (m := m) (d.deliver w msg.sender body (pendingOf msg)) hr
      have hkept := r.onward_settle (d.deliver w msg.sender body (pendingOf msg)) hp
      refine ⟨r', hr', fun _ => ?_, fun h => absurd h hp⟩
      rw [hstatus, hkept, if_neg fun hc => hp hc.1]

/-- Four pending recipients: one address twice, one whose domain the name service fails for, and one whose
    server answers DATA with 250. -/
def fourRecipients : Message where
  id := 1
  sender := ascii "a@example.com"
  recipients := [⟨ascii "b@one.org", .pending, []⟩, ⟨ascii "b@one.org", .pending, []⟩,
    ⟨ascii "c@two.org", .pending, []⟩, ⟨ascii "d@three.org", .pending, []⟩]
  subject := []
  blobID := ascii "blob"
  size := 0
  state := .active
  attempts := 1
  maxAttempts := 10
  nextAttempt := 0
  createdAt := 0
  updatedAt := 0

/-- The second RCPT at the first domain is put off. -/
def fourAnswers : Outside where
  lookupMX domain :=
    if domain = ascii "two.org" then ([], some ⟨ascii "server misbehaving", false⟩)
    else ([ascii "mx." ++ domain], none)
  lookupIP _ := ([], some ⟨ascii "server misbehaving", false⟩)
  isIP _ := false
  quote := id
  unicode := asciiOnly
  peer domain _ _ :=
    if domain = ascii "one.org" then { rcpt := fun i => if i = 0 then .ok (250, []) else .ok (451, []) }
    else { data := .ok (250, []) }

/-- What passes at the first domain. -/
def putOffContact : Contact where
  host := ascii "mx.one.org"
  log := [.session .greeting (.ok (220, [])), .session .ehlo (.ok (250, [])),
    .session (.mail (ascii "a@example.com")) (.ok (250, [])), .rcpt 0 (ascii "b@one.org") (.ok (250, [])),
    .rcpt 1 (ascii "b@one.org") (.ok (451, [])), .data (.ok (354, [])),
    .body .plain (ascii "\r\n.\r\n") (.ok ()), .finish (.ok (250, []))]

/-- A copy that was accepted stays pending, a recipient that nobody was asked about is bounced, and one that
    was sent nothing is delivered. -/
theorem accepted_copy_stays_pending :
    (committed (new [] defaultOptions false) 0 id {} fourAnswers [] fourRecipients).recipients.map (·.status) =
      [.pending, .pending, .bounced, .delivered] ∧
    (SMTPDeliverer.placeOf {} fourAnswers [] fourRecipients 0 (ascii "b@one.org")).Accepted [] ∧
    ¬(SMTPDeliverer.Unreachable {} fourAnswers (ascii "c@two.org") ∨
      (SMTPDeliverer.placeOf {} fourAnswers [] fourRecipients 2 (ascii "c@two.org")).Refused) ∧
    ¬(SMTPDeliverer.placeOf {} fourAnswers [] fourRecipients 3 (ascii "d@three.org")).Accepted [] := by
  refine ⟨by decide +kernel, ?_, ?_, ?_⟩
  · refine ⟨putOffContact, by decide +kernel, ascii "b@one.org", .ok (250, []), .plain, .ok (250, []), ?_, rfl, rfl⟩
    decide +kernel
  · rintro (⟨-, h⟩ | ⟨c, hc, -⟩)
    · exact absurd (h (ascii "two.org") (by decide +kernel)) (by decide +kernel)
    · exact absurd hc (by
        rw [show (SMTPDeliverer.placeOf {} fourAnswers [] fourRecipients 2 (ascii "c@two.org")).contacts = [] by
          decide +kernel]
        simp)
  · rintro ⟨c, hc, path, r, channel, r', hsub, -⟩
    have hall : ∀ c ∈ (SMTPDeliverer.placeOf {} fourAnswers [] fourRecipients 3 (ascii "d@three.org")).contacts,
        (c.log.all fun e => match e with | .body .. => false | _ => true) = true := by decide +kernel
    exact absurd (List.all_eq_true.mp (hall c hc) _ (hsub.mem (mem_cons_of_mem _ mem_cons_self))) (by simp)

end Mailezine.Queue
