import Mailezine.Queue.Deliver

/-! No downgrade of TLS on the way to the MX hosts.

    The mode is decided for each host and carried to the handshake. When it is required, a connection
    becomes a client only after TLS was verified, for the name of the host or against the TLSA records, and
    the connection without TLS that follows a failed upgrade ends before the message. -/

namespace Mailezine.Queue
open Gostd Schemes Mailsmtp List

/-! ### Clients -/

/-- The server showed a certificate that is good for the host: one of the records when there are any,
    otherwise one that `crypto/tls` accepts for the name. -/
def Secured (peer : Peer) (host : Str) (dane : List TLSA) (channel : Channel) : Prop :=
  peer.handshake = .ok () ∧
    if dane = [] then channel = .verified host ∧ peer.certified host = .ok ()
    else channel = .pinned host dane ∧ peer.dane dane host = .ok ()

variable {c : Client} {dane : List TLSA} {peer : Peer}

theorem secured_of_handshake {channel : Channel}
    (h : c.handshake peer dane = .ok channel) : Secured peer c.host dane channel := by
  unfold Client.handshake at h
  extract_lets text at h
  cases hh : peer.handshake with
  | error err => simp [hh] at h
  | ok u =>
    refine ⟨hh, ?_⟩
    by_cases hdane : dane = []
    · cases hcert : peer.certified c.host with
      | error err => simp [hh, hdane, hcert] at h
      | ok u => simpa [hh, hdane, hcert, eq_comm] using h
    · cases hcert : peer.dane dane c.host with
      | error err => simp [hh, hdane, hcert] at h
      | ok u => simpa [hh, hdane, hcert, eq_comm] using h

theorem ehlo_ok {c' : Client} {reply : Reply} (h : (c.ehlo reply).result = .ok c') :
    c'.host = c.host ∧ c'.channel = c.channel := by
  obtain ⟨lines, -, h⟩ := Attempt.result_bind_ok.mp h
  cases h
  exact ⟨rfl, rfl⟩

theorem startTLS_ok {c' : Client} (h : (c.startTLS peer dane).result = .ok c') :
    Secured peer c.host dane c'.channel := by
  obtain ⟨_, -, h⟩ := Attempt.result_bind_ok.mp h
  obtain ⟨channel, hchannel, h⟩ := Attempt.result_bind_ok.mp h
  rw [(ehlo_ok h).2]
  exact secured_of_handshake hchannel

/-- With required TLS, `Greet` succeeds only on a secured connection. -/
theorem greet_required {c' : Client} {noTLS : Bool} (h : (c.greet peer .required dane noTLS).result = .ok c') :
    noTLS = false ∧ Secured peer c.host dane c'.channel := by
  obtain ⟨_, -, h⟩ := Attempt.result_bind_ok.mp h
  obtain ⟨c₁, hc₁, h⟩ := Attempt.result_bind_ok.mp h
  cases noTLS with
  | true => cases h
  | false =>
    refine ⟨rfl, ?_⟩
    cases hcap : c₁.cap.startTLS with
    | false => simp [hcap, fail, Attempt.lift] at h
    | true =>
      simp only [hcap, Bool.false_eq_true, if_false, Bool.not_true, and_false, if_true] at h
      rw [← (ehlo_ok hc₁).1]
      exact startTLS_ok (Attempt.result_mapError_ok.mp h)

theorem connect_required {d : SMTPDeliverer} {host : Str} {noTLS : Bool}
    (h : (connect d peer host .required dane noTLS).result = .ok c) :
    noTLS = false ∧ Secured peer (trimDot host) dane c.channel := by
  obtain ⟨_, -, h⟩ := Attempt.result_bind_ok.mp h
  obtain ⟨c', hc', h⟩ := Attempt.result_bind_ok.mp h
  obtain rfl : c' = c := by
    split at h
    · split at h
      · cases h
      · obtain ⟨_, -, h⟩ := Attempt.result_bind_ok.mp h
        cases h
        rfl
    · cases h
      rfl
  exact greet_required (Attempt.result_mapError_ok.mp hc')

/-! ### The message -/

theorem body_transmit {body text : Str} {rs : List Response} {channel : Channel}
    {written : Except Str Unit} (h : .body channel text written ∈ (c.transmit peer body rs).events) :
    channel = c.channel := by
  rcases Attempt.mem_events_bind h with h | ⟨⟨code, lines⟩, -, h⟩
  · cases mem_singleton.mp h
  · dsimp only at h
    split at h
    · rcases Attempt.mem_events_bind h with h | ⟨_, -, h⟩
      · cases mem_singleton.mp h
      · cases h
    · rcases Attempt.mem_events_bind h with h | ⟨_, -, h⟩
      · cases mem_singleton.mp h
        rfl
      · rcases Attempt.mem_events_bind h with h | ⟨_, -, h⟩
        · cases mem_singleton.mp h
        · cases h

/-- What a client writes goes over its channel. -/
theorem body_deliver {sender : Str} {rcpts : List Str} {body text : Str}
    {channel : Channel} {written : Except Str Unit}
    (h : .body channel text written ∈ (c.deliver peer sender rcpts body).events) : channel = c.channel := by
  unfold Client.deliver at h
  split at h
  · cases h
  · split at h
    · cases h
    · rcases Attempt.mem_events_bind h with h | ⟨_, -, h⟩
      · obtain ⟨_, _, he⟩ := (civil_command _ _).sessions _ h
        cases he
      · rcases Attempt.mem_events_bind h with h | ⟨rs, -, h⟩
        · obtain ⟨_, _, _, he⟩ := mem_rcptAll h
          cases he
        · split at h
          · rcases Attempt.mem_events_bind h with h | ⟨_, -, h⟩
            · cases mem_singleton.mp h
            · cases h
          · exact body_transmit h

section
variable {d : SMTPDeliverer} {w : Outside} {domain sender body : Str} {addrs : List Str} {channel : Channel}
  {text : Str} {written : Except Str Unit}

variable {contact : Contact}

/-- With required TLS, a host gets the message only over a secured connection. -/
theorem body_deliverGroup {host : Str} {dane : List TLSA}
    (hc : contact ∈ (deliverGroup d w domain sender addrs body host .required dane).1)
    (h : .body channel text written ∈ contact.log) :
    Secured (w.peer domain host false) (trimDot host) dane channel := by
  have hsession : ∀ noTLS, .body channel text written ∈
      (connect d (w.peer domain host noTLS) host .required dane noTLS >>= fun c =>
        c.deliver (w.peer domain host noTLS) sender addrs body).events →
      Secured (w.peer domain host false) (trimDot host) dane channel := fun noTLS h => by
    rcases Attempt.mem_events_bind h with h | ⟨c, hc, h⟩
    · obtain ⟨_, _, he⟩ := (civil_connect ..).sessions _ h
      cases he
    · obtain ⟨rfl, hsec⟩ := connect_required hc
      rwa [body_deliver h]
  unfold deliverGroup at hc
  extract_lets session at hc
  split at hc
  · split at hc
    · simp only [mem_cons, not_mem_nil, or_false] at hc
      rcases hc with rfl | rfl
      · exact hsession false h
      · exact hsession true h
    · cases mem_singleton.mp hc
      exact hsession false h
  · cases mem_singleton.mp hc
    exact hsession false h

theorem host_deliverGroup {host : Str} {mode : TLSMode} {dane : List TLSA}
    (hc : contact ∈ (deliverGroup d w domain sender addrs body host mode dane).1) : contact.host = host := by
  unfold deliverGroup at hc
  extract_lets session at hc
  split at hc
  · split at hc
    · simp only [mem_cons, not_mem_nil, or_false] at hc
      rcases hc with rfl | rfl <;> rfl
    · cases mem_singleton.mp hc
      rfl
  · cases mem_singleton.mp hc
    rfl

/-- Every connection is made under the policy for its host. -/
theorem mem_tryHosts : ∀ {hosts : List Str} {last : Option Failure},
    contact ∈ (tryHosts d w domain sender addrs body hosts last).1 → ∃ mode dane,
      outboundTLSPolicy d w domain contact.host = .ok (mode, dane) ∧
        contact ∈ (deliverGroup d w domain sender addrs body contact.host mode dane).1
  | [], _, h => by cases h
  | host :: rest, _, h => by
    cases hpolicy : outboundTLSPolicy d w domain host with
    | error f =>
      rw [tryHosts_skip hpolicy] at h
      exact mem_tryHosts h
    | ok policy =>
      obtain ⟨mode, dane⟩ := policy
      have hgroup : contact ∈ (deliverGroup d w domain sender addrs body host mode dane).1 → ∃ mode dane,
          outboundTLSPolicy d w domain contact.host = .ok (mode, dane) ∧
            contact ∈ (deliverGroup d w domain sender addrs body contact.host mode dane).1 := fun hc => by
        have hhost := host_deliverGroup hc
        exact ⟨mode, dane, hhost ▸ hpolicy, by rwa [hhost]⟩
      cases hout : (deliverGroup d w domain sender addrs body host mode dane).2 with
      | ok resps =>
        rw [tryHosts_ok hpolicy hout] at h
        exact hgroup h
      | error f =>
        cases hf : f.permanent with
        | true =>
          rw [tryHosts_permanent hpolicy hout hf] at h
          exact hgroup h
        | false =>
          rw [tryHosts_next hpolicy hout hf] at h
          exact (mem_append.mp h).elim hgroup mem_tryHosts

theorem mem_deliverDomain (h : contact ∈ (deliverDomain d w sender body domain addrs).contacts) :
    ∃ mode dane, outboundTLSPolicy d w domain contact.host = .ok (mode, dane) ∧
      contact ∈ (deliverGroup d w domain sender addrs body contact.host mode dane).1 := by
  unfold deliverDomain at h
  split at h
  · cases h
  · rename_i hosts _
    have hmem : contact ∈ (tryHosts d w domain sender addrs body hosts none).1 := by
      split at h <;> rename_i hout <;> rw [hout] <;> exact h
    exact mem_tryHosts hmem

end

/-- NO DOWNGRADE: the message is written only to a channel that is as good as the policies ask for. Where the
    MTA-STS source gives a policy to enforce, TLS was verified for the name of the host and the policy
    allows the host; where it gives none and the host has validated TLSA records, the certificate
    matched one of them. -/
theorem body_respects_policy {d : SMTPDeliverer} {w : Outside} {resolver : PolicyResolver}
    (hresolver : d.policyResolver = some resolver) {sender body : Str} {addrs : List Str} {domain : Str}
    {contact : Contact} (hc : contact ∈ (d.group w sender body addrs domain).contacts)
    {channel : Channel} {text : Str} {written : Except Str Unit} (h : .body channel text written ∈ contact.log) :
    (∀ policy, d.enforced domain = some policy → channel = .verified (trimDot contact.host) ∧
      (w.peer domain contact.host false).certified (trimDot contact.host) = .ok () ∧
      policy.matches w.unicode (normalizeDomain w.unicode contact.host) = true) ∧
    (d.enforced domain = none → w.isIP (normalizeDomain w.unicode contact.host) = false →
      ∀ records, records ≠ [] →
        lookupTLSAForDANE resolver (normalizeDomain w.unicode contact.host) = .ok (records, true) →
      channel = .pinned (trimDot contact.host) records ∧
      (w.peer domain contact.host false).dane records (trimDot contact.host) = .ok ()) := by
  obtain ⟨mode, dane, hpolicy, hgroup⟩ := mem_deliverDomain hc
  simp only [outboundTLSPolicy, hresolver] at hpolicy
  refine ⟨fun policy henf => ?_, fun hnone hip records hne hlookup => ?_⟩
  · rw [henf] at hpolicy
    dsimp only at hpolicy
    split at hpolicy
    · cases hpolicy
    · rename_i hmatch
      cases hpolicy
      obtain ⟨-, hsec⟩ := body_deliverGroup hgroup h
      rw [if_pos rfl] at hsec
      exact ⟨hsec.1, hsec.2, by simpa using hmatch⟩
  · rw [hnone] at hpolicy
    simp only [daneMode, hip, hlookup, Bool.false_eq_true, if_false, ne_eq, hne, not_false_eq_true, and_self,
      if_true] at hpolicy
    cases hpolicy
    obtain ⟨-, hsec⟩ := body_deliverGroup hgroup h
    rwa [if_neg hne] at hsec

/-- One host for every domain, which offers STARTTLS. -/
def oneHost : Outside where
  lookupMX _ := ([ascii "mx.example.org."], none)
  lookupIP _ := ([], none)
  isIP _ := false
  quote := id
  unicode := asciiOnly
  peer _ _ _ := { ehlo := .ok (250, [ascii "mx.example.org", ascii "STARTTLS"]) }

/-- A policy to enforce for every domain. -/
def enforcing : SMTPDeliverer where
  policyResolver := some (.plain fun _ => .ok [])
  mtsts := some fun _ => .ok (some ⟨.enforce, [ascii "*.example.org"]⟩)

/-- A TLSA record for every host. -/
def pinning : SMTPDeliverer where
  policyResolver := some (.validating fun _ => .ok ([⟨3, 1, 1, ascii "digest"⟩], true))

/-- What passes when the message is taken. -/
def takenContact (channel : Channel) : Contact where
  host := ascii "mx.example.org"
  log :=
    [.session .greeting (.ok (220, [])), .session .ehlo (.ok (250, [ascii "mx.example.org", ascii "STARTTLS"])),
      .session .starttls (.ok (220, [])), .session .ehlo (.ok (250, [])),
      .session (.mail (ascii "a@example.com")) (.ok (250, [])), .rcpt 0 (ascii "b@example.org") (.ok (250, [])),
      .data (.ok (354, [])), .body channel (ascii "\r\n.\r\n") (.ok ()), .finish (.ok (250, []))]

theorem body_respects_policy_enforcing :
    let contacts := fun d : SMTPDeliverer =>
      (d.group oneHost (ascii "a@example.com") [] [ascii "b@example.org"] (ascii "example.org")).contacts
    let verified := takenContact (.verified (ascii "mx.example.org"))
    let pinned := takenContact (.pinned (ascii "mx.example.org") [⟨3, 1, 1, ascii "digest"⟩])
    (verified ∈ contacts enforcing ∧ Policy.matches asciiOnly ⟨.enforce, [ascii "*.example.org"]⟩
      (normalizeDomain asciiOnly verified.host) = true) ∧
    pinned ∈ contacts pinning ∧ (oneHost.peer (ascii "example.org") pinned.host false).dane
      [⟨3, 1, 1, ascii "digest"⟩] (trimDot pinned.host) = .ok () := by
  intro contacts verified pinned
  have hbody : ∀ channel, .body channel (ascii "\r\n.\r\n") (.ok ()) ∈ (takenContact channel).log := by
    simp [takenContact]
  have hverified : verified ∈ contacts enforcing := by decide +kernel
  have hpinned : pinned ∈ contacts pinning := by decide +kernel
  exact ⟨⟨hverified, ((body_respects_policy rfl hverified (hbody _)).1 _ rfl).2.2⟩,
    hpinned, ((body_respects_policy rfl hpinned (hbody _)).2 rfl rfl _ (by simp) rfl).2⟩

end Mailezine.Queue
