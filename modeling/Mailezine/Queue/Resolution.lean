import Mailezine.Queue.Outcomes

/-! What a failing name service does to the mail of a domain.

    The two lookups are merged into one error, and every error of the merge is recorded as permanent. So
    the mail is safe only from failures that do not reach the merge: where the MX lookup has told
    something, or where a lookup that brings nothing knows that there is nothing. -/

namespace Mailezine.Queue
open Gostd Schemes Mailsmtp List

/-- The MX lookup brings nothing, neither a host nor a null MX. -/
def Outside.silent (w : Outside) (domain : Str) : Prop :=
  mxHosts (w.lookupMX domain).1 = [] ∧ [0x2e] ∉ (w.lookupMX domain).1

/-- No failure of the name service bounces the mail of a domain or takes it past the MX.
    A lookup fails when it brings nothing and does not know that there is nothing. -/
structure SafeFromFailures (d : SMTPDeliverer) (w : Outside) (sender body domain : Str) (addrs : List Str) :
    Prop where
  bounced : (deliverDomain d w sender body domain addrs).contacts = [] →
    ∀ res ∈ (deliverDomain d w sender body domain addrs).results, res.permanent = true →
      w.unserved domain = true
  retried : w.silent domain →
    settled (w.lookupMX domain).2 = false ∨
      (w.lookupIP domain).1 = [] ∧ settled (w.lookupIP domain).2 = false →
    ∀ res ∈ (deliverDomain d w sender body domain addrs).results, res.ok = false ∧ res.permanent = false
  hosts : ∀ hosts, mxCandidates w domain = .ok hosts → ∀ host ∈ hosts,
    host ∈ mxHosts (w.lookupMX domain).1 ∨ w.silent domain ∧ settled (w.lookupMX domain).2 = true

/-- A lookup that brings nothing knows that there is nothing. -/
def Outside.Definite (w : Outside) (domain : Str) : Prop :=
  w.silent domain → settled (w.lookupMX domain).2 = true ∧
    ((w.lookupIP domain).1 = [] → settled (w.lookupIP domain).2 = true)

section
variable {d : SMTPDeliverer} {w : Outside} {sender body domain : Str} {addrs : List Str}

theorem mxCandidates_of_mx (h : mxHosts (w.lookupMX domain).1 ≠ []) :
    mxCandidates w domain = .ok (mxHosts (w.lookupMX domain).1) := by
  simp [mxCandidates, h]

theorem mxCandidates_of_silent (h : w.silent domain) (hips : (w.lookupIP domain).1 ≠ []) :
    mxCandidates w domain = .ok (w.lookupIP domain).1.eraseDups := by
  simp [mxCandidates, h.1, h.2, hips]

theorem hostless_of_silent (h : w.silent domain) (hips : (w.lookupIP domain).1 = []) :
    w.hostless domain = true := by
  simp [Outside.hostless, h.1, hips]

/-- Where the lookups are definite, a domain without a host takes no mail. -/
theorem Outside.Definite.unserved (h : w.Definite domain) (hhost : w.hostless domain = true) :
    w.unserved domain = true := by
  have hmx : mxHosts (w.lookupMX domain).1 = [] ∧
      ([0x2e] ∈ (w.lookupMX domain).1 ∨ (w.lookupIP domain).1 = []) := by
    simpa [Outside.hostless] using hhost
  by_cases hnull : [0x2e] ∈ (w.lookupMX domain).1
  · simp [Outside.unserved, hhost, hnull]
  · obtain ⟨hmxErr, hipErr⟩ := h ⟨hmx.1, hnull⟩
    simp [Outside.unserved, hhost, hmxErr, hipErr (hmx.2.resolve_left hnull)]

/-- Where nobody was asked and there was a host to ask, nothing is permanent. -/
theorem not_permanent_of_host (hhost : w.hostless domain = false)
    (hnone : (deliverDomain d w sender body domain addrs).contacts = []) {res : Result}
    (hres : res ∈ (deliverDomain d w sender body domain addrs).results) : res.permanent = false := by
  obtain ⟨out, hagree, hout⟩ := deliverDomain_of_host d w sender body addrs hhost
  rw [hout] at hres
  rw [hnone] at hagree
  obtain ⟨j, hj, hres⟩ := mem_iff_getElem.mp hres
  rw [length_outcome] at hj
  obtain ⟨res', hres', hreflects⟩ := hagree.reflects (getElem?_eq_getElem hj)
  obtain rfl : res' = res := Option.some.inj (hres'.symm.trans (by rw [← hres, getElem?_eq_getElem]))
  have hok : res'.ok = false := by
    rw [← Bool.not_eq_true, hreflects.ok]
    rintro (⟨c, hc, -⟩ | ⟨c, hc, -⟩) <;> cases hc
  rw [← Bool.not_eq_true, hreflects.permanent hok]
  rintro ⟨c, hc, -⟩
  cases hc

end

/-- FAILING LOOKUPS: a round for a domain is safe from failures of the name service exactly when there are
    none: a lookup that brings nothing knows that there is nothing. -/
theorem safe_from_failures_iff (d : SMTPDeliverer) (w : Outside) (sender body domain addr : Str)
    (addrs : List Str) : SafeFromFailures d w sender body domain (addr :: addrs) ↔ w.Definite domain := by
  constructor
  · intro h hsilent
    by_cases hips : (w.lookupIP domain).1 = []
    · -- the recipient's result is permanent, so no lookup can have failed
      obtain ⟨err, hround⟩ :=
        deliverDomain_of_hostless d w sender body (addr :: addrs) (hostless_of_silent hsilent hips)
      have hsettled : ¬(settled (w.lookupMX domain).2 = false ∨
          (w.lookupIP domain).1 = [] ∧ settled (w.lookupIP domain).2 = false) := fun hfail => by
        have := (h.retried hsilent hfail ⟨addr, false, true, some err⟩ (by rw [hround]; simp [failAll])).2
        cases this
      simpa [hips] using hsettled
    · obtain ⟨ip, ips, hcons⟩ := exists_cons_of_ne_nil hips
      have hhost := h.hosts _ (mxCandidates_of_silent hsilent hips) ip (by simp [hcons, eraseDups_cons])
      rw [hsilent.1] at hhost
      exact ⟨(hhost.resolve_left not_mem_nil).2, fun h => absurd h hips⟩
  · intro h
    refine ⟨fun hnone res hres hperm => ?_, fun hsilent hfail => ?_, fun hosts hhosts host hmem => ?_⟩
    · cases hhost : w.hostless domain with
      | true => exact h.unserved hhost
      | false => cases hperm.symm.trans (not_permanent_of_host hhost hnone hres)
    · obtain ⟨hmx, hip⟩ := h hsilent
      rcases hfail with hfail | ⟨hips, hfail⟩
      · cases hmx.symm.trans hfail
      · cases (hip hips).symm.trans hfail
    · by_cases hmx : mxHosts (w.lookupMX domain).1 = []
      · have hhost : w.hostless domain ≠ true := fun hhost => by
          obtain ⟨err, herr⟩ := mxCandidates_error_iff.mpr hhost
          cases hhosts.symm.trans herr
        have hsilent : w.silent domain := ⟨hmx, fun hnull => hhost (by simp [Outside.hostless, hmx, hnull])⟩
        exact .inr ⟨hsilent, (h hsilent).1⟩
      · cases hhosts.symm.trans (mxCandidates_of_mx hmx)
        exact .inl hmem

/-- The MX lookup of every domain times out; one domain has an address. -/
def timingOut : Outside where
  lookupMX _ := ([], some ⟨ascii "i/o timeout", false⟩)
  lookupIP domain := if domain = ascii "one.org" then ([ascii "192.0.2.1"], none) else ([], none)
  isIP _ := false
  quote := id
  unicode := asciiOnly
  peer _ _ _ := {}

/-- A timeout bounces the mail of one domain, and takes that of another past its MX. -/
theorem timeout_bounces :
    (deliverDomain {} timingOut (ascii "a@example.com") [] (ascii "two.org") [ascii "b@two.org"]).results =
      [⟨ascii "b@two.org", false, true, some (ascii "queue: no MX or address for two.org: i/o timeout")⟩] ∧
    mxCandidates timingOut (ascii "one.org") = .ok [ascii "192.0.2.1"] ∧
    ¬SafeFromFailures {} timingOut (ascii "a@example.com") [] (ascii "two.org") [ascii "b@two.org"] ∧
    ¬SafeFromFailures {} timingOut (ascii "a@example.com") [] (ascii "one.org") [ascii "b@one.org"] := by
  have hsilent : ∀ domain, timingOut.silent domain := fun domain => ⟨rfl, by simp [timingOut]⟩
  have hround : (deliverDomain {} timingOut (ascii "a@example.com") [] (ascii "two.org")
      [ascii "b@two.org"]).results =
      [⟨ascii "b@two.org", false, true, some (ascii "queue: no MX or address for two.org: i/o timeout")⟩] := rfl
  have hhosts : mxCandidates timingOut (ascii "one.org") = .ok [ascii "192.0.2.1"] :=
    mxCandidates_of_silent (hsilent _) (by decide +kernel)
  refine ⟨hround, hhosts, fun h => ?_, fun h => ?_⟩
  · have := (h.retried (hsilent _) (.inl rfl) _ (by rw [hround]; exact mem_cons_self)).2
    cases this
  · rcases h.hosts _ hhosts _ mem_cons_self with hmem | ⟨-, hmx⟩
    · exact absurd hmem (by decide +kernel)
    · exact absurd hmx (by decide +kernel)

end Mailezine.Queue
