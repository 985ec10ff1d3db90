import Mailezine.Queue.Outcomes

/-! Recipients split by the relay of their domain.

    The directory names a host for some recipients; each host has its own delivery, and those without a
    host go together to the direct deliverer, which is asked first. The results are put one after the
    other as the deliveries end, so they stand with their recipients only where the recipients come group
    by group, and the first error throws away what the deliveries before it have brought. -/

namespace Mailezine.Queue
open Gostd Schemes Mailsmtp List

/-! ### Deliverers -/

/-- `Deliverer`: the results are in the order of the recipients; an error is about all of them. -/
structure Deliverer where
  deliver : Str → Str → List Str → Except Str (List Result)
  inOrder : ∀ {sender body addrs rs}, deliver sender body addrs = .ok rs → rs.map (·.addr) = addrs

/-- The results of the queue's own deliverer are in the order of the recipients. -/
theorem addrs_deliver (d : SMTPDeliverer) (w : Outside) (sender body : Str) (addrs : List Str) :
    (d.deliver w sender body addrs).map (·.addr) = addrs := by
  refine ext_getElem? fun i => ?_
  rw [getElem?_map]
  cases ha : addrs[i]? with
  | none =>
    rw [List.getElem?_eq_none_iff] at ha
    rw [getElem?_eq_none (by rwa [length_deliver])]
    rfl
  | some addr =>
    obtain ⟨res, hres, hreflects⟩ := reflects_deliver d w sender body ha
    rw [hres, Option.map_some, hreflects.addr]

/-- `SMTPDeliverer` as a deliverer; it has no error of its own. -/
def SMTPDeliverer.deliverer (d : SMTPDeliverer) (w : Outside) : Deliverer where
  deliver sender body addrs := .ok (d.deliver w sender body addrs)
  inOrder h := by
    cases h
    exact addrs_deliver ..

/-- What stands behind the relay deliverer; `port` is the one for hosts that name none. -/
inductive Direct where
  | smtp (d : SMTPDeliverer) (port : Nat) (w : Outside)
  | other (d : Deliverer)

def Direct.deliverer : Direct → Deliverer
  | .smtp d _ w => d.deliverer w
  | .other d => d

/-! ### Relays -/

/-- `target`; the port 0 stands for the usual one. -/
structure Target where
  host : Str
  port : Nat
  deriving DecidableEq

/-- `parseRelayTransport`. -/
def parseRelayTransport (transport : Str) : Option Target :=
  let transport := trimSpace transport
  match index [0x3a] transport with
  | none => none
  | some i =>
    if !equalFold (transport.take i) (ascii "smtp") then none
    else
      let rest := trimSpace (transport.drop (i + 1))
      if rest.head? ≠ some 0x5b then none
      else match index [0x5d] rest with
        | none => none
        | some stop =>
          let host := (rest.take stop).drop 1
          if host = [] then none
          else
            let after := rest.drop (stop + 1)
            if after.head? = some 0x3a then
              match atoi (after.drop 1) with
              | none => none
              | some p => if p ≤ 0 ∨ 65535 < p then none else some ⟨host, p.toNat⟩
            else some ⟨host, 0⟩

/-- `RelayDeliverer`; `relay` is the directory, which answers with a transport. -/
structure RelayDeliverer where
  relay : Str → Except Str Str
  direct : Direct
  newFixed : Option (Str → Nat → Deliverer) := none

/-- `relayTarget`; no relay is known for a recipient whose lookup fails. -/
def RelayDeliverer.relayTarget (d : RelayDeliverer) (addr : Str) : Option Target :=
  match d.relay addr with
  | .error _ => none
  | .ok transport => parseRelayTransport transport

/-- `fixedDeliverer`. -/
def RelayDeliverer.fixedDeliverer (d : RelayDeliverer) (t : Target) : Deliverer :=
  match d.newFixed with
  | some new => new t.host t.port
  | none => match d.direct with
    | .smtp direct port w =>
      SMTPDeliverer.deliverer { direct with
        fixedHost := t.host
        port := if t.port ≠ 0 then t.port else port } w
    | .other direct => direct

/-- The recipients of a target, or those without one. -/
def RelayDeliverer.group (d : RelayDeliverer) (addrs : List Str) (key : Option Target) : List Str :=
  addrs.filter fun addr => d.relayTarget addr = key

/-- The groups as they are delivered: those without a relay, then the targets as they appear. -/
def RelayDeliverer.rounds (d : RelayDeliverer) (addrs : List Str) : List (Option Target) :=
  (if d.group addrs none = [] then [] else [none]) ++ (addrs.filterMap d.relayTarget).eraseDups.map some

/-- What the deliverer of a group answers. -/
def RelayDeliverer.answer (d : RelayDeliverer) (sender body : Str) (addrs : List Str) (key : Option Target) :
    Except Str (List Result) :=
  let deliverer := match key with
    | none => d.direct.deliverer
    | some t => d.fixedDeliverer t
  deliverer.deliver sender body (d.group addrs key)

/-- The loop over the groups. -/
def RelayDeliverer.deliverRounds (d : RelayDeliverer) (sender body : Str) (addrs : List Str) :
    List (Option Target) → List Result → Except Str (List Result)
  | [], results => .ok results
  | key :: keys, results =>
    match d.answer sender body addrs key with
    | .error err => .error err
    | .ok res => d.deliverRounds sender body addrs keys (results ++ res)

/-- `Deliver`. -/
def RelayDeliverer.deliver (d : RelayDeliverer) (sender body : Str) (addrs : List Str) : Except Str (List Result) :=
  d.deliverRounds sender body addrs (d.rounds addrs) []

/-! ### What is to be preserved -/

/-- The results that a group has brought. -/
def RelayDeliverer.results (d : RelayDeliverer) (sender body : Str) (addrs : List Str) (key : Option Target) :
    List Result :=
  (d.answer sender body addrs key).toOption.getD []

/-- The outcome of the recipient at a position: what its group has brought for it. -/
def RelayDeliverer.outcome (d : RelayDeliverer) (sender body : Str) (addrs : List Str) (i : Nat) (addr : Str) :
    Option Result :=
  (d.results sender body addrs (d.relayTarget addr))[rank (fun a => d.relayTarget a = d.relayTarget addr) addrs i]?

/-- What has been brought before the first error. -/
def RelayDeliverer.obtained (d : RelayDeliverer) (sender body : Str) (addrs : List Str) : List Result :=
  ((d.rounds addrs).takeWhile fun key => (d.answer sender body addrs key).isOk).flatMap (d.results sender body addrs)

/-- Every recipient has its own outcome at its position, and an error throws no outcome away. -/
structure Preserves (d : RelayDeliverer) (sender body : Str) (addrs : List Str) : Prop where
  length : ∀ rs, d.deliver sender body addrs = .ok rs → rs.length = addrs.length
  own : ∀ rs i addr, d.deliver sender body addrs = .ok rs → addrs[i]? = some addr →
    ∃ res, rs[i]? = some res ∧ res.addr = addr ∧ d.outcome sender body addrs i addr = some res
  kept : ∀ err, d.deliver sender body addrs = .error err → d.obtained sender body addrs = []

section
variable {d : RelayDeliverer} {sender body : Str} {addrs : List Str}

theorem deliverRounds_ok : ∀ {keys : List (Option Target)} {rs : List Result},
    (∀ key ∈ keys, (d.answer sender body addrs key).isOk = true) →
    d.deliverRounds sender body addrs keys rs = .ok (rs ++ keys.flatMap (d.results sender body addrs))
  | [], rs, _ => by rw [RelayDeliverer.deliverRounds, flatMap_nil, append_nil]
  | key :: keys, rs, h => by
    cases hans : d.answer sender body addrs key with
    | error err =>
      have := h key mem_cons_self
      rw [hans] at this
      cases this
    | ok res =>
      have hres : d.results sender body addrs key = res := by rw [RelayDeliverer.results, hans]; rfl
      simp only [RelayDeliverer.deliverRounds, hans]
      rw [deliverRounds_ok fun k hk => h k (mem_cons_of_mem _ hk), flatMap_cons, hres, append_assoc]

theorem deliverRounds_error : ∀ {keys : List (Option Target)} {rs : List Result},
    ¬(∀ key ∈ keys, (d.answer sender body addrs key).isOk = true) →
    ∃ err, d.deliverRounds sender body addrs keys rs = .error err
  | [], rs, h => absurd (by simp) h
  | key :: keys, rs, h => by
    cases hans : d.answer sender body addrs key with
    | error err => exact ⟨err, by simp only [RelayDeliverer.deliverRounds, hans]⟩
    | ok res =>
      simp only [RelayDeliverer.deliverRounds, hans]
      refine deliverRounds_error fun hkeys => h fun k hk => ?_
      rcases mem_cons.mp hk with rfl | hk
      · rw [hans]; rfl
      · exact hkeys k hk

/-- A group's results are those of its recipients. -/
theorem addrs_results {key : Option Target} (h : (d.answer sender body addrs key).isOk = true) :
    (d.results sender body addrs key).map (·.addr) = d.group addrs key := by
  cases hans : d.answer sender body addrs key with
  | error err =>
    rw [hans] at h
    cases h
  | ok res =>
    have hres : d.results sender body addrs key = res := by rw [RelayDeliverer.results, hans]; rfl
    rw [hres]
    exact Deliverer.inOrder _ hans

theorem addrs_flatMap_results {keys : List (Option Target)}
    (h : ∀ key ∈ keys, (d.answer sender body addrs key).isOk = true) :
    (keys.flatMap (d.results sender body addrs)).map (·.addr) = keys.flatMap (d.group addrs) := by
  rw [map_flatMap]
  exact flatMap_congr fun key hkey => addrs_results (h key hkey)

theorem group_ne_nil {key : Option Target} (h : key ∈ d.rounds addrs) : d.group addrs key ≠ [] := by
  rcases mem_append.mp h with h | h
  · split_ifs at h with hnil
    · cases h
    · rw [mem_singleton.mp h]
      exact hnil
  · obtain ⟨t, ht, rfl⟩ := List.mem_map.mp h
    obtain ⟨addr, haddr, ht⟩ := mem_filterMap.mp (mem_eraseDups.mp ht)
    exact ne_nil_of_mem (mem_filter.mpr ⟨haddr, decide_eq_true ht⟩)

theorem nodup_rounds (d : RelayDeliverer) (addrs : List Str) : (d.rounds addrs).Nodup := by
  refine nodup_append'.mpr ⟨?_, (nodup_eraseDups _).map (Option.some_injective _), ?_⟩
  · split_ifs <;> simp
  · intro key h h'
    obtain ⟨t, -, rfl⟩ := List.mem_map.mp h'
    split_ifs at h
    · cases h
    · cases mem_singleton.mp h

/-- What the first delivery has brought is lost when a later one fails. -/
theorem obtained_eq_nil_iff : d.obtained sender body addrs = [] ↔
    ∀ key, (d.rounds addrs).head? = some key → (d.answer sender body addrs key).isOk = false := by
  unfold RelayDeliverer.obtained
  cases hkeys : d.rounds addrs with
  | nil => simp
  | cons key keys =>
    have hne : d.group addrs key ≠ [] := group_ne_nil (hkeys ▸ mem_cons_self)
    rw [takeWhile_cons, head?_cons]
    cases hok : (d.answer sender body addrs key).isOk with
    | false => simp [hok]
    | true =>
      have hres : d.results sender body addrs key ≠ [] := fun hnil => hne (by
        rw [← addrs_results hok, hnil]
        rfl)
      simp [hok, hres]

end

/-- RELAYS: every recipient gets its own outcome at its position and no outcome is thrown away exactly when
    the first delivery fails, so that there is none, or no delivery fails and the recipients come group
    by group. -/
theorem preserves_iff (d : RelayDeliverer) (sender body : Str) (addrs : List Str) :
    Preserves d sender body addrs ↔
      (∃ key, (d.rounds addrs).head? = some key ∧ (d.answer sender body addrs key).isOk = false) ∨
      (∀ key ∈ d.rounds addrs, (d.answer sender body addrs key).isOk = true) ∧
        (d.rounds addrs).flatMap (d.group addrs) = addrs := by
  by_cases hall : ∀ key ∈ d.rounds addrs, (d.answer sender body addrs key).isOk = true
  · have hok : d.deliver sender body addrs = .ok ((d.rounds addrs).flatMap (d.results sender body addrs)) :=
      deliverRounds_ok hall
    have hmap := addrs_flatMap_results hall
    have hfirst : ¬∃ key, (d.rounds addrs).head? = some key ∧ (d.answer sender body addrs key).isOk = false := by
      rintro ⟨key, hkey, herr⟩
      cases (hall key (mem_of_mem_head? hkey)).symm.trans herr
    rw [or_iff_right hfirst, and_iff_right hall]
    constructor
    · intro h
      rw [← hmap]
      refine ext_getElem? fun i => ?_
      rw [getElem?_map]
      cases ha : addrs[i]? with
      | none =>
        rw [List.getElem?_eq_none_iff, ← h.length _ hok] at ha
        rw [getElem?_eq_none ha]
        rfl
      | some addr =>
        obtain ⟨res, hres, haddr, -⟩ := h.own _ i addr hok ha
        rw [hres, Option.map_some, haddr]
    · intro harranged
      rw [harranged] at hmap
      refine ⟨fun rs hrs => ?_, fun rs i addr hrs ha => ?_, fun err herr => by cases hok.symm.trans herr⟩
      · cases hok.symm.trans hrs
        rw [← length_map, hmap]
      · cases hok.symm.trans hrs
        obtain ⟨res, hres, haddr⟩ : ∃ res,
            ((d.rounds addrs).flatMap (d.results sender body addrs))[i]? = some res ∧ res.addr = addr := by
          have := congrArg (·[i]?) hmap
          simpa [ha, getElem?_map] using this
        refine ⟨res, hres, haddr, ?_⟩
        rw [← hres, RelayDeliverer.outcome]
        refine (getElem?_flatMap_of_parts (nodup_rounds d addrs) harranged (fun key hkey => ?_) ha).symm
        rw [← length_map, addrs_results (hall key hkey)]
        rfl
  · obtain ⟨err, herr⟩ : ∃ err, d.deliver sender body addrs = .error err := deliverRounds_error hall
    rw [or_iff_left fun h => hall h.1]
    constructor
    · intro h
      obtain ⟨key, hkey⟩ : ∃ key, (d.rounds addrs).head? = some key := by
        cases hkeys : d.rounds addrs with
        | nil => exact absurd (fun key hkey => by rw [hkeys] at hkey; cases hkey) hall
        | cons key keys => exact ⟨key, rfl⟩
      exact ⟨key, hkey, obtained_eq_nil_iff.mp (h.kept err herr) key hkey⟩
    · rintro ⟨key, hkey, hfail⟩
      refine ⟨fun rs hrs => (by cases herr.symm.trans hrs), fun rs i addr hrs => (by cases herr.symm.trans hrs),
        fun _ _ => obtained_eq_nil_iff.mpr fun key' hkey' => ?_⟩
      cases hkey.symm.trans hkey'
      exact hfail

/-- Every server takes the mail. -/
def agreeable : Outside where
  lookupMX domain := ([ascii "mx." ++ domain], none)
  lookupIP _ := ([], none)
  isIP _ := false
  quote := id
  unicode := asciiOnly
  peer _ _ _ := {}

/-- A relay for one recipient. -/
def oneRelay (newFixed : Option (Str → Nat → Deliverer)) : RelayDeliverer where
  relay addr :=
    if addr = ascii "b@two.org" then .ok (ascii "smtp:[relay.two.org]:2525") else .error (ascii "not found")
  direct := .smtp {} 25 agreeable
  newFixed := newFixed

/-- No delivery to a relay ends. -/
def downRelay : RelayDeliverer := oneRelay (some fun _ _ => ⟨fun _ _ _ => .error (ascii "relay down"), nofun⟩)

/-- A recipient without a relay behind one with a relay gets the other's place; an error of the relay throws
    away that the other recipient's server took the message. -/
theorem relay_swaps_and_drops :
    (oneRelay none).deliver (ascii "a@example.com") [] [ascii "b@two.org", ascii "c@one.org"] =
      .ok [⟨ascii "c@one.org", true, false, none⟩, ⟨ascii "b@two.org", true, false, none⟩] ∧
    downRelay.deliver (ascii "a@example.com") [] [ascii "c@one.org", ascii "b@two.org"] =
      .error (ascii "relay down") ∧
    downRelay.obtained (ascii "a@example.com") [] [ascii "c@one.org", ascii "b@two.org"] =
      [⟨ascii "c@one.org", true, false, none⟩] ∧
    ¬Preserves (oneRelay none) (ascii "a@example.com") [] [ascii "b@two.org", ascii "c@one.org"] ∧
    ¬Preserves downRelay (ascii "a@example.com") [] [ascii "c@one.org", ascii "b@two.org"] := by
  have hswap : (oneRelay none).deliver (ascii "a@example.com") [] [ascii "b@two.org", ascii "c@one.org"] =
      .ok [⟨ascii "c@one.org", true, false, none⟩, ⟨ascii "b@two.org", true, false, none⟩] := rfl
  have hdown : downRelay.deliver (ascii "a@example.com") [] [ascii "c@one.org", ascii "b@two.org"] =
      .error (ascii "relay down") := rfl
  have hdrop : downRelay.obtained (ascii "a@example.com") [] [ascii "c@one.org", ascii "b@two.org"] =
      [⟨ascii "c@one.org", true, false, none⟩] := rfl
  refine ⟨hswap, hdown, hdrop, fun h => ?_, fun h => ?_⟩
  · obtain ⟨res, hres, haddr, -⟩ := h.own _ 0 _ hswap rfl
    cases hres
    exact absurd haddr (by decide +kernel)
  · cases hdrop.symm.trans (h.kept _ hdown)

end Mailezine.Queue
