import Mailezine.Spf.Control
import Mathlib.Data.List.TakeWhile

/-! The lookup budget of an evaluation.

    Every question but the first one is meant to be paid for before it is asked, and an evaluation that
    cannot pay is meant to end in a permanent error. Recursion is paid for as well, which bounds its depth
    by the budget. Two things escape: the name of the peer that a redirect's macro asks for, and the hosts
    of `mx` and the names of `ptr`, where an empty budget only ends the search. -/

namespace Mailezine.Spf
open Schemes Gostd

/-! ### The counter never goes back -/

/-- An evaluation that does not lower the counter. -/
def Grows {α : Type} (m : Eval α) : Prop := ∀ s, s.lookups ≤ (m s).2.lookups

variable {m : Eval Step} {hasArg : Bool} {s' : State} {bottom : Str → Eval Result}

section Grows
variable {α β : Type}

theorem grows_pure (a : α) : Grows (pure a : Eval α) := fun s => Nat.le_refl s.lookups

theorem Grows.bind {m : Eval α} {f : α → Eval β} (hm : Grows m) (hf : ∀ a, Grows (f a)) : Grows (m >>= f) :=
  fun s => (hm s).trans (hf _ _)

theorem grows_ask (q : Query) (answer : Nat → α) : Grows (ask q answer) := fun s => Nat.le_refl s.lookups

theorem grows_budget : Grows budget := fun s => Nat.le_succ s.lookups

variable (e : Peer)

theorem grows_ipInAddrs (host : Str) (cidr : Int) : Grows (e.ipInAddrs host cidr) := by
  refine (grows_ask _ _).bind fun ans => ?_
  cases ans <;> exact grows_pure _

theorem grows_inHosts (domain : Str) (cidr : Int) : ∀ hosts, Grows (e.inHosts domain cidr hosts)
  | [] => grows_budget.bind fun b => by
    cases b
    · exact grows_pure _
    · exact grows_ipInAddrs e domain cidr
  | host :: hosts => grows_budget.bind fun b => by
    cases b
    · exact grows_pure _
    · refine (grows_ipInAddrs e _ cidr).bind fun hit => ?_
      cases hit
      · exact grows_inHosts domain cidr hosts
      · exact grows_pure _

theorem grows_ipInMX (domain : Str) (cidr : Int) : Grows (e.ipInMX domain cidr) := by
  refine (grows_ask _ _).bind fun ans => ?_
  cases ans
  · exact grows_pure _
  · exact grows_inHosts e domain cidr _

theorem grows_confirmNames (domain : Str) : ∀ names, Grows (e.confirmNames domain names)
  | [] => grows_pure _
  | name :: names => by
    rw [Peer.confirmNames]
    split
    · exact grows_confirmNames domain names
    · refine grows_budget.bind fun b => ?_
      cases b
      · exact grows_pure _
      · refine (grows_ipInAddrs e _ (-1)).bind fun hit => ?_
        cases hit
        · exact grows_confirmNames domain names
        · exact grows_pure _

theorem grows_ptrMatches (domain : Str) : Grows (e.ptrMatches domain) := by
  refine (grows_ask _ _).bind fun ans => ?_
  cases ans
  · exact grows_pure _
  · exact grows_confirmNames e _ _

theorem grows_letter (name domain : Str) (ipOnly : Bool) : Grows (e.letter name domain ipOnly) := by
  unfold Peer.letter
  repeat' split
  all_goals first | exact grows_pure _ | skip
  refine (grows_ask _ _).bind fun ans => ?_
  rcases ans with _ | (_ | _) <;> exact grows_pure _

theorem grows_value (domain : Str) (ipOnly : Bool) (p : Piece) : Grows (e.value domain ipOnly p) := by
  cases p with
  | bytes text => exact grows_pure _
  | braces body =>
    unfold Peer.value Peer.expandMacro
    dsimp only
    split
    · exact grows_pure _
    · refine (grows_letter e _ domain ipOnly).bind fun v => ?_
      cases v <;> exact grows_pure _

theorem grows_expandFrom (domain : Str) (ipOnly : Bool) : ∀ (text : Str) (skip : Nat),
    Grows (e.expandFrom domain ipOnly skip text)
  | [], skip => by
    rw [Peer.expandFrom.eq_def]
    exact grows_pure _
  | _ :: r, skip + 1 => grows_expandFrom domain ipOnly r skip
  | c :: r, 0 => by
    rw [Peer.expandFrom.eq_def]
    dsimp only
    split
    · exact grows_pure _
    · refine (grows_value e domain ipOnly _).bind fun v => ?_
      cases v
      · exact grows_pure _
      · exact (grows_expandFrom domain ipOnly r _).bind fun _ => grows_pure _

theorem grows_budgeted (h : Grows m) : Grows (budgeted m) := grows_budget.bind fun b => by
  cases b
  · exact grows_pure _
  · exact h

theorem grows_hostCase {find : Str → Int → Eval Bool} (h : ∀ host cidr, Grows (find host cidr)) (q : UInt8)
    (arg : Str) (hasArg : Bool) (domain : Str) : Grows (hostCase find q arg hasArg domain) := by
  unfold hostCase
  dsimp only
  split
  · exact grows_pure _
  · exact (h _ _).bind fun _ => grows_pure _

theorem grows_mechanism (q : UInt8) (mech arg : Str) (hasArg : Bool) (domain : Str) :
    Grows (e.mechanism q mech arg hasArg domain) := by
  unfold Peer.mechanism
  repeat' split
  all_goals first | exact grows_pure _ | refine grows_budgeted ?_
  · exact grows_hostCase (grows_ipInAddrs e) q arg hasArg domain
  · exact grows_hostCase (grows_ipInMX e) q arg hasArg domain
  · unfold Peer.ptrCase
    split
    · exact grows_pure _
    · exact (grows_ptrMatches e _).bind fun _ => grows_pure _
  · unfold Peer.existsCase
    split
    · exact grows_pure _
    · refine (grows_ask _ _).bind fun ans => ?_
      rcases ans with (_ | _) | _ <;> exact grows_pure _
  · exact grows_pure _
  · exact grows_pure _

theorem grows_readTerm (term domain : Str) : Grows (e.readTerm term domain) := by
  unfold Peer.readTerm
  dsimp only
  split
  · refine (grows_expandFrom e domain true _ 0).bind fun arg => ?_
    cases arg
    · exact grows_pure _
    · exact grows_mechanism e _ _ _ _ domain
  · exact grows_mechanism e _ _ _ _ domain

end Grows

/-! ### The recursion ends -/

/-- Two evaluations of other domains that agree wherever the counter has gone up and is within the limit. -/
def AgreeAbove (k : Nat) (sub sub' : Str → Eval Result) : Prop :=
  ∀ d s, k < s.lookups → s.lookups ≤ maxDNSLookups → sub d s = sub' d s

/-- The evaluation of other domains does not lower the counter there. -/
def RisesAbove (k : Nat) (sub : Str → Eval Result) : Prop :=
  ∀ d s, k < s.lookups → s.lookups ≤ maxDNSLookups → s.lookups ≤ (sub d s).2.lookups

/-- Two evaluations that agree from a state on and do not lower its counter. -/
def Alike {α : Type} (m m' : Eval α) (s : State) : Prop := m s = m' s ∧ s.lookups ≤ (m s).2.lookups

section Congruence
variable {e : Peer} {k : Nat} {sub sub' : Str → Eval Result}

variable {q : UInt8} {s : State} {target : Str}

theorem budgeted_recurse
    (h : budgeted m s = (.recurse q target, s')) : s.lookups < maxDNSLookups ∧
      m { s with lookups := s.lookups + 1 } = (.recurse q target, s') := by
  rw [budgeted_apply] at h
  split at h
  case isTrue hl => exact ⟨hl, h⟩
  case isFalse => cases h

/-- A mechanism that is evaluated by itself. -/
def Closed (m : Eval Step) : Prop := ∀ s, ∃ o, (m s).1 = .done o

theorem closed_hostCase (find : Str → Int → Eval Bool) (q : UInt8) (arg : Str) (hasArg : Bool) (domain : Str) :
    Closed (hostCase find q arg hasArg domain) := by
  intro s
  unfold hostCase
  split <;> exact ⟨_, rfl⟩

theorem closed_ptrCase (q : UInt8) (arg : Str) (hasArg : Bool) (domain : Str) :
    Closed (e.ptrCase q arg hasArg domain) := by
  intro s
  unfold Peer.ptrCase
  split <;> exact ⟨_, rfl⟩

theorem closed_existsCase (q : UInt8) (arg : Str) : Closed (e.existsCase q arg) := by
  intro s
  unfold Peer.existsCase
  split
  · exact ⟨_, rfl⟩
  · rw [bind_apply]
    rcases (e.lookupIPAddr arg s).1 with (_ | _) | _ <;> exact ⟨_, rfl⟩

theorem Closed.budgeted (hm : Closed m) :
    budgeted m s ≠ (.recurse q target, s') := by
  intro h
  obtain ⟨-, h⟩ := budgeted_recurse h
  obtain ⟨o, ho⟩ := hm { s with lookups := s.lookups + 1 }
  rw [h] at ho
  cases ho

/-- An `include` is paid for before its domain is evaluated. -/
theorem mechanism_recurse {q' : UInt8} {mech arg domain : Str}
    (h : e.mechanism q mech arg hasArg domain s = (.recurse q' target, s')) :
    s.lookups < maxDNSLookups ∧ s' = { s with lookups := s.lookups + 1 } := by
  unfold Peer.mechanism at h
  split at h
  · cases h
  split at h
  · unfold Peer.ipCase at h
    split at h <;> cases h
  split at h
  · exact absurd h (closed_hostCase _ _ _ _ _).budgeted
  split at h
  · exact absurd h (closed_hostCase _ _ _ _ _).budgeted
  split at h
  · exact absurd h (closed_ptrCase _ _ _ _).budgeted
  split at h
  · exact absurd h (closed_existsCase _ _).budgeted
  split at h
  · obtain ⟨hl, h⟩ := budgeted_recurse h
    exact ⟨hl, (congrArg Prod.snd h).symm⟩
  · cases h

theorem readTerm_recurse {term domain : Str}
    (h : e.readTerm term domain s = (.recurse q target, s')) :
    s.lookups < s'.lookups ∧ s'.lookups ≤ maxDNSLookups := by
  unfold Peer.readTerm at h
  dsimp only at h
  split at h
  · rw [bind_apply] at h
    have hgrow := grows_expandFrom e domain true (cut 0x3a (splitQualifier term).2).2.1 0 s
    rcases hx : e.expand (cut 0x3a (splitQualifier term).2).2.1 domain true s with ⟨_ | arg, s₁⟩ <;> rw [hx] at h
    · cases h
    · obtain ⟨hl, rfl⟩ := mechanism_recurse h
      rw [Peer.expand] at hx
      rw [hx] at hgrow
      exact ⟨Nat.lt_succ_of_le hgrow, hl⟩
  · obtain ⟨hl, rfl⟩ := mechanism_recurse h
    exact ⟨Nat.lt_succ_self _, hl⟩

theorem checkWith_apply (domain : Str) (s : State) : e.checkWith sub domain s =
    (match e.r.lookupTXT s.asked.length domain with
      | .error _ => (pure .tempError : Eval Result)
      | .ok texts =>
        match e.lib.records texts with
        | [] => pure .none
        | [record] => e.evalRecord sub record domain
        | _ => pure .permError) { s with asked := .txt domain :: s.asked } := rfl

variable (h : AgreeAbove k sub sub') (hrise : RisesAbove k sub)
include h hrise

theorem alike_above (d : Str) (s : State) (hk : k < s.lookups) (hl : s.lookups ≤ maxDNSLookups) :
    Alike (sub d) (sub' d) s := ⟨h d s hk hl, hrise d s hk hl⟩

theorem inside_congr (hk : k < s.lookups) (hl : s.lookups ≤ maxDNSLookups) (target : Str) :
    Alike (inside sub target) (inside sub' target) s := by
  obtain ⟨hsame, hup⟩ := alike_above h hrise target { s with depth := s.depth + 1 } hk hl
  exact ⟨by rw [inside_apply, inside_apply, hsame], hup⟩

theorem redirect_congr (hk : k ≤ s.lookups) (target domain : Str) :
    Alike (e.redirect sub target domain) (e.redirect sub' target domain) s := by
  have hgrow : s.lookups ≤ (e.expand target domain false s).2.lookups := grows_expandFrom e domain false target 0 s
  rw [Alike, redirect_apply, redirect_apply]
  rcases hx : e.expand target domain false s with ⟨_ | name, s'⟩ <;> rw [hx] at hgrow
  · exact ⟨rfl, hgrow⟩
  · dsimp only at hgrow ⊢
    split
    · exact ⟨rfl, hgrow⟩
    split
    case isTrue hl =>
      obtain ⟨hsame, hup⟩ := alike_above h hrise name { s' with depth := s'.depth + 1, lookups := s'.lookups + 1 }
        (Nat.lt_succ_of_le (hk.trans hgrow)) hl
      exact ⟨by rw [hsame], (hgrow.trans (Nat.le_succ _)).trans hup⟩
    case isFalse => exact ⟨rfl, hgrow.trans (Nat.le_succ _)⟩

theorem evalTerms_congr (domain : Str) :
    ∀ (terms : List Str) {s : State}, k ≤ s.lookups →
      Alike (e.evalTerms sub domain terms) (e.evalTerms sub' domain terms) s
  | [], s, _ => ⟨rfl, Nat.le_refl _⟩
  | t :: ts, s, hk => by
    cases hm : e.lib.isModifier t with
    | true =>
      rw [Peer.evalTerms, Peer.evalTerms, if_pos hm, if_pos hm]
      dsimp only
      split
      · split
        · exact ⟨rfl, Nat.le_refl _⟩
        · exact redirect_congr h hrise hk _ domain
      · exact evalTerms_congr domain ts hk
    | false =>
      rw [Alike, evalTerms_mechanism e sub domain ts s hm, evalTerms_mechanism e sub' domain ts s hm,
        evalMechanism_eq, evalMechanism_eq]
      have hread := grows_readTerm e t domain s
      rcases hr : e.readTerm t domain s with ⟨o | ⟨q, target⟩, s'⟩
      · rw [hr] at hread
        cases o with
        | permErr => exact ⟨rfl, hread⟩
        | ends res => exact ⟨rfl, hread⟩
        | miss =>
          obtain ⟨hsame, hup⟩ := evalTerms_congr domain ts (hk.trans hread)
          exact ⟨hsame, hread.trans hup⟩
      · obtain ⟨hlt, hle⟩ := readTerm_recurse hr
        obtain ⟨hsame, hin⟩ := inside_congr h hrise (hk.trans_lt hlt) hle target
        have hup := hlt.le.trans hin
        dsimp only
        rw [← hsame]
        rcases includeCase (inside sub target s').1 with _ | res | _
        · exact ⟨rfl, hup⟩
        · exact ⟨rfl, hup⟩
        · obtain ⟨hrest, hmore⟩ := evalTerms_congr domain ts (hk.trans hup)
          exact ⟨hrest, hup.trans hmore⟩

theorem checkWith_congr (domain : Str) (hk : k ≤ s.lookups) :
    Alike (e.checkWith sub domain) (e.checkWith sub' domain) s := by
  rw [Alike, checkWith_apply, checkWith_apply]
  rcases e.r.lookupTXT s.asked.length domain with _ | texts
  · exact ⟨rfl, Nat.le_refl _⟩
  · dsimp only
    rcases e.lib.records texts with _ | ⟨record, _ | _⟩
    · exact ⟨rfl, Nat.le_refl _⟩
    · dsimp only [Peer.evalRecord]
      rcases fields record with _ | ⟨version, terms⟩
      · exact ⟨rfl, Nat.le_refl _⟩
      · dsimp only
        split
        · exact evalTerms_congr h hrise domain terms hk
        · exact ⟨rfl, Nat.le_refl _⟩
    · exact ⟨rfl, Nat.le_refl _⟩

end Congruence

/-- Deep enough, the recursion does not see what is at the bottom. -/
theorem checkDomain_congr (e : Peer) (bottom' : Str → Eval Result) :
    ∀ (n : Nat) (domain : Str) (s : State), maxDNSLookups < s.lookups + n → s.lookups ≤ maxDNSLookups →
      Alike (e.checkDomain bottom n domain) (e.checkDomain bottom' n domain) s
  | 0, domain, s, hlt, hle => absurd hlt (by simpa using hle)
  | n + 1, domain, s, hlt, _ => by
    refine checkWith_congr (k := s.lookups) (fun d s' hk hle => ?_) (fun d s' hk hle => ?_) domain (Nat.le_refl _)
    · exact (checkDomain_congr e bottom' n d s' (by omega) hle).1
    · exact (checkDomain_congr e bottom' n d s' (by omega) hle).2

theorem checkDomain_add (e : Peer) (bottom : Str → Eval Result) (n : Nat) : ∀ (m : Nat),
    e.checkDomain bottom (m + n) = e.checkDomain (e.checkDomain bottom n) m
  | 0 => by
    rw [Nat.zero_add]
    rfl
  | m + 1 => by
    funext domain
    rw [Nat.add_right_comm]
    simp only [Peer.checkDomain, checkDomain_add e bottom n m]

/-- The recursion ends: unfolding it further, over anything, changes nothing. -/
theorem checkDomain_eq_run (e : Peer) (bottom : Str → Eval Result) {n : Nat} (hn : maxDNSLookups < n) :
    e.checkDomain bottom n e.senderDomain {} = e.run := by
  obtain ⟨m, rfl⟩ := Nat.exists_eq_add_of_lt hn
  rw [Nat.add_right_comm, checkDomain_add]
  exact (checkDomain_congr e _ (maxDNSLookups + 1) e.senderDomain {} (by decide) (by decide)).1.symm

/-! ### What an evaluation must not run into -/

section Fits
variable (e : Peer)

/-- The hosts of an `mx` and then its domain can be paid for until one matches. -/
def Peer.HostsFit (domain : Str) (cidr : Int) : List Str → State → Prop
  | [], s => s.lookups < maxDNSLookups
  | host :: hosts, s => s.lookups < maxDNSLookups ∧
    match e.ipInAddrs (trimLast 0x2e host) cidr { s with lookups := s.lookups + 1 } with
    | (true, _) => True
    | (false, s') => Peer.HostsFit domain cidr hosts s'

/-- The same, once the hosts are looked up. -/
def Peer.MXFits (domain : Str) (cidr : Int) (s : State) : Prop :=
  match e.r.lookupMX s.asked.length domain with
  | .error _ => True
  | .ok hosts => e.HostsFit domain cidr hosts { s with asked := .mx domain :: s.asked }

/-- The names of a `ptr` that have to be confirmed can be paid for until one is. -/
def Peer.NamesFit (domain : Str) : List Str → State → Prop
  | [], _ => True
  | name :: names, s =>
    let name := e.lib.unicode.toLower (trimLast 0x2e name)
    if name ≠ domain ∧ !(0x2e :: domain).isSuffixOf name then Peer.NamesFit domain names s
    else s.lookups < maxDNSLookups ∧
      match e.ipInAddrs name (-1) { s with lookups := s.lookups + 1 } with
      | (true, _) => True
      | (false, s') => Peer.NamesFit domain names s'

/-- The same, once the names are looked up. -/
def Peer.PTRFits (domain : Str) (s : State) : Prop :=
  match e.r.lookupAddr s.asked.length (e.lib.ipString e.ip) with
  | .error _ => True
  | .ok names => e.NamesFit (e.lib.unicode.toLower (trimLast 0x2e domain)) names
      { s with asked := .addr (e.lib.ipString e.ip) :: s.asked }

/-- What a mechanism needs when a lookup is left for it. -/
def Peer.MechFits (mech arg : Str) (hasArg : Bool) (domain : Str) (s : State) : Prop :=
  s.lookups < maxDNSLookups →
    (mech = ascii "mx" → ¬(hasArg = true ∧ (targetOf domain arg hasArg).1 = []) →
      e.MXFits (targetOf domain arg hasArg).1 (targetOf domain arg hasArg).2 { s with lookups := s.lookups + 1 }) ∧
    (mech = ascii "ptr" → ¬(hasArg = true ∧ arg = []) →
      e.PTRFits (if hasArg then arg else domain) { s with lookups := s.lookups + 1 })

/-- What a term needs. -/
def Peer.TermFits (term domain : Str) (s : State) : Prop :=
  let (_, body) := splitQualifier term
  let (mech, arg, hasArg) := cut 0x3a body
  let mech := e.lib.unicode.toLower mech
  if hasArg ∧ mech ∈ expanded then
    match e.expand arg domain true s with
    | (none, _) => True
    | (some arg, s') => e.MechFits mech arg hasArg domain s'
  else e.MechFits mech arg hasArg domain s

/-- A text whose macros do not ask for the name of the peer, up to the first that fails. -/
def Peer.asksNoName (domain : Str) (s : State) : Nat → Str → Bool
  | _, [] => true
  | skip + 1, _ :: r => Peer.asksNoName domain s skip r
  | 0, c :: r =>
    match piece c r with
    | none => true
    | some (.bytes _, skip) => Peer.asksNoName domain s skip r
    | some (.braces body, skip) => (body.takeWhile fun b => !endsLetter b) ≠ ascii "p" &&
        ((e.expandMacro body domain false s).1.isNone || Peer.asksNoName domain s skip r)

/-- What a redirect needs, with what the evaluation of its domain needs. -/
def Peer.RedirectFits (subFits : Str → State → Prop) (target domain : Str) (s : State) : Prop :=
  e.asksNoName domain s 0 target = true ∧
    match e.expand target domain false s with
    | (none, _) => True
    | (some name, s') => s'.lookups < maxDNSLookups →
      subFits name { s' with depth := s'.depth + 1, lookups := s'.lookups + 1 }

/-- What the terms of a record need in turn. -/
def Peer.TermsFit (sub : Str → Eval Result) (subFits : Str → State → Prop) (domain : Str) :
    List Str → State → Prop
  | [], _ => True
  | t :: ts, s =>
    if e.lib.isModifier t then
      let (key, target, _) := cut 0x3d t
      if equalFold key (ascii "redirect") then target ≠ [] → e.RedirectFits subFits target domain s
      else Peer.TermsFit sub subFits domain ts s
    else e.TermFits t domain s ∧
      match e.readTerm t domain s with
      | (.done .miss, s') => Peer.TermsFit sub subFits domain ts s'
      | (.done _, _) => True
      | (.recurse _ target, s') => subFits target { s' with depth := s'.depth + 1 } ∧
        (includeCase (inside sub target s').1 = .miss → Peer.TermsFit sub subFits domain ts (inside sub target s').2)

/-- What the evaluation of a domain needs, `n` levels deep. -/
def Peer.CheckFits (bottom : Str → Eval Result) : Nat → Str → State → Prop
  | 0, _, _ => True
  | n + 1, domain, s =>
    match e.r.lookupTXT s.asked.length domain with
    | .error _ => True
    | .ok texts =>
      match e.lib.records texts with
      | [record] => e.TermsFit (e.checkDomain bottom n) (Peer.CheckFits bottom n) domain (fields record).tail
          { s with asked := .txt domain :: s.asked }
      | _ => True

end Fits

section Decide
variable (e : Peer)

instance decidableHostsFit (domain : Str) (cidr : Int) :
    ∀ (hosts : List Str) (s : State), Decidable (e.HostsFit domain cidr hosts s)
  | [], s => inferInstanceAs (Decidable (s.lookups < maxDNSLookups))
  | host :: hosts, s => by
    have := decidableHostsFit domain cidr hosts
    unfold Peer.HostsFit
    split <;> infer_instance

instance decidableMXFits (domain : Str) (cidr : Int) (s : State) : Decidable (e.MXFits domain cidr s) := by
  unfold Peer.MXFits
  split <;> infer_instance

instance decidableNamesFit (domain : Str) :
    ∀ (names : List Str) (s : State), Decidable (e.NamesFit domain names s)
  | [], _ => isTrue trivial
  | name :: names, s => by
    have := decidableNamesFit domain names
    unfold Peer.NamesFit
    dsimp only
    split
    · infer_instance
    · split <;> infer_instance

instance decidablePTRFits (domain : Str) (s : State) : Decidable (e.PTRFits domain s) := by
  unfold Peer.PTRFits
  split <;> infer_instance

instance decidableMechFits (mech arg : Str) (hasArg : Bool) (domain : Str) (s : State) :
    Decidable (e.MechFits mech arg hasArg domain s) :=
  inferInstanceAs (Decidable (_ → _ ∧ _))

instance decidableTermFits (term domain : Str) (s : State) : Decidable (e.TermFits term domain s) := by
  unfold Peer.TermFits
  dsimp only
  split
  · split <;> infer_instance
  · infer_instance

section
variable (sub : Str → Eval Result) (subFits : Str → State → Prop) [∀ d s, Decidable (subFits d s)] (domain : Str)

instance decidableRedirectFits (target : Str) (s : State) : Decidable (e.RedirectFits subFits target domain s) := by
  unfold Peer.RedirectFits
  split <;> infer_instance

instance decidableTermsFit : ∀ (terms : List Str) (s : State), Decidable (e.TermsFit sub subFits domain terms s)
  | [], _ => isTrue trivial
  | t :: ts, s => by
    have := decidableTermsFit ts
    unfold Peer.TermsFit
    dsimp only
    split
    · infer_instance
    · split <;> infer_instance

end

instance decidableCheckFits (bottom : Str → Eval Result) :
    ∀ (n : Nat) (domain : Str) (s : State), Decidable (e.CheckFits bottom n domain s)
  | 0, _, _ => isTrue trivial
  | n + 1, domain, s => by
    have := decidableCheckFits bottom n
    unfold Peer.CheckFits
    split
    · infer_instance
    · split <;> infer_instance

end Decide

/-! ### The bound -/

/-- Within the limit, and every question but the first was paid for. -/
def Within (s : State) : Prop := s.lookups ≤ maxDNSLookups ∧ s.asked.length ≤ 1 + s.lookups

/-- Within the limit, and a question is paid for that has not been asked. -/
def Credit (s : State) : Prop := s.lookups ≤ maxDNSLookups ∧ s.asked.length ≤ s.lookups

/-- The limit was hit, and no question was asked beyond it. -/
def Over (s : State) : Prop := maxDNSLookups < s.lookups ∧ s.asked.length ≤ 1 + maxDNSLookups

/-- Within the limit, or beyond it with an error to show for it. -/
def Settled (res : Result) (s : State) : Prop := Within s ∨ Over s ∧ res = .permError

section Bound
variable {e : Peer} {s : State}

theorem Credit.within (h : Credit s) : Within s := ⟨h.1, by have := h.2; omega⟩

theorem Within.spend (h : Within s) (hl : s.lookups < maxDNSLookups) : Credit { s with lookups := s.lookups + 1 } :=
  ⟨hl, by have := h.2; change s.asked.length ≤ s.lookups + 1; omega⟩

theorem Within.refuse (h : Within s) (hl : ¬s.lookups < maxDNSLookups) :
    Over { s with lookups := s.lookups + 1 } := by
  obtain ⟨h₁, h₂⟩ := h
  constructor
  · change maxDNSLookups < s.lookups + 1
    omega
  · change s.asked.length ≤ 1 + maxDNSLookups
    omega

theorem Credit.ask (h : Credit s) (q : Query) : Within { s with asked := q :: s.asked } :=
  ⟨h.1, by have := h.2; simp only [List.length_cons]; omega⟩

theorem within_ipInAddrs (h : Credit s) (host : Str) (cidr : Int) : Within (e.ipInAddrs host cidr s).2 := by
  have hrun : (e.ipInAddrs host cidr s).2 = { s with asked := .ip host :: s.asked } := by
    rw [Peer.ipInAddrs, bind_apply]
    rcases (e.lookupIPAddr host s).1 with _ | _ <;> rfl
  rw [hrun]
  exact h.ask _

theorem within_inHosts (domain : Str) (cidr : Int) : ∀ (hosts : List Str) {s : State}, Within s →
    e.HostsFit domain cidr hosts s → Within (e.inHosts domain cidr hosts s).2
  | [], s, h, hf => by
    have hl : s.lookups < maxDNSLookups := hf
    rw [e.inHosts_nil, if_pos hl]
    exact within_ipInAddrs (h.spend hl) domain cidr
  | host :: hosts, s, h, ⟨hl, hf⟩ => by
    have hin := within_ipInAddrs (e := e) (h.spend hl) (trimLast 0x2e host) cidr
    rw [e.inHosts_cons, if_pos hl]
    rcases hx : e.ipInAddrs (trimLast 0x2e host) cidr { s with lookups := s.lookups + 1 } with ⟨_ | _, s'⟩ <;>
      rw [hx] at hin hf
    · exact within_inHosts domain cidr hosts hin hf
    · exact hin

variable {domain : Str} {ipOnly : Bool}

theorem within_ipInMX {cidr : Int} (h : Credit s) (hf : e.MXFits domain cidr s) :
    Within (e.ipInMX domain cidr s).2 := by
  rw [e.ipInMX_apply]
  unfold Peer.MXFits at hf
  rcases hx : e.r.lookupMX s.asked.length domain with _ | hosts <;> rw [hx] at hf
  · exact h.ask _
  · exact within_inHosts domain cidr hosts (h.ask _) hf

theorem within_confirmNames (domain : Str) : ∀ (names : List Str) {s : State}, Within s →
    e.NamesFit domain names s → Within (e.confirmNames domain names s).2
  | [], s, h, _ => h
  | name :: names, s, h, hf => by
    rw [Peer.confirmNames]
    rw [Peer.NamesFit] at hf
    split at hf
    case isTrue hskip =>
      rw [if_pos hskip]
      exact within_confirmNames domain names h hf
    case isFalse hskip =>
      obtain ⟨hl, hf⟩ := hf
      rw [if_neg hskip, ifBudget_apply, if_pos hl, bind_apply]
      have hin := within_ipInAddrs (e := e) (h.spend hl) (e.lib.unicode.toLower (trimLast 0x2e name)) (-1)
      rcases hx : e.ipInAddrs (e.lib.unicode.toLower (trimLast 0x2e name)) (-1)
        { s with lookups := s.lookups + 1 } with ⟨_ | _, s'⟩ <;> rw [hx] at hin hf
      · exact within_confirmNames domain names hin hf
      · exact hin

theorem within_ptrMatches (h : Credit s) (hf : e.PTRFits domain s) : Within (e.ptrMatches domain s).2 := by
  have hask : e.lookupAddr s = (e.r.lookupAddr s.asked.length (e.lib.ipString e.ip),
    { s with asked := .addr (e.lib.ipString e.ip) :: s.asked }) := rfl
  rw [Peer.ptrMatches, bind_apply, hask]
  unfold Peer.PTRFits at hf
  rcases hx : e.r.lookupAddr s.asked.length (e.lib.ipString e.ip) with _ | names <;> rw [hx] at hf
  · exact h.ask _
  · exact within_confirmNames _ names (h.ask _) hf

/-! ### Macros -/

theorem letter_state {name : Str} (hr : name ≠ ascii "r")
    (h : ipOnly = true ∨ name ≠ ascii "p") (s : State) : (e.letter name domain ipOnly s).2 = s := by
  by_cases hp : name = ascii "p"
  · obtain rfl : ipOnly = true := h.resolve_right fun hne => hne hp
    subst hp
    rfl
  · have hpr : ¬(name = ascii "p" ∨ name = ascii "r") := fun h => h.elim hp hr
    simp only [Peer.letter, if_neg hpr]
    split_ifs <;> rfl

/-- Only the name of the peer has to be looked up. -/
theorem expandMacro_state {body : Str}
    (h : ipOnly = true ∨ (body.takeWhile fun b => !endsLetter b) ≠ ascii "p") (s : State) :
    (e.expandMacro body domain ipOnly s).2 = s := by
  have hr : (body.takeWhile fun b => !endsLetter b) ≠ ascii "r" := by
    intro he
    have hin : (0x72 : UInt8) ∈ body.takeWhile fun b => !endsLetter b := by rw [he]; decide
    exact absurd (List.mem_takeWhile_imp hin) (by decide)
  unfold Peer.expandMacro
  split
  · rfl
  · have hstate : (e.letter _ domain ipOnly s).2 = s := letter_state hr h s
    rw [bind_apply, hstate]
    cases (e.letter (body.takeWhile fun b => !endsLetter b) domain ipOnly s).1 <;> rfl

theorem expandFrom_state : ∀ (text : Str) (skip : Nat) (s : State),
    (ipOnly = true ∨ e.asksNoName domain s skip text = true) → (e.expandFrom domain ipOnly skip text s).2 = s
  | [], skip, s, _ => by
    rw [Peer.expandFrom.eq_def]
    rfl
  | _ :: r, skip + 1, s, h => expandFrom_state r skip s h
  | c :: r, 0, s, h => by
    rw [Peer.asksNoName] at h
    rw [Peer.expandFrom.eq_def]
    dsimp only
    rcases hp : piece c r with _ | ⟨_ | body, skip⟩ <;> rw [hp] at h
    · rfl
    · exact expandFrom_state r skip s h
    · dsimp only at h ⊢
      rw [Bool.and_eq_true, decide_eq_true_eq, Bool.or_eq_true] at h
      have hbody : (e.expandMacro body domain ipOnly s).2 = s := expandMacro_state (h.imp_right And.left) s
      rw [bind_apply, Peer.value, hbody]
      cases hval : (e.expandMacro body domain ipOnly s).1 with
      | none => rfl
      | some text =>
        refine expandFrom_state r skip s ?_
        cases ipOnly with
        | true => exact .inl rfl
        | false => exact .inr ((h.resolve_left (by simp)).2.resolve_left (by simp [hval]))

/-! ### Terms and records -/

/-- What a step leaves: an `include` has a question to ask, anything else is settled. -/
def StepSettled (step : Step) (s : State) : Prop :=
  match step with
  | .done o => Within s ∨ Over s ∧ o = .permErr
  | .recurse .. => Credit s

theorem settled_budgeted (h : Within s)
    (hm : s.lookups < maxDNSLookups → Credit { s with lookups := s.lookups + 1 } →
      StepSettled (m { s with lookups := s.lookups + 1 }).1 (m { s with lookups := s.lookups + 1 }).2) :
    StepSettled (budgeted m s).1 (budgeted m s).2 := by
  rw [budgeted_apply]
  split
  case isTrue hl => exact hm hl (h.spend hl)
  case isFalse hl => exact .inr ⟨h.refuse hl, rfl⟩

theorem settled_hostCase {find : Str → Int → Eval Bool} {q : UInt8} {arg : Str}
    (h : Credit s) (hf : ¬(hasArg = true ∧ (targetOf domain arg hasArg).1 = []) →
      Within (find (targetOf domain arg hasArg).1 (targetOf domain arg hasArg).2 s).2) :
    StepSettled (hostCase find q arg hasArg domain s).1 (hostCase find q arg hasArg domain s).2 := by
  unfold hostCase
  split
  case isTrue => exact .inl h.within
  case isFalse hc => exact .inl (hf hc)

theorem settled_mechanism {q : UInt8} {mech arg : Str} (h : Within s)
    (hf : e.MechFits mech arg hasArg domain s) :
    StepSettled (e.mechanism q mech arg hasArg domain s).1 (e.mechanism q mech arg hasArg domain s).2 := by
  unfold Peer.mechanism
  split
  · exact .inl h
  split
  · unfold Peer.ipCase
    split <;> exact .inl h
  split
  · exact settled_budgeted h fun _ hc => settled_hostCase hc fun _ => within_ipInAddrs hc _ _
  split
  · next hmx =>
    exact settled_budgeted h fun hl hc => settled_hostCase hc fun ht => within_ipInMX hc ((hf hl).1 hmx ht)
  split
  · next hptr =>
    refine settled_budgeted h fun hl hc => ?_
    unfold Peer.ptrCase
    split
    case isTrue => exact .inl hc.within
    case isFalse ht => exact .inl (within_ptrMatches hc ((hf hl).2 hptr ht))
  split
  · refine settled_budgeted h fun hl hc => ?_
    unfold Peer.existsCase
    split
    · exact .inl hc.within
    · rw [bind_apply]
      rcases (e.lookupIPAddr arg _).1 with (_ | _) | _ <;> exact .inl (hc.ask _)
  split
  · refine settled_budgeted h fun hl hc => ?_
    change StepSettled (if arg = [] then .done .permErr else .recurse q arg) { s with lookups := s.lookups + 1 }
    split
    · exact .inl hc.within
    · exact hc
  · exact .inl h

theorem settled_readTerm {term : Str} (h : Within s) (hf : e.TermFits term domain s) :
    StepSettled (e.readTerm term domain s).1 (e.readTerm term domain s).2 := by
  unfold Peer.TermFits at hf
  unfold Peer.readTerm
  dsimp only at hf ⊢
  split at hf
  case isTrue hc =>
    rw [if_pos hc, bind_apply]
    have hstate : (e.expand _ domain true s).2 = s :=
      expandFrom_state (cut 0x3a (splitQualifier term).2).2.1 0 s (.inl rfl)
    rcases hx : e.expand (cut 0x3a (splitQualifier term).2).2.1 domain true s with ⟨_ | arg, s'⟩ <;>
      rw [hx] at hf hstate <;> obtain rfl : s' = s := hstate
    · exact .inl h
    · exact settled_mechanism h hf
  case isFalse hc =>
    rw [if_neg hc]
    exact settled_mechanism h hf

/-- What the evaluation of a domain has to keep to, where it fits. -/
def Keeps (sub : Str → Eval Result) (subFits : Str → State → Prop) : Prop :=
  ∀ d s, Credit s → subFits d s → Settled (sub d s).1 (sub d s).2

theorem Settled.shallower {res : Result} (h : Settled res s) : Settled res (shallower s).2 := h

theorem settled_redirect {sub : Str → Eval Result} {subFits : Str → State → Prop} (hsub : Keeps sub subFits)
    {target : Str} (h : Within s) (hf : e.RedirectFits subFits target domain s) :
    Settled (e.redirect sub target domain s).1 (e.redirect sub target domain s).2 := by
  obtain ⟨hno, hf⟩ := hf
  have hstate : (e.expand target domain false s).2 = s := expandFrom_state target 0 s (.inr hno)
  rw [redirect_apply]
  rcases hx : e.expand target domain false s with ⟨_ | name, s'⟩ <;>
    rw [hx] at hf hstate <;> obtain rfl : s' = s := hstate
  · exact .inl h
  · dsimp only at hf ⊢
    split
    · exact .inl h
    split
    case isTrue hl =>
      exact (hsub name { s' with depth := s'.depth + 1, lookups := s'.lookups + 1 } (h.spend hl) (hf hl)).shallower
    case isFalse hl => exact .inr ⟨h.refuse hl, rfl⟩

theorem settled_evalTerms {sub : Str → Eval Result} {subFits : Str → State → Prop} (hsub : Keeps sub subFits)
    (domain : Str) : ∀ (terms : List Str) {s : State}, Within s → e.TermsFit sub subFits domain terms s →
      Settled (e.evalTerms sub domain terms s).1 (e.evalTerms sub domain terms s).2
  | [], s, h, _ => .inl h
  | t :: ts, s, h, hf => by
    rw [Peer.TermsFit] at hf
    cases hm : e.lib.isModifier t with
    | true =>
      rw [if_pos hm] at hf
      rw [Peer.evalTerms, if_pos hm]
      dsimp only at hf ⊢
      split at hf
      case isTrue hkey =>
        rw [if_pos hkey]
        split
        · exact .inl h
        · next hne => exact settled_redirect hsub h (hf hne)
      case isFalse hkey =>
        rw [if_neg hkey]
        exact settled_evalTerms hsub domain ts h hf
    | false =>
      rw [hm, if_neg (by decide)] at hf
      obtain ⟨hterm, hf⟩ := hf
      have hread := settled_readTerm h hterm
      rw [evalTerms_mechanism e sub domain ts s hm, evalMechanism_eq]
      rcases hr : e.readTerm t domain s with ⟨o | ⟨q, target⟩, s'⟩ <;> rw [hr] at hread hf
      · cases o with
        | permErr => exact hread.imp_right fun h => ⟨h.1, rfl⟩
        | ends res => exact .inl (hread.resolve_right fun h => by cases h.2)
        | miss =>
          have hin : Within s' := hread.resolve_right fun h => by cases h.2
          exact settled_evalTerms hsub domain ts hin hf
      · obtain ⟨hinside, hrest⟩ := hf
        have hres := hsub target { s' with depth := s'.depth + 1 } hread hinside
        rw [inside_apply] at hrest
        dsimp only [inside_apply] at hrest ⊢
        rcases hsubr : sub target { s' with depth := s'.depth + 1 } with ⟨res, s''⟩
        rw [hsubr] at hres hrest
        -- Past the limit only a permanent error comes back, and that ends the record.
        cases res with
        | permError => exact hres.shallower
        | pass | fail | tempError => exact .inl (hres.resolve_right fun h => by cases h.2)
        | neutral | softFail | none =>
          have hin : Within s'' := hres.resolve_right fun h => by cases h.2
          exact settled_evalTerms hsub domain ts hin (hrest rfl)

theorem keeps_checkDomain (hb : ∀ d s, (bottom d s).2 = s) :
    ∀ n, Keeps (e.checkDomain bottom n) (e.CheckFits bottom n)
  | 0 => fun d s h _ => .inl (by rw [Peer.checkDomain, hb]; exact h.within)
  | n + 1 => by
    intro d s h hf
    rw [Peer.CheckFits] at hf
    rw [Peer.checkDomain, checkWith_apply]
    rcases hx : e.r.lookupTXT s.asked.length d with _ | texts <;> rw [hx] at hf
    · exact .inl (h.ask _)
    · dsimp only at hf ⊢
      rcases hrec : e.lib.records texts with _ | ⟨record, _ | _⟩ <;> rw [hrec] at hf
      · exact .inl (h.ask _)
      · dsimp only [Peer.evalRecord]
        rcases hfields : fields record with _ | ⟨version, terms⟩
        · exact .inl (h.ask _)
        · dsimp only at hf ⊢
          rw [hfields] at hf
          split
          · exact settled_evalTerms (keeps_checkDomain hb n) d terms (h.ask _) hf
          · exact .inl (h.ask _)
      · exact .inl (h.ask _)

end Bound

/-- WORK BOUND: an evaluation ends, whatever is published. One whose macros, hosts and names fit asks at
    most one question more than the budget has, and ends in a permanent error if the budget ran out. -/
theorem check_bounded (e : Peer) :
    (∀ bottom n, maxDNSLookups < n → e.checkDomain bottom n e.senderDomain {} = e.run) ∧
    (e.CheckFits (fun _ => pure .permError) (maxDNSLookups + 1) e.senderDomain {} →
      e.run.2.asked.length ≤ 1 + maxDNSLookups ∧ (maxDNSLookups < e.run.2.lookups → e.run.1 = .permError)) := by
  refine ⟨fun bottom n hn => checkDomain_eq_run e bottom hn, fun hf => ?_⟩
  have hsettled : Settled e.run.1 e.run.2 :=
    keeps_checkDomain (fun _ _ => rfl) (maxDNSLookups + 1) e.senderDomain {} ⟨Nat.zero_le _, Nat.le_refl 0⟩ hf
  rcases hsettled with ⟨hlookups, hasked⟩ | ⟨hover, hres⟩
  · exact ⟨hasked.trans (Nat.add_le_add_left hlookups 1), fun hlt => absurd hlookups (Nat.not_le.mpr hlt)⟩
  · exact ⟨hover.2, fun _ => hres⟩

/-- A domain with two mail hosts and an included domain, of which nothing matches. -/
def modest : Resolver where
  lookupTXT _ name :=
    if name = ascii "a.example" then .ok [ascii "v=spf1 mx include:b.example -all"]
    else .ok [ascii "v=spf1 a ?all"]
  lookupIPAddr _ _ := .ok [[198, 51, 100, 7]]
  lookupMX _ _ := .ok [ascii "m.example", ascii "n.example"]
  lookupAddr _ _ := .error .notFound

theorem modest_bounded :
    (client modest).CheckFits (fun _ => pure .permError) (maxDNSLookups + 1) (ascii "a.example") {} ∧
      (client modest).run.2.asked.length ≤ 1 + maxDNSLookups :=
  have hf : (client modest).CheckFits (fun _ => pure .permError) (maxDNSLookups + 1) (ascii "a.example") {} := by
    decide +kernel
  ⟨hf, ((check_bounded (client modest)).2 hf).1⟩

/-- A redirect that asks for the name of the peer a dozen times. -/
def curious : Resolver where
  lookupTXT _ _ := .ok [ascii "v=spf1 redirect=" ++ (List.replicate 12 (ascii "%\x7bp\x7d")).flatten]
  lookupIPAddr _ _ := .error .notFound
  lookupMX _ _ := .error .notFound
  lookupAddr _ _ := .error .notFound

/-- A domain with more mail hosts than can be paid for. -/
def crowded : Resolver where
  lookupTXT _ _ := .ok [ascii "v=spf1 mx -all"]
  lookupIPAddr _ _ := .ok [[198, 51, 100, 7]]
  lookupMX _ _ := .ok (List.replicate 12 (ascii "m.example"))
  lookupAddr _ _ := .error .notFound

/-- Macros ask beyond the limit, and a search that cannot be paid for is taken for a miss. -/
theorem budget_escapes : 1 + maxDNSLookups < (client curious).run.2.asked.length ∧
      maxDNSLookups < (client crowded).run.2.lookups ∧ (client crowded).run.1 = .fail := by
  decide +kernel

end Mailezine.Spf
