import Mailezine.Spf.Control

/-! The mechanisms `a` and `mx`, against RFC 7208.

    An address matches when it is of the client's family and has its leading bits; whether an IPv4
    address is written with 4 or with 16 bytes makes no difference. A lookup that fails for the moment is
    an error. The code compares in its own way, also looks at the domain of an `mx` itself, drops failed
    lookups, and reads a prefix length only behind a domain. -/

namespace Mailezine.Spf
open Schemes Gostd List

/-! ### Addresses that agree -/

/-- The address that bytes stand for, in either form. -/
def addressOf (b : Str) : Option Addr := (addrFromSlice b).map Addr.unmap

/-- The same family and the same leading bits. -/
def Addr.Agree (n4 n6 : Nat) : Addr → Addr → Prop
  | .v4 a, .v4 b => ∀ i < n4, a.getMsbD i = b.getMsbD i
  | .v6 a, .v6 b => ∀ i < n6, a.getMsbD i = b.getMsbD i
  | _, _ => False

instance (n4 n6 : Nat) (a b : Addr) : Decidable (a.Agree n4 n6 b) := by
  cases a <;> cases b <;> unfold Addr.Agree <;> infer_instance

/-- Whether two addresses agree, given as bytes. -/
def agree (n4 n6 : Nat) (ip addr : Str) : Bool :=
  match addressOf ip, addressOf addr with
  | some a, some b => a.Agree n4 n6 b
  | _, _ => false

/-- Shifting out all but the leading bits compares them. -/
theorem shift_xor_eq_zero_iff {w n : Nat} (hn : n ≤ w) (a b : BitVec w) :
    (b ^^^ a) >>> (w - n) = 0 ↔ ∀ i < n, b.getMsbD i = a.getMsbD i := by
  constructor
  · intro h i hi
    have hbit := congrArg (·.getLsbD (n - 1 - i)) h
    simp only [BitVec.getLsbD_ushiftRight, BitVec.getLsbD_xor, BitVec.ofNat_eq_ofNat, BitVec.getLsbD_zero,
      bne_eq_false_iff_eq] at hbit
    rw [show w - n + (n - 1 - i) = w - 1 - i by omega] at hbit
    simp only [BitVec.getMsbD_eq_getLsbD, hbit]
  · intro h
    refine BitVec.eq_of_getLsbD_eq fun j hj => ?_
    simp only [BitVec.getLsbD_ushiftRight, BitVec.getLsbD_xor, BitVec.ofNat_eq_ofNat, BitVec.getLsbD_zero,
      bne_eq_false_iff_eq]
    by_cases hlt : j < n
    · have hbit := h (n - 1 - j) (by omega)
      simp only [BitVec.getMsbD_eq_getLsbD] at hbit
      rw [show w - 1 - (n - 1 - j) = w - n + j by omega] at hbit
      simpa [show n - 1 - j < w by omega] using hbit
    · rw [BitVec.getLsbD_of_ge _ _ (by omega), BitVec.getLsbD_of_ge _ _ (by omega)]

theorem contains_iff (p : Prefix) (a : Addr) : p.contains a = true ↔ a.Agree p.bits p.bits p.addr := by
  rcases p with ⟨_ | _, n, hn⟩ <;> cases a
  · simpa [Prefix.contains, Addr.Agree] using shift_xor_eq_zero_iff (show n ≤ 32 from hn) _ _
  · simp [Prefix.contains, Addr.Agree]
  · simp [Prefix.contains, Addr.Agree]
  · simpa [Prefix.contains, Addr.Agree] using shift_xor_eq_zero_iff (show n ≤ 128 from hn) _ _

/-- Addresses that agree in all bits are equal. -/
theorem agree_full_iff (a b : Addr) : a.Agree 32 128 b ↔ a = b := by
  cases a <;> cases b
  · rw [Addr.v4.injEq]
    exact ⟨fun h => BitVec.eq_of_getMsbD_eq h, fun h i _ => by rw [h]⟩
  · simp [Addr.Agree]
  · simp [Addr.Agree]
  · rw [Addr.v6.injEq]
    exact ⟨fun h => BitVec.eq_of_getMsbD_eq h, fun h i _ => by rw [h]⟩

/-- Within one form, the address behind the bytes says everything. -/
theorem unmap_inj_v6 {a b : BitVec 128} (h : (Addr.v6 a).unmap = (Addr.v6 b).unmap) : a = b := by
  simp only [Addr.unmap] at h
  split at h <;> split at h
  case isTrue.isTrue ha hb =>
    have hlow : a.toNat % 2 ^ 32 = b.toNat % 2 ^ 32 := by
      simpa using congrArg BitVec.toNat (Addr.v4.inj h)
    have hhigh : a.toNat / 2 ^ 32 = b.toNat / 2 ^ 32 := by
      simpa [Nat.shiftRight_eq_div_pow] using congrArg BitVec.toNat (ha.trans hb.symm)
    refine BitVec.eq_of_toNat_eq ?_
    rw [← Nat.div_add_mod a.toNat (2 ^ 32), hlow, hhigh, Nat.div_add_mod]
  case isTrue.isFalse => cases h
  case isFalse.isTrue => cases h
  case isFalse.isFalse => exact Addr.v6.inj h

/-- The prefix length of a term as the code passes it on. -/
def cidrOf (n : Option Nat) : Int := n.elim (-1) (↑)

/-- How the code compares: without a prefix length the two forms of an IPv4 address differ, and a
    prefix length counts for either family. -/
def compares (n : Option Nat) (ip addr : Str) : Bool :=
  match n with
  | none => agree 32 128 ip addr && ip.length = addr.length
  | some n => agree n n ip addr

theorem bitLen_unmap (a : Addr) : 32 ≤ a.unmap.bitLen := by
  cases a with
  | v4 b => exact Nat.le_refl 32
  | v6 b =>
    simp only [Addr.unmap]
    split
    · exact Nat.le_refl 32
    · exact (by decide : 32 ≤ 128)

theorem addrFromSlice_form {b : Str} {a : Addr} (h : addrFromSlice b = some a) :
    (b.length = 4 ∧ ∃ x, a = .v4 x) ∨ (b.length = 16 ∧ ∃ x, a = .v6 x) := by
  unfold addrFromSlice at h
  split at h
  case isTrue h4 => exact .inl ⟨h4, _, (Option.some.inj h).symm⟩
  case isFalse =>
    split at h
    case isTrue h16 => exact .inr ⟨h16, _, (Option.some.inj h).symm⟩
    case isFalse => cases h

theorem ipWithin_eq {n : Option Nat} (hn : ∀ m ∈ n, m ≤ 32) (ip addr : Str) :
    ipWithin ip addr (cidrOf n) = compares n ip addr := by
  unfold ipWithin compares agree addressOf
  rcases ha : addrFromSlice ip with _ | a
  · cases n <;> simp
  rcases hb : addrFromSlice addr with _ | b
  · cases n <;> simp
  cases n with
  | none =>
    have hform : (a = b ↔ a.unmap = b.unmap ∧ ip.length = addr.length) := by
      obtain ⟨hl, x, rfl⟩ | ⟨hl, x, rfl⟩ := addrFromSlice_form ha <;>
        obtain ⟨hl', y, rfl⟩ | ⟨hl', y, rfl⟩ := addrFromSlice_form hb
      · simp [Addr.unmap, hl, hl']
      · simp [hl, hl']
      · simp [hl, hl']
      · rw [Addr.v6.injEq, hl, hl']
        exact ⟨fun h => ⟨by rw [h], rfl⟩, fun h => unmap_inj_v6 h.1⟩
    simp [cidrOf, agree_full_iff, hform]
  | some n =>
    have hle : n ≤ 32 := hn n rfl
    have hfits : n ≤ b.unmap.bitLen := hle.trans (bitLen_unmap b)
    have hbits : n ≤ b.bitLen := by cases b <;> simp only [Addr.bitLen] <;> omega
    have hpre : prefixFrom b.unmap n = some ⟨b.unmap, n, hfits⟩ := dif_pos hfits
    rw [Bool.eq_iff_iff]
    simp [cidrOf, hpre, hbits, contains_iff]

/-! ### Texts -/

theorem findIdx?_of_not_mem {c : UInt8} {s : Str} (h : c ∉ s) : s.findIdx? (· = c) = none := by
  rw [findIdx?_eq_none_iff]
  intro b hb
  simp only [decide_eq_false_iff_not]
  rintro rfl
  exact h hb

theorem cut_of_not_mem {c : UInt8} {s : Str} (h : c ∉ s) : cut c s = (s, [], false) := by
  rw [cut, findIdx?_of_not_mem h]

theorem findIdx?_at {c : UInt8} {name : Str} (h : c ∉ name) (rest : Str) :
    (name ++ c :: rest).findIdx? (· = c) = some name.length := by
  rw [findIdx?_append, findIdx?_of_not_mem h]
  simp [findIdx?_cons]

theorem cut_append {c : UInt8} {name : Str} (h : c ∉ name) (rest : Str) :
    cut c (name ++ c :: rest) = (name, rest, true) := by
  rw [cut, findIdx?_at h]
  simp

/-- What follows a piece does not change it. -/
theorem piece_append {c : UInt8} {r : Str} {p : Piece} {skip : Nat} (h : piece c r = some (p, skip)) (w : Str) :
    piece c (r ++ w) = some (p, skip) ∧ skip ≤ r.length := by
  unfold piece at h ⊢
  by_cases hc : c ≠ 0x25
  · rw [if_pos hc] at h ⊢
    cases h
    exact ⟨rfl, Nat.zero_le _⟩
  · rw [if_neg hc] at h ⊢
    cases r with
    | nil => cases h
    | cons next rest =>
      simp only [cons_append, length_cons] at h ⊢
      by_cases h1 : next = 0x25
      · rw [if_pos h1] at h ⊢; cases h; exact ⟨rfl, by omega⟩
      rw [if_neg h1] at h ⊢
      by_cases h2 : next = 0x5f
      · rw [if_pos h2] at h ⊢; cases h; exact ⟨rfl, by omega⟩
      rw [if_neg h2] at h ⊢
      by_cases h3 : next = 0x2d
      · rw [if_pos h3] at h ⊢; cases h; exact ⟨rfl, by omega⟩
      rw [if_neg h3] at h ⊢
      by_cases h4 : next ≠ 0x7b
      · rw [if_pos h4] at h; cases h
      rw [if_neg h4] at h ⊢
      obtain ⟨stop, hstop, he⟩ := Option.map_eq_some_iff.mp h
      cases he
      have hlt := (findIdx?_eq_some_iff_getElem.mp hstop).1
      rw [findIdx?_append, hstop, Option.some_or, Option.map_some, take_append_of_le_length hlt.le]
      exact ⟨rfl, by omega⟩

theorem expandFrom_cons (e : Peer) (domain : Str) (ipOnly : Bool) {c : UInt8} {r : Str} {p : Piece} {skip : Nat}
    (h : piece c r = some (p, skip)) (s : State) : e.expandFrom domain ipOnly 0 (c :: r) s =
      match e.value domain ipOnly p s with
      | (none, s') => (none, s')
      | (some text, s') =>
        ((e.expandFrom domain ipOnly skip r s').1.map (text ++ ·), (e.expandFrom domain ipOnly skip r s').2) := by
  rw [Peer.expandFrom.eq_def]
  simp only [h, bind_apply]
  rcases e.value domain ipOnly p s with ⟨_ | text, s'⟩ <;> rfl

/-- Text without macros is copied. -/
theorem expandFrom_plain (e : Peer) (domain : Str) (ipOnly : Bool) : ∀ {w : Str} (s : State),
    (0x25 : UInt8) ∉ w → e.expandFrom domain ipOnly 0 w s = (some w, s)
  | [], s, _ => rfl
  | c :: w, s, h => by
    have hc : piece c w = some (.bytes [c], 0) := if_pos fun he => h (by simp [he])
    rw [expandFrom_cons e domain ipOnly hc, Peer.value]
    dsimp only [pure, StateT.pure]
    rw [expandFrom_plain e domain ipOnly s fun hw => h (mem_cons_of_mem _ hw)]
    rfl

/-- Text without macros that follows is copied. -/
theorem expandFrom_append (e : Peer) (domain : Str) (ipOnly : Bool) {w : Str} (hw : (0x25 : UInt8) ∉ w) :
    ∀ (d : Str) (skip : Nat) {s s' : State} {v : Str}, skip ≤ d.length →
      e.expandFrom domain ipOnly skip d s = (some v, s') →
        e.expandFrom domain ipOnly skip (d ++ w) s = (some (v ++ w), s') := by
  intro d
  induction d with
  | nil =>
    intro skip s s' v hskip h
    obtain rfl : skip = 0 := by simpa using hskip
    cases h
    exact expandFrom_plain e domain ipOnly s hw
  | cons c r ih =>
    intro skip s s' v hskip h
    cases skip with
    | succ skip => exact ih skip (by simpa using hskip) h
    | zero =>
      rcases hp : piece c r with _ | ⟨p, k⟩
      · rw [Peer.expandFrom.eq_def] at h
        simp only [hp] at h
        cases h
      · obtain ⟨hpw, hk⟩ := piece_append hp w
        rw [expandFrom_cons e domain ipOnly hp] at h
        rw [cons_append, expandFrom_cons e domain ipOnly hpw]
        rcases hval : e.value domain ipOnly p s with ⟨_ | text, s₁⟩ <;> rw [hval] at h <;> dsimp only at h ⊢
        · cases h
        · rcases hrec : e.expandFrom domain ipOnly k r s₁ with ⟨_ | v', s₂⟩ <;> rw [hrec] at h <;> cases h
          rw [ih k hk hrec]
          simp

theorem parseDigits_of_slash {s : Str} (h : (0x2f : UInt8) ∈ s) : parseDigits s = none := by
  have hfold : ∀ (s : Str) (acc : Option Nat), acc = none ∨ 0x2f ∈ s → s.foldl (fun acc b => acc.bind fun n =>
      if 0x30 ≤ b ∧ b ≤ 0x39 then some (n * 10 + (b.toNat - 0x30)) else none) acc = none := by
    intro s
    induction s with
    | nil => simp
    | cons b s ih =>
      intro acc h
      refine ih _ ?_
      rcases h with rfl | h
      · exact .inl rfl
      rcases mem_cons.mp h with rfl | h
      · exact .inl (by cases acc <;> rfl)
      · exact .inr h
  unfold parseDigits
  split
  · rfl
  · exact hfold s _ (.inr h)

/-- A prefix length is digits only. -/
theorem atoi_of_slash {s : Str} (h : (0x2f : UInt8) ∈ s) : atoi s = none := by
  have htail : ∀ {b : UInt8} {r : Str}, s = b :: r → b ≠ 0x2f → parseDigits r = none := by
    rintro b r rfl hb
    exact parseDigits_of_slash ((mem_cons.mp h).resolve_left hb.symm)
  unfold atoi
  split
  case h_1 r => simp [htail rfl (by decide)]
  case h_2 r => simp [htail rfl (by decide)]
  case h_3 => simp [parseDigits_of_slash h]

theorem atoi_decimalNat : ∀ n < 33, atoi (decimalNat n) = some (n : Int) := by decide

/-! ### Terms -/

/-- A term `a` or `mx` of RFC 7208, with its target: `name [":" domain] ["/" ip4] ["//" ip6]`. -/
structure HostTerm (e : Peer) (current : Str) where
  qualifier : Option UInt8
  mx : Bool
  name : Str
  domain : Option Str
  ip4 : Option Nat
  ip6 : Option Nat
  target : Str
  qualified : ∀ q ∈ qualifier, q ∈ ascii "+-~?"
  named : name.map lowerByte = if mx then ascii "mx" else ascii "a"
  ip4_le : ∀ n ∈ ip4, n ≤ 32
  ip6_le : ∀ n ∈ ip6, n ≤ 128
  targeted : match domain with
    | none => target = current
    | some d => (∀ s, e.expand d current true s = (some target, s)) ∧ target ≠ [] ∧ 0x2f ∉ target

namespace HostTerm
variable {e : Peer} {current : Str} (t : HostTerm e current)

/-- The prefix lengths as they are written. -/
def suffix : Str :=
  t.ip4.elim [] (fun n => 0x2f :: decimalNat n) ++ t.ip6.elim [] (fun n => 0x2f :: 0x2f :: decimalNat n)

/-- The term as it is written. -/
def text : Str := t.qualifier.toList ++ (t.name ++ t.domain.elim [] (0x3a :: ·) ++ t.suffix)

/-- Whether an address matches: all bits count when no length is given. -/
def hits (addr : Str) : Bool := agree (t.ip4.getD 32) (t.ip6.getD 128) e.ip addr

/-- What a search among addresses finds. -/
inductive Found where
  | match | miss | failure
  deriving DecidableEq

/-- Look among the addresses of a host. -/
def lookIn (host : Str) : Eval Found := do
  match ← e.lookupIPAddr host with
  | .error .notFound => pure .miss
  | .error .other => pure .failure
  | .ok ips => pure (if ips.any t.hits then .match else .miss)

/-- Look among the addresses of hosts. -/
def lookThrough : List Str → Eval Found
  | [] => pure .miss
  | host :: hosts => do
    match ← t.lookIn (trimLast 0x2e host) with
    | .miss => lookThrough hosts
    | o => pure o

/-- The search that the term stands for. -/
def search : Eval Found :=
  if t.mx then do
    match ← e.lookupMX t.target with
    | .error .notFound => pure .miss
    | .error .other => pure .failure
    | .ok hosts => t.lookThrough hosts
  else t.lookIn t.target

/-- What the term comes to. -/
def outcome : Found → Mech
  | .match => .ends (resultForQualifier (t.qualifier.getD 0x2b))
  | .miss => .miss
  | .failure => .ends .tempError

/-! ### When the code agrees -/

/-- The addresses in an answer. -/
def addresses : Except DNSError (List Str) → List Str
  | .ok ips => ips
  | .error _ => []

/-- The addresses that the code gets to see: those of the hosts it can pay for, and then of the domain. -/
def seen : Nat → Nat → List Str → List Str
  | 0, _, _ => []
  | _ + 1, n, [] => addresses (e.r.lookupIPAddr n t.target)
  | b + 1, n, host :: hosts => addresses (e.r.lookupIPAddr n (trimLast 0x2e host)) ++ seen b (n + 1) hosts

/-- The addresses of the hosts. -/
def due (e : Peer) : Nat → List Str → List Str
  | _, [] => []
  | n, host :: hosts => addresses (e.r.lookupIPAddr n (trimLast 0x2e host)) ++ due e (n + 1) hosts

/-- No lookup fails for the moment before an address matches. -/
def Steady : Nat → List Str → Prop
  | _, [] => True
  | n, host :: hosts =>
    match e.r.lookupIPAddr n (trimLast 0x2e host) with
    | .error .other => False
    | .error .notFound => Steady (n + 1) hosts
    | .ok ips => ips.any t.hits = true ∨ Steady (n + 1) hosts

/-- What the code needs: a prefix length only behind a domain and only for IPv4, a lookup left, no
    failure, and that its own comparison, on the addresses it sees, finds one exactly when one is due. -/
def Covered (s : State) : Prop :=
  t.ip6 = none ∧ (t.domain = none → t.ip4 = none) ∧ s.lookups < maxDNSLookups ∧
    if t.mx then
      match e.r.lookupMX s.asked.length t.target with
      | .error .notFound => True
      | .error .other => False
      | .ok hosts =>
        t.Steady (s.asked.length + 1) hosts ∧
          ((t.seen (maxDNSLookups - s.lookups - 1) (s.asked.length + 1) hosts).any (compares t.ip4 e.ip) =
            (due e (s.asked.length + 1) hosts).any t.hits)
    else
      match e.r.lookupIPAddr s.asked.length t.target with
      | .error .notFound => True
      | .error .other => False
      | .ok ips => ips.any (compares t.ip4 e.ip) = ips.any t.hits

/-- In one byte form, and with a prefix length for an IPv4 client only, the comparison is the standard's. -/
theorem compares_eq_hits (h6 : t.ip6 = none) {addr : Str} (hform : t.ip4 = none → e.ip.length = addr.length)
    (hfamily : t.ip4 ≠ none → ∀ b, addressOf e.ip ≠ some (.v6 b)) : compares t.ip4 e.ip addr = t.hits addr := by
  cases h4 : t.ip4 with
  | none => simp [compares, hits, h4, h6, hform h4]
  | some n =>
    have hv4 := hfamily (by simp [h4])
    simp only [compares, hits, h4, h6, agree, Option.getD_some, Option.getD_none]
    cases ha : addressOf e.ip with
    | none => rfl
    | some a =>
      cases a with
      | v4 a => cases addressOf addr with
        | none => rfl
        | some b => cases b <;> rfl
      | v6 a => exact absurd ha (hv4 a)

/-- With a lookup for each host, the code sees their addresses and at most the domain's besides. -/
theorem any_seen (φ : Str → Bool) : ∀ (hosts : List Str) (b n : Nat), hosts.length ≤ b →
    (addresses (e.r.lookupIPAddr (n + hosts.length) t.target)).any φ = false →
    (t.seen b n hosts).any φ = (due e n hosts).any φ
  | [], 0, _, _, _ => rfl
  | [], _ + 1, _, _, hown => hown
  | host :: hosts, b + 1, n, hle, hown => by
    rw [length_cons, Nat.add_comm _ 1, ← Nat.add_assoc] at hown
    rw [seen, due, any_append, any_append, any_seen φ hosts b (n + 1) (Nat.le_of_succ_le_succ hle) hown]

/-- The cases behind the comparison: addresses in the client's byte form, a prefix length for an IPv4 client
    only, no more hosts than lookups, and no address of an `mx` domain itself. -/
theorem covered_of_cases {s : State} (h6 : t.ip6 = none) (h4 : t.domain = none → t.ip4 = none)
    (hl : s.lookups < maxDNSLookups)
    (hform : t.ip4 = none → ∀ n host, ∀ addr ∈ addresses (e.r.lookupIPAddr n host), e.ip.length = addr.length)
    (hfamily : t.ip4 ≠ none → ∀ b, addressOf e.ip ≠ some (.v6 b))
    (hlook : if t.mx then
        ∃ hosts, e.r.lookupMX s.asked.length t.target = .ok hosts ∧ t.Steady (s.asked.length + 1) hosts ∧
          s.lookups + hosts.length < maxDNSLookups ∧
          (addresses (e.r.lookupIPAddr (s.asked.length + 1 + hosts.length) t.target)).any t.hits = false
      else ∃ ips, e.r.lookupIPAddr s.asked.length t.target = .ok ips) : t.Covered s := by
  have hsame : ∀ n host, (addresses (e.r.lookupIPAddr n host)).any (compares t.ip4 e.ip) =
      (addresses (e.r.lookupIPAddr n host)).any t.hits := by
    intro n host
    rw [Bool.eq_iff_iff, any_eq_true, any_eq_true]
    refine exists_congr fun addr => and_congr_right fun ha => ?_
    rw [t.compares_eq_hits h6 (fun hn => hform hn n host addr ha) hfamily]
  have hdue : ∀ (hosts : List Str) (n : Nat),
      (due e n hosts).any (compares t.ip4 e.ip) = (due e n hosts).any t.hits := by
    intro hosts
    induction hosts with
    | nil => exact fun _ => rfl
    | cons host hosts ih =>
      intro n
      rw [due, any_append, any_append, ih, hsame]
  refine ⟨h6, h4, hl, ?_⟩
  split_ifs at hlook ⊢
  · obtain ⟨hosts, hmx, hsteady, hbudget, hown⟩ := hlook
    rw [hmx]
    refine ⟨hsteady, ?_⟩
    rw [t.any_seen _ hosts _ _ (by omega) ((hsame _ _).trans hown), hdue]
  · obtain ⟨ips, hips⟩ := hlook
    have hsame := hsame s.asked.length t.target
    rw [hips] at hsame ⊢
    exact hsame

/-! ### Reading the term -/

theorem name_bytes {b : UInt8} (h : b ∈ t.name) : b ≤ 0x7f ∧ b ≠ 0x3a ∧ b ∉ ascii "+-~?" := by
  have hin : lowerByte b ∈ ascii "amx" := by
    have hmem := List.mem_map_of_mem (f := lowerByte) h
    rw [t.named] at hmem
    split at hmem
    · exact (by decide +kernel : ∀ c ∈ ascii "mx", c ∈ ascii "amx") _ hmem
    · exact (by decide +kernel : ∀ c ∈ ascii "a", c ∈ ascii "amx") _ hmem
  refine ⟨?_, ?_, ?_⟩
  · by_contra hb
    have hb : lowerByte b = b := if_neg (by grind)
    rw [hb] at hin
    exact absurd ((by decide +kernel : ∀ c ∈ ascii "amx", c ≤ 0x7f) _ hin) ‹_›
  · rintro rfl
    revert hin
    decide +kernel
  · intro hq
    exact (by decide +kernel : ∀ c ∈ ascii "+-~?", lowerByte c ∉ ascii "amx") b hq hin

theorem name_ne_nil : t.name ≠ [] := by
  intro h
  have hn := t.named
  rw [h] at hn
  split at hn <;> exact absurd hn (by decide)

theorem toLower_name (u : Unicode) : u.toLower t.name = if t.mx then ascii "mx" else ascii "a" := by
  rw [toLower_of_ascii u fun b hb => (t.name_bytes hb).1, t.named]

/-- The part of the term behind its qualifier. -/
def body : Str := t.name ++ t.domain.elim [] (0x3a :: ·) ++ t.suffix

theorem splitQualifier_text : splitQualifier t.text = (t.qualifier.getD 0x2b, t.body) := by
  cases hname : t.name with
  | nil => exact absurd hname t.name_ne_nil
  | cons b name =>
    have hb : b ∉ ascii "+-~?" := (t.name_bytes (hname ▸ mem_cons_self)).2.2
    have hbody : t.body = b :: (name ++ t.domain.elim [] (0x3a :: ·) ++ t.suffix) := by simp [body, hname]
    have htext : t.text = t.qualifier.toList ++ t.body := rfl
    rw [htext, hbody]
    cases hq : t.qualifier with
    | none => exact splitQualifier_of_not_mem hb
    | some q =>
      rw [Option.toList, singleton_append, splitQualifier, if_pos (t.qualified q hq)]
      rfl

theorem decimalNat_bytes : ∀ n < 129, ∀ b ∈ decimalNat n, b ≤ 0x7f ∧ b ≠ 0x3a ∧ b ≠ 0x25 ∧ b ≠ 0x2f := by
  decide +kernel

theorem suffix_bytes {b : UInt8} (h : b ∈ t.suffix) : b ≤ 0x7f ∧ b ≠ 0x3a ∧ b ≠ 0x25 := by
  have hdigits : ∀ n ≤ 128, ∀ b ∈ decimalNat n, b ≤ 0x7f ∧ b ≠ 0x3a ∧ b ≠ 0x25 := by
    intro n hn b hb
    obtain ⟨h1, h2, h3, -⟩ := decimalNat_bytes n (by omega) b hb
    exact ⟨h1, h2, h3⟩
  rw [suffix, mem_append] at h
  rcases h with h | h
  · cases h4 : t.ip4 with
    | none => simp [h4] at h
    | some n =>
      have hle := t.ip4_le n h4
      simp only [h4, Option.elim, mem_cons] at h
      rcases h with rfl | h
      · decide
      · exact hdigits n (by omega) b h
  · cases h6 : t.ip6 with
    | none => simp [h6] at h
    | some n =>
      simp only [h6, Option.elim, mem_cons] at h
      rcases h with rfl | rfl | h
      · decide
      · decide
      · exact hdigits n (t.ip6_le n h6) b h

/-- The forms of the term that the code reads. -/
def Readable : Prop := t.ip6 = none ∧ (t.domain = none → t.ip4 = none)

theorem suffix_eq_nil_iff : t.suffix = [] ↔ t.ip4 = none ∧ t.ip6 = none := by
  cases h4 : t.ip4 <;> cases h6 : t.ip6 <;> simp [suffix, h4, h6]

theorem slash_mem_suffix (h : t.suffix ≠ []) : (0x2f : UInt8) ∈ t.suffix := by
  cases h4 : t.ip4 <;> cases h6 : t.ip6 <;> simp_all [suffix]

/-- Behind a domain the code reads one prefix length, and takes anything else for an error. -/
theorem splitCidr_target {d : Str} (hd : t.domain = some d) : splitCidr (t.target ++ t.suffix) =
    if t.ip6 = none then (t.target, cidrOf t.ip4) else ([], -1) := by
  have htarget := t.targeted
  rw [hd] at htarget
  obtain ⟨-, -, hslash⟩ := htarget
  cases h6 : t.ip6 with
  | none =>
    cases h4 : t.ip4 with
    | none => simp [suffix, h4, h6, splitCidr, cut_of_not_mem hslash, cidrOf]
    | some n =>
      have hle := t.ip4_le n h4
      simp only [suffix, h4, h6, Option.elim, append_nil, splitCidr, cut_append hslash,
        atoi_decimalNat n (by omega), if_true, cidrOf]
      rw [if_neg (by omega)]
  | some m =>
    have hbad : ∃ x, t.suffix = 0x2f :: x ∧ (0x2f : UInt8) ∈ x := by
      cases h4 : t.ip4 with
      | none => exact ⟨0x2f :: decimalNat m, by simp [suffix, h4, h6], by simp⟩
      | some n => exact ⟨decimalNat n ++ 0x2f :: 0x2f :: decimalNat m, by simp [suffix, h4, h6], by simp⟩
    obtain ⟨x, hx, hmem⟩ := hbad
    simp [hx, splitCidr, cut_append hslash, atoi_of_slash hmem]

/-- Whether the code finds the client among the addresses of a host. -/
def hitAt (host : Str) (cidr : Int) (s : State) : Bool :=
  if t.mx then (e.ipInMX host cidr s).1 else (e.ipInAddrs host cidr s).1

theorem hostCase_apply (find : Str → Int → Eval Bool) (q : UInt8) (arg : Str) (hasArg : Bool) (domain : Str)
    (s : State) : (hostCase find q arg hasArg domain s).1 =
      if hasArg = true ∧ (targetOf domain arg hasArg).1 = [] then .done .permErr
      else .done (hitOrMiss q (find (targetOf domain arg hasArg).1 (targetOf domain arg hasArg).2 s).1) := by
  unfold hostCase
  split <;> rfl

theorem mechanism_host (q : UInt8) (arg : Str) (hasArg : Bool) (s : State) :
    (e.mechanism q (if t.mx then ascii "mx" else ascii "a") arg hasArg current s).1 =
      if s.lookups < maxDNSLookups ∧ ¬(hasArg = true ∧ (targetOf current arg hasArg).1 = []) then
        .done (hitOrMiss q (t.hitAt (targetOf current arg hasArg).1 (targetOf current arg hasArg).2
          { s with lookups := s.lookups + 1 }))
      else .done .permErr := by
  have hcase : e.mechanism q (if t.mx then ascii "mx" else ascii "a") arg hasArg current =
      budgeted (hostCase (if t.mx then e.ipInMX else e.ipInAddrs) q arg hasArg current) := by
    cases t.mx <;> simp only [Bool.false_eq_true, if_true, if_false] <;> unfold Peer.mechanism
    · rw [if_neg (by decide), if_neg (by decide), if_pos rfl]
    · rw [if_neg (by decide), if_neg (by decide), if_neg (by decide), if_pos rfl]
  rw [hcase, budgeted_apply, hitAt]
  by_cases hl : s.lookups < maxDNSLookups
  · rw [if_pos hl, hostCase_apply]
    by_cases ht : hasArg = true ∧ (targetOf current arg hasArg).1 = []
    · rw [if_pos ht, if_neg fun h => h.2 ht]
    · rw [if_neg ht]
      cases t.mx <;> exact (if_pos ⟨hl, ht⟩).symm
  · rw [if_neg hl, if_neg fun h => hl h.1]

theorem evalMechanism_of_readTerm (sub : Str → Eval Result) {term : Str} {s : State} {o : Mech}
    (h : (e.readTerm term current s).1 = .done o) : (e.evalMechanism sub term current s).1 = o := by
  rw [evalMechanism_eq]
  rcases hr : e.readTerm term current s with ⟨step, s'⟩
  rw [hr] at h
  obtain rfl : step = .done o := h
  rfl

theorem evalMechanism_host (sub : Str → Eval Result) (s : State) [Decidable t.Readable] :
    (e.evalMechanism sub t.text current s).1 = if t.Readable ∧ s.lookups < maxDNSLookups then
        hitOrMiss (t.qualifier.getD 0x2b) (t.hitAt t.target (cidrOf t.ip4) { s with lookups := s.lookups + 1 })
      else .permErr := by
  have hname : (0x3a : UInt8) ∉ t.name := fun h => (t.name_bytes h).2.1 rfl
  have hsuffix : (0x3a : UInt8) ∉ t.suffix := fun h => (t.suffix_bytes h).2.1 rfl
  apply evalMechanism_of_readTerm
  have htarget := t.targeted
  cases hd : t.domain with
  | none =>
    rw [hd] at htarget
    have hcut : cut 0x3a t.body = (t.name ++ t.suffix, [], false) := by
      rw [body, hd, Option.elim, append_nil]
      exact cut_of_not_mem fun h => (mem_append.mp h).elim hname hsuffix
    simp only [Peer.readTerm, t.splitQualifier_text, hcut, Bool.false_eq_true, false_and, if_false]
    by_cases hs : t.suffix = []
    · obtain ⟨h4, h6⟩ := t.suffix_eq_nil_iff.mp hs
      have hread : t.Readable := ⟨h6, fun _ => h4⟩
      have htarget : t.target = current := htarget
      rw [hs, append_nil, t.toLower_name, t.mechanism_host]
      by_cases hl : s.lookups < maxDNSLookups <;> simp [targetOf, hread, hl, h4, cidrOf, htarget]
    · -- the prefix length belongs to the name of the mechanism
      have hread : ¬t.Readable := fun h => hs (t.suffix_eq_nil_iff.mpr ⟨h.2 hd, h.1⟩)
      have hslash : (0x2f : UInt8) ∈ e.lib.unicode.toLower (t.name ++ t.suffix) := by
        rw [toLower_of_ascii _ fun b hb =>
          (mem_append.mp hb).elim (fun h => (t.name_bytes h).1) fun h => (t.suffix_bytes h).1]
        exact List.mem_map.mpr ⟨0x2f, mem_append_right _ (t.slash_mem_suffix hs), by decide⟩
      have hout : ∀ w ∈ mechanisms, (0x2f : UInt8) ∉ w := by decide +kernel
      rw [mechanism_unknown e fun hw => hout _ hw hslash, if_neg fun h => hread h.1]
  | some d =>
    rw [hd] at htarget
    obtain ⟨hexpand, hne, -⟩ := htarget
    have hcut : cut 0x3a t.body = (t.name, d ++ t.suffix, true) := by
      rw [body, hd, Option.elim, append_assoc, cons_append]
      exact cut_append hname _
    have hmech : e.lib.unicode.toLower t.name ∈ expanded := by
      rw [t.toLower_name]
      split <;> decide
    have harg : e.expand (d ++ t.suffix) current true s = (some (t.target ++ t.suffix), s) :=
      expandFrom_append e current true (fun h => (t.suffix_bytes h).2.2 rfl) d 0 (Nat.zero_le _) (hexpand s)
    simp only [Peer.readTerm, t.splitQualifier_text, hcut, hmech, true_and, if_true]
    rw [bind_apply, harg]
    dsimp only
    rw [t.toLower_name, t.mechanism_host]
    simp only [targetOf, if_true, t.splitCidr_target hd, true_and]
    by_cases h6 : t.ip6 = none
    · have hread : t.Readable := ⟨h6, fun h => by simp [hd] at h⟩
      by_cases hl : s.lookups < maxDNSLookups <;> simp [h6, hread, hl, hne]
    · have hread : ¬t.Readable := fun h => h6 h.1
      simp [h6, hread]

/-! ### Searching -/

theorem ipInAddrs_apply (host : Str) (s : State) : e.ipInAddrs host (cidrOf t.ip4) s =
      ((addresses (e.r.lookupIPAddr s.asked.length host)).any (compares t.ip4 e.ip),
        { s with asked := .ip host :: s.asked }) := by
  have hask : e.lookupIPAddr host s =
    (e.r.lookupIPAddr s.asked.length host, { s with asked := .ip host :: s.asked }) := rfl
  rw [Peer.ipInAddrs, bind_apply, hask]
  cases e.r.lookupIPAddr s.asked.length host with
  | error err => rfl
  | ok ips =>
    simp only [addresses, ipWithin_eq t.ip4_le]
    rfl

/-- The loop over the hosts finds what is among the addresses it sees. -/
theorem inHosts_eq : ∀ (hosts : List Str) (s : State), (e.inHosts t.target (cidrOf t.ip4) hosts s).1 =
      (t.seen (maxDNSLookups - s.lookups) s.asked.length hosts).any (compares t.ip4 e.ip)
  | [], s => by
    rw [e.inHosts_nil]
    by_cases hl : s.lookups < maxDNSLookups
    · obtain ⟨k, hk⟩ := Nat.exists_eq_succ_of_ne_zero (Nat.sub_ne_zero_of_lt hl)
      rw [if_pos hl, t.ipInAddrs_apply, hk]
      rfl
    · rw [if_neg hl, Nat.sub_eq_zero_of_le (Nat.le_of_not_lt hl)]
      rfl
  | host :: hosts, s => by
    rw [e.inHosts_cons]
    by_cases hl : s.lookups < maxDNSLookups
    · have hk : maxDNSLookups - s.lookups = maxDNSLookups - (s.lookups + 1) + 1 := by omega
      rw [if_pos hl, t.ipInAddrs_apply, hk, seen, any_append]
      cases (addresses (e.r.lookupIPAddr s.asked.length (trimLast 0x2e host))).any (compares t.ip4 e.ip) with
      | true => rfl
      | false => exact inHosts_eq hosts _
    · rw [if_neg hl, Nat.sub_eq_zero_of_le (Nat.le_of_not_lt hl)]
      rfl

theorem lookIn_apply (host : Str) (s : State) : t.lookIn host s =
    (match e.r.lookupIPAddr s.asked.length host with
      | .error .notFound => .miss
      | .error .other => .failure
      | .ok ips => if ips.any t.hits then .match else .miss, { s with asked := .ip host :: s.asked }) := by
  have hask : e.lookupIPAddr host s =
    (e.r.lookupIPAddr s.asked.length host, { s with asked := .ip host :: s.asked }) := rfl
  rw [lookIn, bind_apply, hask]
  rcases e.r.lookupIPAddr s.asked.length host with (_ | _) | ips <;> rfl

/-- The search over hosts, in one look at their addresses. -/
theorem lookThrough_eq : ∀ (hosts : List Str) (s : State),
    (t.Steady s.asked.length hosts → (t.lookThrough hosts s).1 =
      if (due e s.asked.length hosts).any t.hits then .match else .miss) ∧
    (¬t.Steady s.asked.length hosts → (t.lookThrough hosts s).1 = .failure)
  | [], s => ⟨fun _ => rfl, fun h => absurd trivial h⟩
  | host :: hosts, s => by
    have ih := lookThrough_eq hosts { s with asked := .ip (trimLast 0x2e host) :: s.asked }
    have hrun : t.lookThrough (host :: hosts) s =
        match t.lookIn (trimLast 0x2e host) s with
        | (.miss, s') => t.lookThrough hosts s'
        | (o, s') => (o, s') := by
      rw [lookThrough, bind_apply]
      rcases t.lookIn (trimLast 0x2e host) s with ⟨_ | _ | _, s'⟩ <;> rfl
    rw [hrun, t.lookIn_apply]
    simp only [Steady, due, any_append]
    rcases e.r.lookupIPAddr s.asked.length (trimLast 0x2e host) with (_ | _) | ips
    · exact ih
    · exact ⟨fun h => h.elim, fun _ => rfl⟩
    · cases hany : ips.any t.hits with
      | true => simp [addresses, hany]
      | false => simpa [addresses, hany] using ih

theorem search_mx (h : t.mx = true) (s : State) : t.search s = match e.r.lookupMX s.asked.length t.target with
    | .error .notFound => (.miss, { s with asked := .mx t.target :: s.asked })
    | .error .other => (.failure, { s with asked := .mx t.target :: s.asked })
    | .ok hosts => t.lookThrough hosts { s with asked := .mx t.target :: s.asked } := by
  have hask : e.lookupMX t.target s =
    (e.r.lookupMX s.asked.length t.target, { s with asked := .mx t.target :: s.asked }) := rfl
  rw [search, if_pos h, bind_apply, hask]
  rcases e.r.lookupMX s.asked.length t.target with (_ | _) | hosts <;> rfl

end HostTerm

open HostTerm in
/-- ADDRESSES: an address mechanism comes to what RFC 7208 says exactly when the code covers its form, its
    lookups and the comparison of the addresses. -/
theorem host_mechanism_iff (e : Peer) (sub : Str → Eval Result) (current : Str) (t : HostTerm e current)
    (s : State) : (e.evalMechanism sub t.text current s).1 = t.outcome (t.search s).1 ↔ t.Covered s := by
  classical
  have hresult : ∀ q, resultForQualifier q ≠ .tempError := by
    intro q
    unfold resultForQualifier
    repeat' split
    all_goals decide
  rw [t.evalMechanism_host]
  by_cases hread : t.Readable ∧ s.lookups < maxDNSLookups
  · obtain ⟨⟨h6, h4⟩, hl⟩ := hread
    rw [if_pos ⟨⟨h6, h4⟩, hl⟩]
    have hcomes : ∀ hit found, hitOrMiss (t.qualifier.getD 0x2b) hit = t.outcome found ↔
        found ≠ .failure ∧ (hit = true ↔ found = .match) := by
      intro hit found
      cases hit <;> cases found <;> simp [hitOrMiss, outcome, hresult]
    rw [hcomes, Covered]
    simp only [h6, hl, true_and, hitAt, and_iff_right h4]
    cases hm : t.mx with
    | false =>
      have hsearch : t.search = t.lookIn t.target := by simp [search, hm]
      simp only [hsearch, Bool.false_eq_true, if_false, t.ipInAddrs_apply, t.lookIn_apply]
      rcases e.r.lookupIPAddr s.asked.length t.target with (_ | _) | ips
      · simp [addresses]
      · simp
      · simp only [addresses]
        cases ips.any t.hits <;> cases ips.any (compares t.ip4 e.ip) <;> simp
    | true =>
      simp only [if_true, e.ipInMX_apply, t.search_mx hm]
      rcases e.r.lookupMX s.asked.length t.target with (_ | _) | hosts
      · simp
      · simp
      · obtain ⟨hsteady, hunsteady⟩ := t.lookThrough_eq hosts { s with asked := .mx t.target :: s.asked }
        simp only [t.inHosts_eq]
        by_cases h : t.Steady (s.asked.length + 1) hosts
        · simp only [hsteady h, h, length_cons, Nat.sub_add_eq, true_and]
          generalize (due e (s.asked.length + 1) hosts).any t.hits = found
          generalize (t.seen _ _ hosts).any (compares t.ip4 e.ip) = hit
          cases found <;> cases hit <;> simp
        · simp [hunsteady h, h]
  · rw [if_neg hread]
    refine iff_of_false ?_ fun h => hread ⟨⟨h.1, h.2.1⟩, h.2.2.1⟩
    cases (t.search s).1 <;> simp [outcome]

/-- A client at 192.0.2.1, given in 16 bytes; the domain has this address, in 4 bytes. -/
def mappedClient : Peer where
  r := { zone [] with lookupIPAddr := fun _ _ => .ok [[192, 0, 2, 1]] }
  lib := plainLibrary
  ip := [0, 0, 0, 0, 0, 0, 0, 0, 0, 0, 0xff, 0xff, 192, 0, 2, 1]
  helo := []
  localpart := []
  senderDomain := ascii "a.example"

/-- The mechanism `a` without an argument. -/
def plainA : HostTerm mappedClient (ascii "a.example") where
  qualifier := none
  mx := false
  name := ascii "a"
  domain := none
  ip4 := none
  ip6 := none
  target := ascii "a.example"
  qualified := by simp
  named := by decide
  ip4_le := by simp
  ip6_le := by simp
  targeted := rfl

/-- A client whose address came in 16 bytes is not found among addresses of 4 bytes. -/
theorem mapped_client_misses :
    let sub := mappedClient.checkDomain (fun _ => pure .permError) maxDNSLookups
    plainA.text = ascii "a" ∧ (mappedClient.evalMechanism sub plainA.text (ascii "a.example") {}).1 = .miss ∧
      plainA.outcome (plainA.search {}).1 = .ends .pass := by
  decide +kernel

end Mailezine.Spf
