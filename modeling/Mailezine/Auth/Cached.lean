import Mailezine.Gostd.Strings
import Mailezine.Schemes.Threads
import Mathlib.Data.Set.Function

/-! The memo of authentications (`internal/auth/cached.go`).

    A session token that the service has accepted is accepted for a while without asking again. The key
    is a digest of the e-mail and the password with a NUL between them, which an e-mail may have in it
    too. -/

namespace Mailezine.Auth
open Gostd Schemes

/-- When each success expires, if it does. -/
abbrev Memo := Str → Option (Option Int)

/-- A call with what is outside of it: the clock at `Get` and at `Put`, the answer of the service, and
    the keys that `Put` evicts. -/
structure Call where
  email : Str
  password : Str
  gotAt : Int := 0
  putAt : Int := 0
  ok : Bool
  err : Bool := false
  evicted : Str → Bool := fun _ => false

def sessionTokenPrefix : Str := ascii "token-"

/-- `Cache.Get`. -/
def Memo.get (memo : Memo) (key : Str) (now : Int) : Bool × Memo :=
  match memo key with
  | none => (false, memo)
  | some expires => if expires.any (· < now) then (false, Function.update memo key none) else (true, memo)

theorem Memo.get_le {memo : Memo} {k key : Str} {now : Int} {e : Option Int} (h : (memo.get k now).2 key = some e) :
    memo key = some e := by
  unfold Memo.get at h
  split at h
  · exact h
  split at h
  · replace h : Function.update memo k none key = some e := h
    rw [Function.update_apply] at h
    split_ifs at h
    exact h
  · exact h

section
variable (digest : Str → Str) (ttl : Int)

def credentialKey (email password : Str) : Str := digest (email ++ 0 :: password)

/-- `Cache.expiry`. -/
def expiry (now : Int) : Option Int := if ttl ≤ 0 then none else some (now + ttl)

/-- `Cache.Put`. -/
def Memo.put (memo : Memo) (key : Str) (now : Int) (evicted : Str → Bool) : Memo :=
  fun k => if evicted k then none else Function.update memo key (some (expiry ttl now)) k

/-- `Cached.Authenticate`, its first result. -/
def authenticate (memo : Memo) (c : Call) : Bool × Memo :=
  let key := credentialKey digest c.email c.password
  let got := memo.get key c.gotAt
  if !sessionTokenPrefix.isPrefixOf c.password then (c.ok, memo)
  else if got.1 then (true, got.2)
  else (c.ok, if !c.err && c.ok then got.2.put ttl key c.putAt c.evicted else got.2)

/-- The memo after these calls. -/
def after (calls : List Call) : Memo := runs (fun memo c => (authenticate digest ttl memo c).2) (fun _ => none) calls

/-- A call that made an entry. -/
structure Earned (key : Str) (expires : Option Int) (c : Call) : Prop where
  token : sessionTokenPrefix.isPrefixOf c.password = true
  key : credentialKey digest c.email c.password = key
  ok : c.ok = true
  err : c.err = false
  expires : expires = expiry ttl c.putAt

/-- The step lemma. -/
theorem earned_authenticate {memo : Memo} {calls : List Call}
    (h : ∀ key e, memo key = some e → ∃ c ∈ calls, Earned digest ttl key e c) {c : Call} (hc : c ∈ calls)
    (key : Str) (e : Option Int) (he : (authenticate digest ttl memo c).2 key = some e) :
    ∃ c ∈ calls, Earned digest ttl key e c := by
  unfold authenticate at he
  extract_lets k got at he
  split_ifs at he with htoken hhit hput
  · exact h key e he
  · exact h key e (Memo.get_le he)
  · replace he : got.2.put ttl k c.putAt c.evicted key = some e := he
    rw [Memo.put, Function.update_apply] at he
    split_ifs at he with hev hkey
    · obtain ⟨herr, hok⟩ := Bool.and_eq_true_iff.mp hput
      exact ⟨c, hc, by simpa using htoken, hkey.symm, hok, by simpa using herr, (Option.some.inj he).symm⟩
    · exact h key e (Memo.get_le he)
  · exact h key e (Memo.get_le he)

/-- The run lemma. -/
theorem earned_after (calls : List Call) :
    ∀ key e, after digest ttl calls key = some e → ∃ c ∈ calls, Earned digest ttl key e c :=
  List.foldlRecOn (motive := fun memo : Memo => ∀ key e, memo key = some e → ∃ c ∈ calls, Earned digest ttl key e c)
    calls _ (by simp) fun _ hmemo _ hc => earned_authenticate digest ttl hmemo hc

/-- REPLAYS: when no e-mail has a NUL in it and no digests collide, a call returns true only if the
    service does, or if it did for the same e-mail and token not longer ago than the memo lasts. -/
theorem only_successes_replayed (calls : List Call) (c : Call) (hnul : ∀ d ∈ c :: calls, 0 ∉ d.email)
    (hinj : Set.InjOn digest {s | ∃ d ∈ c :: calls, s = d.email ++ 0 :: d.password})
    (htrue : (authenticate digest ttl (after digest ttl calls) c).1 = true) :
    c.ok = true ∨ ∃ d ∈ calls, d.email = c.email ∧ d.password = c.password ∧
      sessionTokenPrefix.isPrefixOf c.password = true ∧ d.ok = true ∧ d.err = false ∧
        (0 < ttl → c.gotAt ≤ d.putAt + ttl) := by
  unfold authenticate at htrue
  extract_lets key got at htrue
  split_ifs at htrue with htoken hhit
  · exact .inl htrue
  · unfold got Memo.get at hhit
    split at hhit
    · cases hhit
    · rename_i e he
      split_ifs at hhit with hexp
      obtain ⟨d, hd, hearned⟩ := earned_after digest ttl calls _ _ he
      obtain ⟨hemail, hpass⟩ := append_nul_inj (hnul d (by simp [hd])) (hnul c (by simp))
        (hinj ⟨d, by simp [hd], rfl⟩ ⟨c, by simp, rfl⟩ hearned.key)
      refine .inr ⟨d, hd, hemail, hpass, by simpa using htoken, hearned.ok, hearned.err, fun hpos => ?_⟩
      rw [hearned.expires, expiry, if_neg (by omega)] at hexp
      simpa using hexp
  · exact .inl htrue
  · exact .inl htrue

end

/-- A login that the service accepts. -/
def accepted : Call := { email := ascii "a", password := ascii "token-b", ok := true }

theorem only_successes_replayed_token : ∃ d ∈ [accepted], d.ok = true := by
  obtain h | ⟨d, hd, -, -, -, hok, -⟩ := only_successes_replayed id 60 [accepted]
    { accepted with ok := false, gotAt := 60 } (by decide +kernel) Function.injective_id.injOn (by decide +kernel)
  · cases h
  · exact ⟨d, hd, hok⟩

/-- A NUL moves the boundary between e-mail and token: the second pair is replayed as the first. -/
theorem nul_moves_boundary :
    let first : Call := { email := ascii "a", password := ascii "token-x" ++ 0 :: ascii "token-y", ok := true }
    let second : Call := { email := ascii "a" ++ 0 :: ascii "token-x", password := ascii "token-y", ok := false }
    (authenticate id 60 (after id 60 [first]) second).1 = true ∧ first.email ≠ second.email ∧
      first.password ≠ second.password := by
  decide +kernel

end Mailezine.Auth
