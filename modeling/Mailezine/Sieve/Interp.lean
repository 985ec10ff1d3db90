import Mailezine.Gostd.Strings

/-! The Sieve interpreter: commands, control flow and the implicit keep.

    The interpreter changes its runtime data in place and appends the actions that a script asks for to
    a list. Tests and variables are taken as they come: a test is any function of the runtime data that
    may set variables, and `expandVars` any function of the variables. -/

namespace Mailezine.Sieve
open Gostd List

/-- An action that a script has asked for. -/
inductive AppliedAction where
  | keep (implicit : Bool) (flags : List Str)
  | discard
  | fileInto (mailbox : Str) (flags : List Str) (copy create : Bool)
  | redirect (address : Str) (copy : Bool)
  | reject (reason : Str)
  | ereject (reason : Str)
  | addHeader (name value : Str)
  | deleteHeader (name : Str) (values : List Str) (index : Int)
  | vacation (days : Int) (sender subject body : Str) (addresses : List Str)
  deriving DecidableEq

def AppliedAction.cancelsImplicitKeep : AppliedAction → Bool
  | .keep .. | .discard | .reject _ | .ereject _ => true
  | .fileInto _ _ copy _ | .redirect _ copy => !copy
  | .addHeader .. | .deleteHeader .. | .vacation .. => false

/-- The runtime data, as far as scripts change it; `vars` are the variables of whatever kind. -/
structure RuntimeData (ν : Type) where
  vars : ν
  ifResult : Bool := false
  appliedActions : List AppliedAction := []
  redirectAddr : List Str := []
  mailboxes : List Str := []
  flags : Option (List Str) := none
  keep : Bool := false
  implicitKeep : Bool := true

/-- `DefaultOnAction`. -/
def RuntimeData.onAction {ν : Type} (d : RuntimeData ν) (a : AppliedAction) : RuntimeData ν :=
  { d with appliedActions := d.appliedActions ++ [a] }

/-- `Test.Check`: the answer and the variables it sets, or an error. -/
abbrev Test (ν : Type) := RuntimeData ν → Except Str (Bool × ν)

/-- The commands without a block. `assign` stands for those that only set variables: `set` and the flag
    commands on a variable. -/
inductive Cmd (ν : Type) where
  | stop
  | fileInto (mailbox : Str) (flags : Option (List Str)) (copy create : Bool)
  | redirect (addr : Str) (copy : Bool)
  | keep (flags : Option (List Str))
  | discard
  | setFlag (flags : Option (List Str))
  | addFlag (flags : Option (List Str))
  | removeFlag (flags : Option (List Str))
  | assign (value : RuntimeData ν → Except Str ν)
  | reject (reason : Str)
  | ereject (reason : Str)
  | addHeader (name value : Str)
  | deleteHeader (name : Str) (values : List Str) (index : Int)
  | vacation (days : Int) (sender subject body : Str) (addresses : List Str)

/-- A list of commands. -/
inductive Block (ν : Type) where
  | done
  | cmd (c : Cmd ν) (rest : Block ν)
  | cmdIf (test : Test ν) (block rest : Block ν)
  | cmdElsif (test : Test ν) (block rest : Block ν)
  | cmdElse (block rest : Block ν)

/-- How a command ends: with nil, with `ErrStop` or with another error. -/
inductive Flow where
  | next
  | stop
  | fail (err : Str)
  deriving DecidableEq

/-- `canonicalFlags`; no flag aliases are ever defined. -/
def canonicalFlags (src remove : List Str) : Option (List Str) :=
  if src = [] then none
  else some ((src.flatMap fields).foldl
    (fun c f => if c.contains f || remove.contains f then c else c ++ [f]) [])

/-- What scripts run with: how variables are expanded, and the options. -/
structure Runtime (ν : Type) where
  expandVars : ν → Str → Str
  maxRedirects : Nat := 5

section Execute
variable {ν : Type} (x : Runtime ν)

/-- `expandVarsList`. -/
def Runtime.expandVarsList (d : RuntimeData ν) (l : List Str) : List Str := l.map (x.expandVars d.vars)

/-- The flags of a keep or fileinto: those given, else those set. -/
def Runtime.actionFlags (d : RuntimeData ν) (flags : Option (List Str)) : List Str :=
  (canonicalFlags (x.expandVarsList d ((flags.or d.flags).getD [])) []).getD []

/-- `Execute` of the commands without a block. -/
def Cmd.execute (c : Cmd ν) (d : RuntimeData ν) : RuntimeData ν × Flow :=
  match c with
  | .stop => (d, .stop)
  | .fileInto mailbox flags copy create =>
    let mailbox := x.expandVars d.vars mailbox
    if mailbox ∈ d.mailboxes then (d, .next)
    else
      ({ d.onAction (.fileInto mailbox (x.actionFlags d flags) copy create) with
        mailboxes := d.mailboxes ++ [mailbox]
        implicitKeep := copy && d.implicitKeep }, .next)
  | .redirect addr copy =>
    -- the policy allows every redirect
    let addr := x.expandVars d.vars addr
    let d := { d.onAction (.redirect addr copy) with
      redirectAddr := d.redirectAddr ++ [addr]
      implicitKeep := copy && d.implicitKeep }
    if x.maxRedirects < d.redirectAddr.length then (d, .fail (ascii "too many actions")) else (d, .next)
  | .keep flags => ({ d.onAction (.keep false (x.actionFlags d flags)) with keep := true }, .next)
  | .discard => ({ d.onAction .discard with implicitKeep := false, flags := some [] }, .next)
  | .setFlag flags =>
    match flags with
    | none => (d, .next)
    | some l => ({ d with flags := canonicalFlags (x.expandVarsList d l) [] }, .next)
  | .addFlag flags =>
    match flags with
    | none => (d, .next)
    | some l =>
      let l := x.expandVarsList d l
      match d.flags with
      | none => ({ d with flags := some l }, .next)
      | some src => ({ d with flags := canonicalFlags (src ++ l) [] }, .next)
  | .removeFlag flags =>
    match flags with
    | none => (d, .next)
    | some l => ({ d with flags := d.flags.bind fun src => canonicalFlags src (x.expandVarsList d l) }, .next)
  | .assign value =>
    match value d with
    | .ok vars => ({ d with vars := vars }, .next)
    | .error e => (d, .fail e)
  | .reject reason =>
    ({ d.onAction (.reject (x.expandVars d.vars reason)) with implicitKeep := false }, .next)
  | .ereject reason =>
    ({ d.onAction (.ereject (x.expandVars d.vars reason)) with implicitKeep := false }, .next)
  | .addHeader name value =>
    (d.onAction (.addHeader (x.expandVars d.vars name) (x.expandVars d.vars value)), .next)
  | .deleteHeader name values index =>
    (d.onAction (.deleteHeader (x.expandVars d.vars name) (x.expandVarsList d values) index), .next)
  | .vacation days sender subject body addresses =>
    (d.onAction (.vacation days (x.expandVars d.vars sender) (x.expandVars d.vars subject)
      (x.expandVars d.vars body) (x.expandVarsList d addresses)), .next)

/-- Go on after a command that ended with nil. -/
def andThen (r : RuntimeData ν × Flow) (k : RuntimeData ν → RuntimeData ν × Flow) : RuntimeData ν × Flow :=
  match r.2 with
  | .next => k r.1
  | _ => r

/-- `Execute` of a list of commands. -/
def Block.run : Block ν → RuntimeData ν → RuntimeData ν × Flow
  | .done, d => (d, .next)
  | .cmd c rest, d => andThen (c.execute x d) rest.run
  | .cmdIf test block rest, d =>
    match test d with
    | .error e => (d, .fail e)
    | .ok (res, vars) =>
      let d := { d with vars := vars }
      andThen (if res then block.run d else (d, .next)) fun d => rest.run { d with ifResult := res }
  | .cmdElsif test block rest, d =>
    if d.ifResult then rest.run d
    else match test d with
      | .error e => (d, .fail e)
      | .ok (res, vars) =>
        let d := { d with vars := vars }
        andThen (if res then block.run d else (d, .next)) fun d => rest.run { d with ifResult := res }
  | .cmdElse block rest, d => if d.ifResult then rest.run d else andThen (block.run d) rest.run

/-- `Script.Execute`: after `stop` it returns at once, else it adds the implicit keep unless something
    cancelled it. -/
def execute (script : Block ν) (d : RuntimeData ν) : Except Str (RuntimeData ν) :=
  match script.run x d with
  | (_, .fail e) => .error e
  | (d, .stop) => .ok d
  | (d, .next) =>
    if d.implicitKeep && !d.appliedActions.any (·.cancelsImplicitKeep) then
      .ok (d.onAction (.keep true (d.flags.getD [])))
    else .ok d

end Execute

/-! ### What a script has done -/

/-- An executed command that decides where a message goes. -/
inductive Deed where
  | keep
  | fileInto (mailbox : Str) (copy : Bool)
  | redirect (address : Str) (copy : Bool)
  | discard
  | reject
  deriving DecidableEq

/-- Whether it cancels the implicit keep. -/
def Deed.cancels : Deed → Bool
  | .keep | .discard | .reject => true
  | .fileInto _ copy | .redirect _ copy => !copy

/-- The mailbox that a command files into. -/
def Deed.filed : Deed → Option Str
  | .fileInto m _ => some m
  | .keep | .redirect .. | .discard | .reject => none

/-- The address that a command redirects to. -/
def Deed.redirected : Deed → Option Str
  | .redirect a _ => some a
  | .keep | .fileInto .. | .discard | .reject => none

/-- The command behind an action. -/
def AppliedAction.deed : AppliedAction → Option Deed
  | .keep .. => some .keep
  | .discard => some .discard
  | .fileInto m _ copy _ => some (.fileInto m copy)
  | .redirect a copy => some (.redirect a copy)
  | .reject _ | .ereject _ => some .reject
  | .addHeader .. | .deleteHeader .. | .vacation .. => none

/-- The flags of an action. -/
def AppliedAction.flags : AppliedAction → List Str
  | .keep _ flags | .fileInto _ flags _ _ => flags
  | _ => []

/-- An executed command with its flags. -/
abbrev Entry := Deed × List Str

/-- The entry of an action. -/
def AppliedAction.entry (a : AppliedAction) : Option Entry := a.deed.map (·, a.flags)

section Deeds
variable {ν : Type} (x : Runtime ν)

/-- What a command does when it is executed. -/
def Cmd.entries (c : Cmd ν) (d : RuntimeData ν) : List Entry :=
  match c with
  | .fileInto mailbox flags copy _ => [(.fileInto (x.expandVars d.vars mailbox) copy, x.actionFlags d flags)]
  | .redirect addr copy => [(.redirect (x.expandVars d.vars addr) copy, [])]
  | .keep flags => [(.keep, x.actionFlags d flags)]
  | .discard => [(.discard, [])]
  | .reject _ | .ereject _ => [(.reject, [])]
  | _ => []

/-- The entries of what comes after a command that ended with nil. -/
def entriesAfter (r : RuntimeData ν × Flow) (k : RuntimeData ν → List Entry) : List Entry :=
  match r.2 with
  | .next => k r.1
  | _ => []

/-- The commands that a run executes, in order. -/
def Block.entries : Block ν → RuntimeData ν → List Entry
  | .done, _ => []
  | .cmd c rest, d => c.entries x d ++ entriesAfter (c.execute x d) rest.entries
  | .cmdIf test block rest, d =>
    match test d with
    | .error _ => []
    | .ok (res, vars) =>
      let d := { d with vars := vars }
      (if res then block.entries d else []) ++
        entriesAfter (if res then block.run x d else (d, .next)) fun d => rest.entries { d with ifResult := res }
  | .cmdElsif test block rest, d =>
    if d.ifResult then rest.entries d
    else match test d with
      | .error _ => []
      | .ok (res, vars) =>
        let d := { d with vars := vars }
        (if res then block.entries d else []) ++
          entriesAfter (if res then block.run x d else (d, .next)) fun d => rest.entries { d with ifResult := res }
  | .cmdElse block rest, d =>
    if d.ifResult then rest.entries d else block.entries d ++ entriesAfter (block.run x d) rest.entries

/-- What a run does, in order. -/
def Block.deeds (script : Block ν) (d : RuntimeData ν) : List Deed := (script.entries x d).map (·.1)

/-- Whether a run ends with `stop`. -/
def stopped (script : Block ν) (d : RuntimeData ν) : Bool := (script.run x d).2 = .stop

end Deeds

/-- The deeds that the interpreter records: it passes over a fileinto when the name is there already. -/
def record (seen : List Str) : List Deed → List Deed
  | [] => []
  | .fileInto m copy :: l =>
    if m ∈ seen then record seen l else .fileInto m copy :: record (seen ++ [m]) l
  | a :: l => a :: record seen l

/-- The same with the flags. -/
def taken (seen : List Str) : List Entry → List Entry
  | [] => []
  | e :: l =>
    match e.1.filed with
    | some m => if m ∈ seen then taken seen l else e :: taken (seen ++ [m]) l
    | none => e :: taken seen l

theorem map_taken : ∀ (seen : List Str) (l : List Entry), (taken seen l).map (·.1) = record seen (l.map (·.1))
  | _, [] => rfl
  | seen, (a, flags) :: l => by
    cases a with
    | fileInto m copy =>
      simp only [taken, Deed.filed, map_cons, record]
      split
      · exact map_taken seen l
      · exact congrArg (_ :: ·) (map_taken (seen ++ [m]) l)
    | _ => exact congrArg (_ :: ·) (map_taken seen l)

theorem taken_append : ∀ (seen : List Str) (l l' : List Entry),
    taken seen (l ++ l') = taken seen l ++ taken (seen ++ (taken seen l).filterMap (·.1.filed)) l'
  | seen, [], l' => by simp [taken]
  | seen, (a, flags) :: l, l' => by
    cases a with
    | fileInto m copy =>
      simp only [cons_append, taken, Deed.filed]
      split
      · exact taken_append seen l l'
      · rw [taken_append (seen ++ [m]) l l']
        simp [Deed.filed]
    | _ => exact congrArg (_ :: ·) (taken_append seen l l')

/-- How the runtime data goes on while commands are executed. -/
structure Recorded {ν : Type} (d : RuntimeData ν) (l : List Entry) (d' : RuntimeData ν) : Prop where
  actions : d'.appliedActions.filterMap AppliedAction.entry =
    d.appliedActions.filterMap AppliedAction.entry ++ taken d.mailboxes l
  mailboxes : d'.mailboxes = d.mailboxes ++ (taken d.mailboxes l).filterMap (·.1.filed)
  cancelled : (d.implicitKeep = false → d.appliedActions.any (·.cancelsImplicitKeep) = true) →
    d'.implicitKeep = false → d'.appliedActions.any (·.cancelsImplicitKeep) = true

section Recording
variable {ν : Type} {x : Runtime ν} {d d' d'' : RuntimeData ν} {l l' : List Entry}

/-- Data that differ in nothing that is recorded. -/
theorem Recorded.same (ha : d'.appliedActions = d.appliedActions) (hm : d'.mailboxes = d.mailboxes)
    (hk : d'.implicitKeep = d.implicitKeep) : Recorded d [] d' :=
  ⟨by simp [ha, taken], by simp [hm, taken], by rw [ha, hk]; exact id⟩

theorem Recorded.trans (h : Recorded d l d') (h' : Recorded d' l' d'') : Recorded d (l ++ l') d'' := by
  have hrec : taken d'.mailboxes l' =
      taken (d.mailboxes ++ (taken d.mailboxes l).filterMap (·.1.filed)) l' := by rw [h.mailboxes]
  refine ⟨?_, ?_, fun hc => h'.cancelled (h.cancelled hc)⟩
  · rw [h'.actions, h.actions, taken_append, hrec, append_assoc]
  · rw [h'.mailboxes, taken_append, filterMap_append, ← append_assoc, ← h.mailboxes, hrec]

/-- One action more. -/
theorem Recorded.acted {a : AppliedAction} {l : List Entry} (ha : d'.appliedActions = d.appliedActions ++ [a])
    (hl : taken d.mailboxes l = a.entry.toList)
    (hm : d'.mailboxes = d.mailboxes ++ (a.entry.toList).filterMap (·.1.filed))
    (hk : d'.implicitKeep = false → d.implicitKeep = false ∨ a.cancelsImplicitKeep = true) :
    Recorded d l d' := by
  refine ⟨?_, by rw [hm, hl], fun hc hd => ?_⟩
  · rw [ha, filterMap_append, hl]
    cases h : a.entry <;> simp [h]
  · rw [ha, any_append]
    rcases hk hd with h | h
    · rw [hc h, Bool.true_or]
    · simp [h]

/-- A command records what it does. -/
theorem Cmd.recorded (c : Cmd ν) (d : RuntimeData ν) : Recorded d (c.entries x d) (c.execute x d).1 := by
  cases c with
  | stop => exact .same rfl rfl rfl
  | fileInto mailbox flags copy create =>
    simp only [Cmd.execute, Cmd.entries]
    split
    case isTrue hin => exact ⟨by simp [taken, Deed.filed, hin], by simp [taken, Deed.filed, hin], fun h => h⟩
    case isFalse hout =>
      refine .acted rfl (by simp only [taken, Deed.filed, if_neg hout]; rfl) rfl ?_
      cases copy <;> simp [AppliedAction.cancelsImplicitKeep]
  | redirect addr copy =>
    have hrec : ∀ d' : RuntimeData ν,
        d'.appliedActions = d.appliedActions ++ [.redirect (x.expandVars d.vars addr) copy] →
        d'.mailboxes = d.mailboxes → d'.implicitKeep = (copy && d.implicitKeep) →
        Recorded d [(.redirect (x.expandVars d.vars addr) copy, [])] d' := by
      intro d' ha hm hk
      refine .acted ha rfl (hm.trans (append_nil _).symm) ?_
      rw [hk]
      cases copy <;> simp [AppliedAction.cancelsImplicitKeep]
    simp only [Cmd.execute, Cmd.entries]
    split <;> exact hrec _ rfl rfl rfl
  | keep | discard | reject | ereject =>
    exact .acted rfl rfl (append_nil _).symm fun _ => .inr rfl
  | setFlag flags =>
    cases flags <;> exact .same rfl rfl rfl
  | removeFlag flags =>
    cases flags <;> exact .same rfl rfl rfl
  | addFlag flags =>
    cases flags with
    | none => exact .same rfl rfl rfl
    | some l =>
      simp only [Cmd.execute]
      split <;> exact .same rfl rfl rfl
  | assign value =>
    simp only [Cmd.execute]
    split <;> exact .same rfl rfl rfl
  | addHeader | deleteHeader | vacation =>
    exact .acted rfl rfl (append_nil _).symm .inl

theorem Recorded.andThen {r : RuntimeData ν × Flow} {k : RuntimeData ν → RuntimeData ν × Flow}
    {kd : RuntimeData ν → List Entry} (h : Recorded d l r.1) (hk : ∀ d, Recorded d (kd d) (k d).1) :
    Recorded d (l ++ entriesAfter r kd) (Sieve.andThen r k).1 := by
  unfold Sieve.andThen entriesAfter
  cases r.2 with
  | next => exact h.trans (hk r.1)
  | _ => rwa [append_nil]

/-- A block that is executed or not, and what comes after it. -/
theorem branch_recorded (block rest : Block ν) (d : RuntimeData ν) (res : Bool) (vars : ν)
    (hblock : ∀ d, Recorded d (block.entries x d) (block.run x d).1)
    (hrest : ∀ d, Recorded d (rest.entries x d) (rest.run x d).1) : Recorded d
      ((if res then block.entries x { d with vars := vars } else []) ++
        entriesAfter (if res then block.run x { d with vars := vars } else ({ d with vars := vars }, .next))
          fun d => rest.entries x { d with ifResult := res })
      (Sieve.andThen (if res then block.run x { d with vars := vars } else ({ d with vars := vars }, .next))
        fun d => rest.run x { d with ifResult := res }).1 := by
  have hset : Recorded d [] { d with vars := vars } := .same rfl rfl rfl
  refine Recorded.andThen ?_ fun d => ?_
  · cases res with
    | true => exact hset.trans (hblock _)
    | false => exact hset
  · have hres : Recorded d [] { d with ifResult := res } := .same rfl rfl rfl
    exact hres.trans (hrest _)

/-- RECORDED: a run records what it does. -/
theorem Block.recorded : ∀ (b : Block ν) (d : RuntimeData ν), Recorded d (b.entries x d) (b.run x d).1
  | .done, d => .same rfl rfl rfl
  | .cmd c rest, d => (c.recorded d).andThen rest.recorded
  | .cmdIf test block rest, d => by
    simp only [Block.run, Block.entries]
    split
    · exact .same rfl rfl rfl
    case h_2 res vars _ => exact branch_recorded block rest d res vars block.recorded rest.recorded
  | .cmdElsif test block rest, d => by
    simp only [Block.run, Block.entries]
    split
    · exact rest.recorded d
    · split
      · exact .same rfl rfl rfl
      case h_2 res vars _ => exact branch_recorded block rest d res vars block.recorded rest.recorded
  | .cmdElse block rest, d => by
    simp only [Block.run, Block.entries]
    split
    · exact rest.recorded d
    · exact (block.recorded d).andThen rest.recorded

theorem AppliedAction.cancels_deed (a : AppliedAction) :
    a.cancelsImplicitKeep = a.deed.toList.any Deed.cancels := by
  cases a <;> simp [AppliedAction.cancelsImplicitKeep, AppliedAction.deed, Deed.cancels]

theorem any_cancels (l : List AppliedAction) :
    l.any (·.cancelsImplicitKeep) = (l.filterMap AppliedAction.deed).any Deed.cancels := by
  induction l with
  | nil => rfl
  | cons a l ih =>
    rw [any_cons, ih, a.cancels_deed, filterMap_cons]
    cases a.deed <;> simp

theorem filterMap_entry (l : List AppliedAction) :
    (l.filterMap AppliedAction.entry).map (·.1) = l.filterMap AppliedAction.deed := by
  rw [map_filterMap]
  refine filterMap_congr fun a _ => ?_
  unfold AppliedAction.entry
  cases a.deed <;> rfl

/-- The commands of a run, and the implicit keep. -/
def Block.finished (x : Runtime ν) (script : Block ν) (d : RuntimeData ν) : List Entry :=
  script.entries x d ++ match script.run x d with
    | (d, .next) =>
      if d.implicitKeep && !d.appliedActions.any (·.cancelsImplicitKeep) then [(.keep, d.flags.getD [])] else []
    | _ => []

/-- The actions of a script that ends well are the commands that are not passed over. -/
theorem execute_finished {script : Block ν} {vars : ν} (h : execute x script { vars := vars } = .ok d') :
    d'.appliedActions.filterMap AppliedAction.entry = taken [] (script.finished x { vars := vars }) := by
  have hrec := (script.recorded (x := x) { vars := vars }).actions
  unfold execute at h
  unfold Block.finished
  rw [taken_append]
  rcases hrun : script.run x { vars := vars } with ⟨d₁, flow⟩
  rw [hrun] at h hrec
  cases flow with
  | fail e => cases h
  | stop =>
    cases h
    simpa [taken] using hrec
  | next =>
    dsimp only at h ⊢
    by_cases hkeep : (d₁.implicitKeep && !d₁.appliedActions.any (·.cancelsImplicitKeep)) = true
    · rw [if_pos hkeep] at h ⊢
      cases h
      rw [RuntimeData.onAction, filterMap_append, hrec]
      rfl
    · rw [if_neg hkeep] at h ⊢
      cases h
      simpa [taken] using hrec

/-- EXECUTED: the actions of a script that ends well are its recorded deeds, and the implicit keep when
    the script was not stopped and none of them cancels it. -/
theorem execute_deeds {script : Block ν} {vars : ν} (h : execute x script { vars := vars } = .ok d') :
    d'.appliedActions.filterMap AppliedAction.deed =
      record [] (script.deeds x { vars := vars }) ++
        if !stopped x script { vars := vars } &&
          !(record [] (script.deeds x { vars := vars })).any Deed.cancels then [.keep] else [] := by
  have hrec := script.recorded (x := x) { vars := vars }
  have hact : ((script.run x { vars := vars }).1.appliedActions).filterMap AppliedAction.deed =
      record [] (script.deeds x { vars := vars }) := by
    rw [Block.deeds, ← map_taken, ← filterMap_entry]
    exact congrArg (map (·.1)) hrec.actions
  unfold execute at h
  rcases hrun : script.run x { vars := vars } with ⟨d₁, flow⟩
  rw [hrun] at h hrec hact
  cases flow with
  | fail e => cases h
  | stop =>
    cases h
    simpa [stopped, hrun] using hact
  | next =>
    have hcan : d₁.implicitKeep = false → d₁.appliedActions.any (·.cancelsImplicitKeep) = true :=
      hrec.cancelled (by simp)
    simp only at h hact
    rw [← hact, ← any_cancels]
    cases hany : d₁.appliedActions.any (·.cancelsImplicitKeep) with
    | true =>
      rw [hany, Bool.not_true, Bool.and_false, if_neg Bool.false_ne_true] at h
      cases h
      simp
    | false =>
      have hkeep : d₁.implicitKeep = true := by
        cases hk : d₁.implicitKeep with
        | true => rfl
        | false => rw [hcan hk] at hany; cases hany
      rw [hany, hkeep] at h
      cases h
      simp [stopped, hrun, RuntimeData.onAction, AppliedAction.deed]

end Recording

end Mailezine.Sieve
