import Mailezine.Delivery.Routing

/-! The flags of stored copies.

    A script gives flags to each of its keep and fileinto commands. The result of a run has one list of
    flags for all mailboxes, and the pipeline puts that list on every copy that it stores. A fileinto that
    repeats a name is passed over, with its flags. -/

namespace Mailezine.Sieve
open Gostd List

/-- The flags of a command, as the store spells them. -/
def given (u : Unicode) (flags : List Str) : List Str := (normalizeFlags u flags).filter (· ≠ [])

variable {u : Unicode}

/-- The flags of all actions come together. -/
theorem flags_foldl : ∀ (l : List AppliedAction) (res : Result),
    (l.foldl (Result.add u) res).flags = res.flags ++ l.flatMap fun a => normalizeFlags u a.flags
  | [], res => by simp
  | a :: l, res => by
    have hadd : (res.add u a).flags = res.flags ++ normalizeFlags u a.flags := by
      cases a with
      | ereject reason =>
        simp only [Result.add]
        split <;> simp [AppliedAction.flags, normalizeFlags]
      | _ => simp [Result.add, AppliedAction.flags, normalizeFlags]
    rw [foldl_cons, flags_foldl l, hadd, flatMap_cons, append_assoc]

theorem mem_flags {actions : List AppliedAction} {f : Str} : f ∈ (actionsToResult u actions).flags ↔
    ∃ e ∈ actions.filterMap AppliedAction.entry, f ∈ given u e.2 := by
  refine mem_dedupe.trans ?_
  rw [flags_foldl, nil_append]
  simp only [given, mem_flatMap, mem_filter, mem_filterMap, decide_eq_true_eq]
  constructor
  · rintro ⟨⟨a, ha, hf⟩, hne⟩
    cases hd : a.deed with
    | none => cases a <;> simp [AppliedAction.deed, AppliedAction.flags, normalizeFlags] at hd hf
    | some d => exact ⟨(d, a.flags), ⟨a, ha, by simp [AppliedAction.entry, hd]⟩, hf, hne⟩
  · rintro ⟨e, ⟨a, ha, he⟩, hf, hne⟩
    obtain ⟨d, -, rfl⟩ := Option.map_eq_some_iff.mp he
    exact ⟨⟨a, ha, hf⟩, hne⟩

end Mailezine.Sieve

namespace Mailezine.Delivery
open Gostd Schemes Sieve

/-- The mailbox that a command files into, as the store knows it. -/
def boxOf (e : Entry) : Option Str := e.1.mailbox.map normalizeMailboxName

/-- The flags are those of the commands that file into the mailbox. -/
def OwnFlags (u : Unicode) (l : List Entry) (mailbox : Str) (flags : List Str) : Prop :=
  ∀ f, f ∈ flags ↔ ∃ e ∈ l, boxOf e = some mailbox ∧ f ∈ given u e.2

/-- What the commands have to keep to, for the names under which copies are stored. -/
structure SharedFlags (u : Unicode) (names : List Str) (l : List Entry) : Prop where
  /-- Every flag of a command that is not passed over is given for each of the mailboxes. -/
  shared : ∀ name ∈ names, ∀ e ∈ taken [] l, ∀ f ∈ given u e.2,
    ∃ e' ∈ l, boxOf e' = some (normalizeMailboxName name) ∧ f ∈ given u e'.2
  /-- A command that is passed over has no flag of its own. -/
  kept : ∀ name ∈ names, ∀ e ∈ l, boxOf e = some (normalizeMailboxName name) → ∀ f ∈ given u e.2,
    ∃ e' ∈ taken [] l, f ∈ given u e'.2

section
variable {p : Pipeline} {u : Unicode} {ans : TargetAnswers}

/-- Every copy of a delivery, whether or not it fails later, goes to a mailbox of the decision with the
    flags of its result. -/
theorem stored_of_mem {target sender : Str} {targets : List Str} {stored raw account mailbox : Str} {copy : Copy}
    (h : .stored account mailbox copy ∈ (deliverToTarget p u ans target sender targets stored raw).events) :
    ∃ mailboxes res, decision p ans = .deliver mailboxes res ∧
      ∃ name ∈ mailboxes, mailbox = normalizeMailboxName name ∧ copy.flags = res.flags := by
  rcases Attempt.mem_events_bind h with h | ⟨_, -, h⟩
  · cases h
  cases hd : decision p ans with
  | discard => rw [hd] at h; cases h
  | reject reason => rw [hd] at h; cases h
  | deliver mailboxes res =>
    rw [hd] at h
    refine ⟨mailboxes, res, rfl, ?_⟩
    rcases Attempt.mem_events_bind h with h | ⟨_, -, h⟩
    · rcases List.mem_append.mp h with h | h
      · obtain ⟨addr, -, he⟩ := List.mem_map.mp ((redirects_sublist ans sender stored res).subset h)
        cases he
      · cases hv : res.vacation with
        | none => rw [hv] at h; cases h
        | some v =>
          rw [hv] at h
          cases isReply_sendVacation ans.vacation target sender stored v _ h
    rcases Attempt.mem_events_bind h with h | ⟨_, -, h⟩
    · cases h
    obtain ⟨q, hq, h⟩ := Attempt.mem_events_each h
    cases Attempt.eq_of_mem_call h
    exact ⟨q.1, List.fst_mem_of_mem_zipIdx hq, rfl, rfl⟩

variable {ν : Type} {x : Runtime ν} {script : Block ν} {vars : ν}

/-- A script that neither discards nor rejects has its copies stored with all the flags that were taken. -/
theorem decision_script (hsieve : p.sieve = true) (hscript : ans.script = .ok true)
    (hroute : ans.route = route u x script vars) (hend : ∀ e, (script.run x { vars := vars }).2 ≠ .fail e)
    (hdis : .discard ∉ script.deeds x { vars := vars }) (hrej : .reject ∉ script.deeds x { vars := vars }) :
    ∃ res, decision p ans =
        .deliver (boxes u (script.deeds x { vars := vars }) (stopped x script { vars := vars })) res ∧
      ∀ f, f ∈ res.flags ↔ ∃ e ∈ taken [] (script.finished x { vars := vars }), f ∈ given u e.2 := by
  obtain ⟨res, hres, hboxes, -, hno, hreject⟩ := route_deeds (u := u) hend hrej
  refine ⟨res, ?_, fun f => ?_⟩
  · have hgo : res.discard = false := Bool.eq_false_iff.mpr fun h => hdis (hno.mp h)
    simp [decision, hsieve, hscript, hroute, hres, hgo, hreject, hboxes, boxes]
  · unfold route at hres
    cases hd : execute x script { vars := vars } with
    | error e => rw [hd] at hres; cases hres
    | ok d =>
      rw [hd] at hres
      cases hres
      rw [mem_flags, execute_finished hd]

/-- A delivery that all services answer. -/
def served (u : Unicode) (x : Runtime ν) (script : Block ν) (vars : ν) : TargetAnswers where
  script := .ok true
  route := route u x script vars

theorem stored_served {names : List Str} {res : Result}
    (hd : decision {} (served u x script vars) = .deliver names res) {name : Str} (hname : name ∈ names) :
    ∃ copy : Copy, copy.flags = res.flags ∧ .stored [] (normalizeMailboxName name) copy ∈
      (deliverToTarget {} u (served u x script vars) [] [] [] [] []).events := by
  have hok : (deliverToTarget {} u (served u x script vars) [] [] [] [] []).failed = false := by
    cases hr : (deliverToTarget {} u (served u x script vars) [] [] [] [] []).result with
    | ok v => exact Attempt.failed_of_ok hr
    | error e =>
      simp only [deliverToTarget, hd] at hr
      obtain ⟨q, -, he⟩ := Attempt.error_of_each hr
      cases he
  refine ⟨⟨[], [], applyHeaderEdits u [] res, _, 0⟩, rfl, ?_⟩
  rw [events_deliverToTarget (v := ⟨[], [], served u x script vars⟩) hok]
  simp only [Visit.done, hd]
  exact List.mem_append_right _ (List.mem_map.mpr ⟨name, hname, rfl⟩)

end

/-- FLAGS OF COPIES: every copy that is stored for a script which neither discards nor rejects has the
    flags of the executed commands that file into its mailbox and no others, whatever else is in the
    delivery, exactly when every flag is given for all mailboxes and none is passed over. -/
theorem own_flags_iff {ν : Type} (u : Unicode) (x : Runtime ν) (script : Block ν) (vars : ν)
    (hend : ∀ e, (script.run x { vars := vars }).2 ≠ .fail e)
    (hdis : .discard ∉ script.deeds x { vars := vars }) (hrej : .reject ∉ script.deeds x { vars := vars }) :
    (∀ (p : Pipeline) (ans : TargetAnswers) (target sender : Str) (targets : List Str) (stored raw : Str),
        p.sieve = true → ans.script = .ok true → ans.route = route u x script vars →
        ∀ account mailbox copy,
          .stored account mailbox copy ∈ (deliverToTarget p u ans target sender targets stored raw).events →
          OwnFlags u (script.finished x { vars := vars }) mailbox copy.flags) ↔
      SharedFlags u (boxes u (script.deeds x { vars := vars }) (stopped x script { vars := vars }))
        (script.finished x { vars := vars }) := by
  constructor
  · intro h
    have hscript : (served u x script vars).script = .ok true := rfl
    obtain ⟨res, hd, hflags⟩ := decision_script (p := {}) rfl hscript rfl hend hdis hrej
    have hown : ∀ name ∈ boxes u (script.deeds x { vars := vars }) (stopped x script { vars := vars }), ∀ f,
        (∃ e ∈ taken [] (script.finished x { vars := vars }), f ∈ given u e.2) ↔
          ∃ e ∈ script.finished x { vars := vars }, boxOf e = some (normalizeMailboxName name) ∧ f ∈ given u e.2 := by
      intro name hname f
      obtain ⟨copy, hcopy, hstored⟩ := stored_served hd hname
      have hf := h {} _ [] [] [] [] [] rfl rfl rfl _ _ _ hstored f
      rwa [hcopy, hflags] at hf
    exact ⟨fun name hname e he f hf => (hown name hname f).mp ⟨e, he, hf⟩,
      fun name hname e he hbox f hf => (hown name hname f).mpr ⟨e, he, hbox, hf⟩⟩
  · intro hshared p ans target sender targets stored raw hsieve hscript hroute account mailbox copy hmem f
    obtain ⟨res, hd, hflags⟩ := decision_script hsieve hscript hroute hend hdis hrej
    obtain ⟨mailboxes, res', hd', name, hname, rfl, hcopy⟩ := stored_of_mem hmem
    rw [hd] at hd'
    cases hd'
    rw [hcopy, hflags]
    exact ⟨fun ⟨e, he, hf⟩ => hshared.shared name hname e he f hf,
      fun ⟨e, he, hbox, hf⟩ => hshared.kept name hname e he hbox f hf⟩

/-- `keep :flags "\\Seen"; fileinto :flags "\\Seen" "A"`. -/
def seenTwice : Block Unit :=
  .cmd (.keep (some [ascii "\\Seen"])) (.cmd (.fileInto (ascii "A") (some [ascii "\\seen"]) false false) .done)

theorem own_flags_seenTwice :
    (∃ copy, .stored (ascii "a@x") (ascii "A") copy ∈
      (deliverToTarget {} asciiOnly (served asciiOnly bare seenTwice ()) (ascii "a@x") [] [] [] []).events) ∧
    OwnFlags asciiOnly (seenTwice.finished bare { vars := () }) (ascii "A") [ascii "\\Seen"] := by
  have hend : (seenTwice.run bare { vars := () }).2 = .next := by decide +kernel
  have hmem : .stored (ascii "a@x") (ascii "A") ⟨[], [], [], [ascii "\\Seen"], 0⟩ ∈
    (deliverToTarget {} asciiOnly (served asciiOnly bare seenTwice ()) (ascii "a@x") [] [] [] []).events := by
    decide +kernel
  have hown := (own_flags_iff asciiOnly bare seenTwice () (by simp [hend]) (by decide +kernel)
    (by decide +kernel)).mpr ⟨by decide +kernel, by decide +kernel⟩
  exact ⟨⟨_, hmem⟩, hown {} _ _ _ _ _ _ rfl rfl rfl _ _ _ hmem⟩

/-- `fileinto :flags "\\Seen" "A"; keep`: the copy in the inbox is seen, too. -/
theorem flags_spread :
    let script : Block Unit :=
      .cmd (.fileInto (ascii "A") (some [ascii "\\Seen"]) false false) (.cmd (.keep none) .done)
    (∃ copy : Copy, copy.flags = [ascii "\\Seen"] ∧ .stored (ascii "a@x") inbox copy ∈
      (deliverToTarget {} asciiOnly (served asciiOnly bare script ()) (ascii "a@x") [] [] [] []).events) ∧
    ¬ OwnFlags asciiOnly (script.finished bare { vars := () }) inbox [ascii "\\Seen"] := by
  refine ⟨⟨⟨[], [], [], [ascii "\\Seen"], 0⟩, rfl, by decide +kernel⟩, fun h => ?_⟩
  exact absurd ((h (ascii "\\Seen")).mp (by simp)) (by decide +kernel)

end Mailezine.Delivery
