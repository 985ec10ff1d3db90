import Mailezine.Gostd.Strings
import Mailezine.Schemes.Rows
import Mailezine.Schemes.Threads

/-! The access list of a mailbox under SETACL and DELETEACL of several sessions.

    A command reads the whole list, SETACL twice, changes its own entry in what it has read and writes the
    list back. Nothing keeps the write of another command out of the time in between. -/

namespace Mailezine.Imap
open Gostd Schemes List

/-! ### Rights -/

/-- `acl.Canonical`. -/
def canonical : Str := ascii "lrswipkxtecda"

/-- `ValidateIdentifier`. -/
def validateIdentifier (id : Str) : Bool :=
  id ≠ [] && id.all fun b => 0x20 < b && b ≠ 0x7f && !(ascii "()\x7b%*\"\\]").contains b

/-- `Normalize`. -/
def normalize (rights : Str) : Option Str :=
  if rights.all canonical.contains then some (canonical.filter rights.contains) else none

/-- `ApplyModification`. -/
def applyModification (current : Str) : Str → Option Str
  | [] => some []
  | b :: mod =>
    if b = 0x2b then do
      let add ← normalize mod
      let cur ← normalize current
      normalize (cur ++ add)
    else if b = 0x2d then do
      let remove ← normalize mod
      let cur ← normalize current
      pure (cur.filter fun r => !remove.contains r)
    else normalize (b :: mod)

/-! ### The list -/

/-- Rights by identifier. -/
abbrev AccessList := Std.ExtTreeMap Str Str compare

/-- What is read back of a list: `encoding/json` writes the entries in the order of their keys, and of
    two entries with one key the last counts. -/
def AccessList.json (l : AccessList) : AccessList :=
  .ofList (l.toList.map fun e => (coerceUTF8 e.1, coerceUTF8 e.2)) compare

/-- The change of `KV.SetACL` to the list that it has read. -/
def AccessList.grant (l : AccessList) (identifier rights : Str) : AccessList :=
  if rights = [] then l.erase identifier else l.insert identifier rights

inductive AclCommand where
  | setACL (identifier rights : Str)
  | deleteACL (identifier : Str)
  deriving DecidableEq

def AclCommand.identifier : AclCommand → Str
  | .setACL id _ | .deleteACL id => id

/-- The rights that a command gives to its identifier when it finds this list; none when it is refused.
    The owner's entry is not touched. -/
def AclCommand.rights (owner : Str → Bool) (l : AccessList) (cmd : AclCommand) : Option Str :=
  if !validateIdentifier cmd.identifier || owner cmd.identifier then none
  else match cmd with
    | .setACL id rights => applyModification ((l[id]?).getD []) rights
    | .deleteACL _ => some []

/-! ### Commands step by step -/

/-- What a command does next: its first read, the read of `KV.SetACL`, the write of `putACL`. -/
inductive AclPhase where
  | received
  | editing (rights : Str)
  | putting (rights : Str) (cur : AccessList)
  | finished

/-- A command at work. -/
structure AclThread where
  cmd : AclCommand
  phase : AclPhase := .received

/-- One access to the store, and what the command does up to its next one. -/
def AclThread.step (owner : Str → Bool) (l : AccessList) (t : AclThread) : AccessList × AclThread :=
  match t.phase with
  | .received =>
    match t.cmd.rights owner l, t.cmd with
    | none, _ => (l, { t with phase := .finished })
    | some r, .setACL .. => (l, { t with phase := .editing r })
    | some r, .deleteACL _ => (l, { t with phase := .putting r l })
  | .editing r => (l, { t with phase := .putting r l })
  | .putting r cur => ((cur.grant t.cmd.identifier r).json, { t with phase := .finished })
  | .finished => (l, t)

abbrev AclWorld := System AccessList AclThread

def aclStep (owner : Str → Bool) (w : AclWorld) (i : Nat) : AclWorld := w.move i (AclThread.step owner)

/-- A list and the commands that are going to work on it. -/
def commanded (l : AccessList) (cmds : List AclCommand) : AclWorld := ⟨l, cmds.map fun c => ⟨c, .received⟩⟩

/-- A command with nobody else at work. -/
def execute (owner : Str → Bool) (l : AccessList) (cmd : AclCommand) : AccessList :=
  (runs (aclStep owner) (commanded l [cmd]) [0, 0, 0]).shared

/-- A command that writes finds the list that it has read, and what it gives is what it would give now. -/
def current (owner : Str → Bool) (w : AclWorld) (i : Nat) : Bool :=
  match w.threads[i]? with
  | some ⟨cmd, .putting r cur⟩ => cur = w.shared && cmd.rights owner w.shared = some r
  | _ => true

/-- The command that a thread still has to do. -/
def AclThread.jobs (t : AclThread) : List AclCommand :=
  match t.phase with
  | .finished => []
  | _ => [t.cmd]

variable {owner : Str → Bool} {l : AccessList} {cmd : AclCommand}

theorem execute_refused (h : cmd.rights owner l = none) : execute owner l cmd = l := by
  simp [execute, runs, commanded, aclStep, System.move, AclThread.step, h]

theorem execute_granted {r : Str} (h : cmd.rights owner l = some r) :
    execute owner l cmd = (l.grant cmd.identifier r).json := by
  cases cmd <;> simp [execute, runs, commanded, aclStep, System.move, AclThread.step, h]

/-- A step leaves the list alone, or it does what its command does alone. -/
theorem AclThread.step_cases (w : AclWorld) (i : Nat) (t : AclThread) (hok : current owner w i = true)
    (ht : w.threads[i]? = some t) :
    ((t.step owner w.shared).1 = w.shared ∧ (t.step owner w.shared).2.jobs = t.jobs) ∨
      ∃ c, t.jobs = [c] ∧ (t.step owner w.shared).2.jobs = [] ∧ (t.step owner w.shared).1 = execute owner w.shared c := by
  obtain ⟨cmd, phase⟩ := t
  cases phase with
  | received =>
    cases hr : cmd.rights owner w.shared with
    | none => exact .inr ⟨cmd, rfl, by simp [step, hr, jobs], by simp [step, hr, execute_refused hr]⟩
    | some r => exact .inl (by cases cmd <;> simp [step, hr, jobs])
  | editing | finished => exact .inl ⟨rfl, rfl⟩
  | putting r cur =>
    simp only [current, ht, Bool.and_eq_true, decide_eq_true_eq] at hok
    obtain ⟨rfl, hr⟩ := hok
    exact .inr ⟨cmd, rfl, rfl, (execute_granted hr).symm⟩

/-! ### Entries of others -/

/-- A list that `encoding/json` keeps as it is. -/
def AccessList.Text (l : AccessList) : Prop := ∀ id r, l[id]? = some r → coerceUTF8 id = id ∧ coerceUTF8 r = r

theorem AccessList.Text.json_eq (h : l.Text) : l.json = l := by
  have hmap : (l.toList.map fun e => (coerceUTF8 e.1, coerceUTF8 e.2)) = l.toList := by
    refine (map_congr_left fun e he => ?_).trans (List.map_id _)
    obtain ⟨hid, hr⟩ := h _ _ (mem_scan.mp he)
    exact Prod.ext hid hr
  have hkeys : l.toList.Pairwise fun a b => ¬compare a.1 b.1 = .eq := Std.ExtTreeMap.distinct_keys_toList
  unfold AccessList.json
  rw [hmap]
  refine Std.ExtTreeMap.ext_getElem? fun id => ?_
  cases hl : l[id]? with
  | some r => exact Std.ExtTreeMap.getElem?_ofList_of_mem (k := id) (by simp) hkeys (mem_scan.mpr hl)
  | none =>
    refine Std.ExtTreeMap.getElem?_ofList_of_contains_eq_false ?_
    rw [Std.ExtTreeMap.map_fst_toList_eq_keys]
    simpa [Std.ExtTreeMap.getElem?_eq_none] using hl

theorem canonical_of_normalize {rights r : Str} (h : normalize rights = some r) : r ⊆ canonical := by
  unfold normalize at h
  split at h
  · cases h
    exact filter_sublist.subset
  · cases h

theorem canonical_of_rights {r : Str} (h : cmd.rights owner l = some r) : r ⊆ canonical := by
  unfold AclCommand.rights at h
  split at h
  · cases h
  · cases cmd with
    | deleteACL id =>
      cases h
      exact nil_subset _
    | setACL id mod =>
      cases mod with
      | nil =>
        cases h
        exact nil_subset _
      | cons b mod =>
        simp only [applyModification] at h
        split_ifs at h
        · obtain ⟨add, -, cur, -, hr⟩ := by simpa [Option.bind_eq_some_iff] using h
          exact canonical_of_normalize hr
        · obtain ⟨remove, -, cur, hcur, rfl⟩ := by simpa [Option.bind_eq_some_iff] using h
          exact fun b hb => canonical_of_normalize hcur (mem_of_mem_filter hb)
        · exact canonical_of_normalize h

/-- A command for an identifier that is text changes no other entry. -/
theorem execute_others (hl : l.Text) (hcmd : coerceUTF8 cmd.identifier = cmd.identifier) :
    (execute owner l cmd).Text ∧ ∀ id ≠ cmd.identifier, (execute owner l cmd)[id]? = l[id]? := by
  cases hr : cmd.rights owner l with
  | none =>
    rw [execute_refused hr]
    exact ⟨hl, fun _ _ => rfl⟩
  | some r =>
    have hascii : coerceUTF8 r = r := coerceFrom_ascii fun b hb =>
      (by decide +kernel : ∀ b ∈ canonical, b ≤ 0x7f) b (canonical_of_rights hr hb)
    have hget : ∀ id, (l.grant cmd.identifier r)[id]? =
        if cmd.identifier = id then (if r = [] then none else some r) else l[id]? := by
      intro id
      unfold AccessList.grant
      split_ifs <;> simp_all
    have htext : (l.grant cmd.identifier r).Text := by
      intro id r' hid
      rw [hget] at hid
      split_ifs at hid with he
      · cases hid
        exact ⟨he ▸ hcmd, hascii⟩
      · exact hl id r' hid
    rw [execute_granted hr, htext.json_eq]
    exact ⟨htext, fun id hne => by rw [hget, if_neg (Ne.symm hne)]⟩

theorem text_foldl (cmds : List AclCommand) (hl : l.Text) (hcmds : ∀ c ∈ cmds, coerceUTF8 c.identifier = c.identifier) :
    (cmds.foldl (execute owner) l).Text := by
  induction cmds generalizing l with
  | nil => exact hl
  | cons c cmds ih => exact ih (execute_others hl (hcmds c (by simp))).1 fun d hd => hcmds d (by simp [hd])

/-- SERIAL: in every interleaving in which a command that writes finds the list that it has read and its own
    entry as it has read it, the list in the end is that of the same commands one after another, each of
    which changes the entry of its own identifier only. -/
theorem acl_serial (owner : Str → Bool) (l : AccessList) (cmds : List AclCommand) (acts : List Nat) (hl : l.Text)
    (hcmds : ∀ c ∈ cmds, coerceUTF8 c.identifier = c.identifier)
    (h : steady (aclStep owner) (current owner) (commanded l cmds) acts = true) :
    let w := runs (aclStep owner) (commanded l cmds) acts
    (∀ t ∈ w.threads, t.jobs = []) → ∃ order : List AclCommand, order.Perm cmds ∧
      w.shared = order.foldl (execute owner) l ∧
      ∀ pre c, pre ++ [c] <+: order → ∀ id ≠ c.identifier,
        (execute owner (pre.foldl (execute owner) l) c)[id]? = (pre.foldl (execute owner) l)[id]? := by
  intro w hdone
  obtain ⟨order, hshared, hperm⟩ := System.serial AclThread.step_cases (commanded l cmds) acts h
  have hjobs : (commanded l cmds).threads.flatMap AclThread.jobs = cmds := by
    simp [commanded, flatMap_map, AclThread.jobs]
  have hnone : w.threads.flatMap AclThread.jobs = [] := flatMap_eq_nil_iff.mpr hdone
  have hperm : (order ++ w.threads.flatMap AclThread.jobs).Perm cmds := hperm.trans (.of_eq hjobs)
  rw [hnone, append_nil] at hperm
  refine ⟨order, hperm, hshared, fun pre c hpre => ?_⟩
  have hids : ∀ d ∈ pre ++ [c], coerceUTF8 d.identifier = d.identifier := fun d hd =>
    hcmds d (hperm.subset (hpre.subset hd))
  have htext : (pre.foldl (execute owner) l).Text := text_foldl pre hl fun d hd => hids d (by simp [hd])
  exact (execute_others htext (hids c (by simp))).2

/-- Two grants to different identifiers, one carried out while the other has only been received. -/
theorem acl_serial_in_turn :
    let cmds : List AclCommand := [.setACL (ascii "ann") (ascii "lr"), .setACL (ascii "bob") (ascii "+w")]
    let w := runs (aclStep fun _ => false) (commanded ∅ cmds) [0, 1, 1, 1, 0, 0]
    w.shared.toList = [(ascii "ann", ascii "lr"), (ascii "bob", ascii "w")] ∧
      ∃ order : List AclCommand, order.Perm cmds ∧ w.shared = order.foldl (execute fun _ => false) ∅ := by
  intro cmds w
  obtain ⟨order, hperm, hshared, -⟩ := acl_serial (fun _ => false) ∅ cmds [0, 1, 1, 1, 0, 0]
    (fun id r h => by simp at h) (by decide +kernel) (by decide +kernel) (by decide +kernel)
  exact ⟨by decide +kernel, order, hperm, hshared⟩

/-- Both commands read before either writes: the first grant is gone, in whatever order they are executed. -/
theorem acl_update_lost :
    let cmds : List AclCommand := [.setACL (ascii "ann") (ascii "lr"), .setACL (ascii "bob") (ascii "+w")]
    let w := runs (aclStep fun _ => false) (commanded ∅ cmds) [0, 0, 1, 1, 0, 1]
    (∀ t ∈ w.threads, t.jobs = []) ∧ w.shared.toList = [(ascii "bob", ascii "w")] ∧
      ∀ order : List AclCommand, order.Perm cmds → w.shared ≠ order.foldl (execute fun _ => false) ∅ := by
  intro cmds w
  refine ⟨by decide +kernel, by decide +kernel, fun order hperm => ?_⟩
  obtain ⟨x, y, rfl⟩ := length_eq_two.mp hperm.length_eq
  have hx : x ∈ cmds := hperm.subset (by simp)
  have hy : y ∈ cmds := hperm.subset (by simp)
  simp only [cmds, mem_cons, not_mem_nil, or_false] at hx hy
  rcases hx with rfl | rfl <;> rcases hy with rfl | rfl
  · exact absurd hperm (by decide)
  · decide +kernel
  · decide +kernel
  · exact absurd hperm (by decide)

end Mailezine.Imap
