import Mailezine.Mailstore.Scripts
import Mathlib.Data.List.Nodup

/-! Which script is active, over runs of calls that can fail.

    Activating a script is two things, deactivating all and then setting one, so at most one is ever active.
    But the two are separate commits: an error between them leaves none. And an upload writes all rows of
    the script, so one of the active script deactivates it. -/

namespace Mailezine.Mailstore
open Schemes Gostd Program List

/-! ### What can be seen -/

def Shelf.activeAt (s : Shelf) (id : Nat) : Bool := (s.docs id).any (·.isActive)

/-- The active scripts. -/
def Shelf.activeIds (s : Shelf) : List Nat := s.ids.filter s.activeAt

/-- The name of a script. -/
def Shelf.nameAt (s : Shelf) (id : Nat) : Str := ((s.docs id).bind (·.name)).getD []

/-- The names and contents of all scripts. -/
def Shelf.contents (s : Shelf) : List (Nat × Str × Str) :=
  s.ids.map fun id => (id, s.nameAt id, ((s.docs id).bind (·.content)).getD [])

/-- The script of a name. -/
def Shelf.find (s : Shelf) (name : Str) : Option Nat := s.ids.find? fun id => s.nameAt id = name

theorem mem_ids {s : Shelf} {id : Nat} : id ∈ s.ids ↔ (1 ≤ id ∧ id ≤ s.lastDoc) ∧ (s.docs id).isSome = true := by
  simp only [Shelf.ids, mem_filter, mem_range'_1, and_congr_left_iff]
  omega

theorem nodup_ids (s : Shelf) : s.ids.Nodup := filter_sublist.nodup nodup_range'

theorem docs_put (s : Shelf) (id i : Nat) (fields : ScriptDoc) :
    (s.put id fields).docs i = if i = id then some (((s.docs id).getD {}).put fields) else s.docs i := rfl

/-- Writing rows of a document that is there keeps the list. -/
theorem ids_put {s : Shelf} {id : Nat} (h : id ∈ s.ids) (fields : ScriptDoc) : (s.put id fields).ids = s.ids := by
  refine filter_congr fun i _ => ?_
  rw [docs_put]
  split
  · rename_i heq
    simp [heq, (mem_ids.mp h).2]
  · rfl

theorem activeAt_put (s : Shelf) (id i : Nat) (fields : ScriptDoc) : (s.put id fields).activeAt i =
      if i = id then (((s.docs id).getD {}).put fields).isActive else s.activeAt i := by
  unfold Shelf.activeAt
  rw [docs_put]
  split <;> rfl

/-! ### Reads -/

/-- A program that changes nothing, and returns one value unless an access fails. -/
def Reads {α : Type} (strict : Bool) (s : Shelf) (m : Scripts α) (v : Except ScriptErr α) : Prop :=
  Ends strict (· = s) m fun r s' => s' = s ∧ (r = v ∨ r = .error .kv ∧ strict = false)

section Reads
variable {α β : Type} {strict : Bool} {s : Shelf}

theorem reads_look (f : Shelf → α) : Reads strict s (look f) (.ok (f s)) :=
  Ends.access (fun _ h => ⟨h, .inl (by rw [h])⟩) fun hs _ h => ⟨h, .inr ⟨rfl, hs⟩⟩

theorem reads_pure (v : α) : Reads strict s (pure v) (.ok v) := Ends.pure fun _ h => ⟨h, .inl rfl⟩

theorem reads_throw (e : ScriptErr) : Reads strict s (throw e : Scripts α) (.error e) :=
  Ends.throw fun _ h => ⟨h, .inl rfl⟩

variable {Q : Except ScriptErr β → Shelf → Prop} {f : α → Scripts β} {m : Scripts α}

/-- Before a program, a read only hands over its value. -/
theorem Reads.seq {v : Except ScriptErr α}
    (hm : Reads strict s m v) (hok : ∀ x, v = .ok x → Ends strict (· = s) (f x) Q)
    (herr : ∀ e, v = .error e → Q (.error e) s) (hkv : strict = false → Q (.error .kv) s) :
    Ends strict (· = s) (m >>= f) Q := by
  refine Ends.bind hm (fun x p hp hfaults => ?_) fun e s' h => ?_
  · obtain ⟨hs, hx | hx⟩ := hp
    · exact hok x hx.symm p hs hfaults
    · cases hx.1
  · obtain ⟨rfl, he | ⟨he, hs⟩⟩ := h
    · exact herr e he.symm
    · cases he
      exact hkv hs

theorem Reads.then {v : α}
    (hm : Reads strict s m (.ok v)) (hf : Ends strict (· = s) (f v) Q) (hkv : strict = false → Q (.error .kv) s) :
    Ends strict (· = s) (m >>= f) Q :=
  hm.seq (fun x hx => by cases hx; exact hf) (by simp) hkv

theorem Reads.bind {v : α} {w : Except ScriptErr β}
    (hm : Reads strict s m (.ok v)) (hf : Reads strict s (f v) w) : Reads strict s (m >>= f) w :=
  hm.then hf fun hs => ⟨rfl, .inr ⟨rfl, hs⟩⟩

/-- Before a program, an access that writes. -/
theorem access_then {g : Shelf → α × Shelf}
    (hf : Ends strict (· = (g s).2) (f (g s).1) Q) (herr : strict = false → Q (.error .kv) s) :
    Ends strict (· = s) (access .kv g >>= f) Q := by
  have hg : Ends strict (· = s) (access .kv g : Scripts α)
      fun r t => (r = .ok (g s).1 ∧ t = (g s).2) ∨ (r = .error .kv ∧ t = s ∧ strict = false) :=
    Ends.access (fun t ht => .inl (by rw [ht]; exact ⟨rfl, rfl⟩)) fun hs t ht => .inr ⟨rfl, ht, hs⟩
  refine hg.bind (fun x p hp hfaults => ?_) fun e t ht => ?_
  · rcases hp with ⟨hx, hp⟩ | ⟨hx, -⟩
    · cases hx
      exact hf p hp hfaults
    · cases hx
  · rcases ht with ⟨he, -⟩ | ⟨he, rfl, hs⟩
    · cases he
    · cases he
      exact herr hs

theorem commit_then {g : Shelf → Shelf} {f : Unit → Scripts β}
    (hf : Ends strict (· = g s) (f ()) Q) (herr : strict = false → Q (.error .kv) s) :
    Ends strict (· = s) (commit g >>= f) Q := access_then hf herr

/-- A commit at the end. -/
theorem ends_commit {g : Shelf → Shelf} {Q : Except ScriptErr Unit → Shelf → Prop} (hok : Q (.ok ()) (g s))
    (herr : strict = false → Q (.error .kv) s) : Ends strict (· = s) (commit g) Q :=
  Ends.access (fun t ht => by rwa [ht]) fun hs t ht => by
    rw [ht]
    exact herr hs

theorem reads_getDocumentFields {id : Nat} {d : ScriptDoc} (h : s.docs id = some d) :
    Reads strict s (getDocumentFields id) (.ok d) := by
  refine (reads_look (·.docs id)).bind ?_
  rw [h]
  exact reads_pure d

theorem reads_findScript {name : Str} : ∀ {l : List Nat}, (∀ id ∈ l, (s.docs id).isSome = true) →
    Reads strict s (findScript name l) ((l.find? fun id => s.nameAt id = name).elim (.error .notFound) .ok)
  | [], _ => reads_throw _
  | id :: rest, h => by
    obtain ⟨d, hd⟩ := Option.isSome_iff_exists.mp (h id (by simp))
    have hname : s.nameAt id = d.name.getD [] := by simp [Shelf.nameAt, hd]
    refine (reads_getDocumentFields hd).bind ?_
    rw [find?_cons, hname]
    by_cases heq : d.name.getD [] = name
    · simp only [heq, decide_true, if_true]
      exact reads_pure id
    · simp only [heq, decide_false, if_false]
      exact reads_findScript fun i hi => h i (by simp [hi])

theorem reads_sieveScriptDocID (name : Str) :
    Reads strict s (sieveScriptDocID name) ((s.find name).elim (.error .notFound) .ok) :=
  (reads_look (·.ids)).bind (reads_findScript fun _ h => (mem_ids.mp h).2)

theorem reads_scriptAccount : Reads strict s scriptAccount (if s.registered then .ok () else .error .notFound) := by
  refine (reads_look (·.registered)).bind ?_
  cases s.registered
  · exact reads_throw _
  · exact reads_pure _

end Reads

/-! ### Deactivation -/

/-- Some active scripts have been deactivated, and nothing else. -/
structure Dimmed (s s' : Shelf) : Prop where
  lastDoc : s'.lastDoc = s.lastDoc
  docs : ∀ id, s'.docs id = s.docs id ∨
    ∃ d, s.docs id = some d ∧ s'.docs id = some (d.put { active := some [0] })

namespace Dimmed
variable {s s' : Shelf}

theorem refl (s : Shelf) : Dimmed s s := ⟨rfl, fun _ => .inl rfl⟩

section
variable (h : Dimmed s s')
include h

theorem isSome (id : Nat) : (s'.docs id).isSome = (s.docs id).isSome := by
  rcases h.docs id with h | ⟨d, hd, h⟩
  · rw [h]
  · rw [h, hd]
    rfl

theorem ids_eq : s'.ids = s.ids := by
  unfold Shelf.ids
  rw [h.lastDoc]
  exact filter_congr fun id _ => h.isSome id

theorem nameAt_eq (id : Nat) : s'.nameAt id = s.nameAt id := by
  unfold Shelf.nameAt
  rcases h.docs id with h | ⟨d, hd, h⟩
  · rw [h]
  · rw [h, hd]
    rfl

theorem contents_eq : s'.contents = s.contents := by
  unfold Shelf.contents
  rw [h.ids_eq]
  refine map_congr_left fun id _ => ?_
  rw [h.nameAt_eq]
  rcases h.docs id with h | ⟨d, hd, h⟩
  · rw [h]
  · rw [h, hd]
    rfl

theorem find_eq (name : Str) : s'.find name = s.find name := by
  unfold Shelf.find
  rw [h.ids_eq]
  simp only [h.nameAt_eq]

theorem activeAt_of {id : Nat} (ha : s'.activeAt id = true) : s.activeAt id = true := by
  unfold Shelf.activeAt at ha ⊢
  rcases h.docs id with h | ⟨d, hd, h⟩
  · rwa [h] at ha
  · rw [h] at ha
    cases ha

theorem activeIds_sublist : s'.activeIds.Sublist s.activeIds := by
  unfold Shelf.activeIds
  rw [h.ids_eq]
  exact monotone_filter_right _ fun id ha => h.activeAt_of ha

/-- Where nothing was active there was nothing to do. -/
theorem activeIds_eq (hnone : s.activeIds = []) : s'.activeIds = s.activeIds := by
  have := h.activeIds_sublist
  rw [hnone] at this ⊢
  exact sublist_nil.mp this

/-- One more. -/
theorem put {id : Nat} {d : ScriptDoc} (hd : s'.docs id = some d) :
    Dimmed s (s'.put id { active := some [0] }) := by
  refine ⟨h.lastDoc, fun i => ?_⟩
  rw [docs_put]
  by_cases hi : i = id
  · subst hi
    rw [if_pos rfl, hd]
    rcases h.docs i with h | ⟨d₀, hd₀, h⟩
    · exact .inr ⟨d, h ▸ hd, rfl⟩
    · cases hd.symm.trans h
      exact .inr ⟨d₀, hd₀, rfl⟩
  · rw [if_neg hi]
    exact h.docs i

end

end Dimmed

theorem ends_deactivateAll {strict : Bool} {s : Shelf} : ∀ {l : List Nat} {s' : Shelf}, Dimmed s s' →
    (∀ id ∈ l, (s.docs id).isSome = true) → Ends strict (· = s') (deactivateAll l) fun r s'' => Dimmed s s'' ∧
      ((r = .ok () ∧ (∀ id ∈ l, s''.activeAt id = false) ∧ ∀ id, s'.activeAt id = false → s''.activeAt id = false) ∨
        r = .error .kv ∧ strict = false)
  | [], s', hdim, _ => Ends.pure fun t ht => by
    subst ht
    exact ⟨hdim, .inl ⟨rfl, by simp, fun _ h => h⟩⟩
  | id :: rest, s', hdim, hl => by
    obtain ⟨d, hd⟩ := Option.isSome_iff_exists.mp ((hdim.isSome id).trans (hl id (by simp)))
    have hrest : ∀ i ∈ rest, (s.docs i).isSome = true := fun i hi => hl i (by simp [hi])
    refine (reads_getDocumentFields hd).then ?_ fun hs => ⟨hdim, .inr ⟨rfl, hs⟩⟩
    -- the document is off before the rest, whether it was active or not
    have hoff : ∀ t, Dimmed s t → t.activeAt id = false → (∀ i, s'.activeAt i = false → t.activeAt i = false) →
        Ends strict (· = t) (deactivateAll rest) fun r s'' => Dimmed s s'' ∧
          ((r = .ok () ∧ (∀ i ∈ id :: rest, s''.activeAt i = false) ∧
            ∀ i, s'.activeAt i = false → s''.activeAt i = false) ∨ r = .error .kv ∧ strict = false) := by
      intro t ht hid hkeep
      refine (ends_deactivateAll ht hrest).mono (fun _ h => h) fun r u ⟨hu, hr⟩ => ⟨hu, hr.imp_left ?_⟩
      rintro ⟨rfl, hall, hmono⟩
      refine ⟨rfl, fun i hi => ?_, fun i hi => hmono i (hkeep i hi)⟩
      rcases mem_cons.mp hi with rfl | hi
      · exact hmono i hid
      · exact hall i hi
    by_cases hact : d.isActive = true
    · rw [if_pos hact]
      refine commit_then (g := (·.put id { active := some [0] })) (hoff _ (hdim.put hd) ?_ fun i hi => ?_)
        fun hs => ⟨hdim, .inr ⟨rfl, hs⟩⟩
      · simp [activeAt_put, ScriptDoc.put, ScriptDoc.isActive]
      · rw [activeAt_put]
        split
        · rfl
        · exact hi
    · rw [if_neg hact]
      exact hoff s' hdim (by simpa [Shelf.activeAt, hd] using hact) fun _ h => h

theorem ends_deactivateSieveScripts {strict : Bool} {s : Shelf} :
    Ends strict (· = s) deactivateSieveScripts fun r s' => Dimmed s s' ∧
      ((r = .ok () ∧ s'.activeIds = []) ∨ r = .error .kv ∧ strict = false) := by
  refine (reads_look (·.ids)).then ?_ fun hs => ⟨.refl s, .inr ⟨rfl, hs⟩⟩
  refine (ends_deactivateAll (.refl s) fun id hid => (mem_ids.mp hid).2).mono (fun _ h => h) ?_
  rintro r s' ⟨hdim, hr⟩
  refine ⟨hdim, hr.imp_left ?_⟩
  rintro ⟨hok, hall, -⟩
  refine ⟨hok, filter_eq_nil_iff.mpr fun id hid => ?_⟩
  rw [hall id (hdim.ids_eq ▸ hid)]
  simp

/-! ### Writes -/

section Writes
variable {s : Shelf} {id : Nat} {fields : ScriptDoc}

/-- Switching a document off takes it out of the active ones. -/
theorem activeIds_put_off (hid : id ∈ s.ids) (hoff : (((s.docs id).getD {}).put fields).isActive = false) :
    (s.put id fields).activeIds = s.activeIds.filter (· ≠ id) := by
  unfold Shelf.activeIds
  rw [ids_put hid, List.filter_filter]
  refine filter_congr fun i _ => ?_
  rw [activeAt_put]
  by_cases hi : i = id
  · simp [hi, hoff]
  · simp [hi]

/-- Switching one on where none is active. -/
theorem activeIds_put_on (hid : id ∈ s.ids) (hnone : s.activeIds = [])
    (hon : (((s.docs id).getD {}).put fields).isActive = true) : (s.put id fields).activeIds = [id] := by
  have hall : ∀ i ∈ s.ids, s.activeAt i = false := by simpa [Shelf.activeIds, filter_eq_nil_iff] using hnone
  have hone : s.ids.filter (· == id) = [id] := by
    rw [filter_beq, count_eq_one_of_mem (nodup_ids s) hid]
    rfl
  unfold Shelf.activeIds
  rw [ids_put hid, ← hone]
  refine filter_congr fun i hi => ?_
  rw [activeAt_put]
  by_cases heq : i = id
  · simp [heq, hon]
  · simp [heq, hall i hi]

theorem ids_created (s : Shelf) : s.created.ids = s.ids ++ [s.lastDoc + 1] := by
  have hold : (List.range' 1 s.lastDoc).filter (fun id => (s.created.docs id).isSome) = s.ids :=
    filter_congr fun i hi => by
      have hne : i ≠ s.lastDoc + 1 := by
        have := mem_range'_1.mp hi
        omega
      simp [Shelf.created, hne]
  change (List.range' 1 (s.lastDoc + 1)).filter (fun id => (s.created.docs id).isSome) = _
  rw [range'_1_concat, filter_append, hold]
  simp [Shelf.created, Nat.add_comm]

theorem activeAt_created (s : Shelf) (i : Nat) :
    s.created.activeAt i = if i = s.lastDoc + 1 then false else s.activeAt i := by
  unfold Shelf.activeAt Shelf.created
  dsimp only
  split <;> rfl

theorem activeIds_created (s : Shelf) : s.created.activeIds = s.activeIds := by
  unfold Shelf.activeIds
  rw [ids_created, filter_append]
  have hnew : [s.lastDoc + 1].filter s.created.activeAt = [] := by simp [activeAt_created]
  rw [hnew, append_nil]
  refine filter_congr fun i hi => ?_
  have hne : i ≠ s.lastDoc + 1 := by
    have := (mem_ids.mp hi).1
    omega
  rw [activeAt_created, if_neg hne]

theorem mem_ids_created (s : Shelf) : s.lastDoc + 1 ∈ s.created.ids := by
  rw [ids_created]
  simp

/-- Deleting a document. -/
theorem activeIds_erase (s : Shelf) (id : Nat) :
    Shelf.activeIds { s with docs := fun i => if i = id then none else s.docs i } |>.Sublist s.activeIds := by
  unfold Shelf.activeIds Shelf.ids
  rw [List.filter_filter, List.filter_filter]
  refine monotone_filter_right _ fun i hi => ?_
  by_cases heq : i = id
  · simp [heq] at hi
  · simpa [heq, Shelf.activeAt] using hi

theorem find_of_elim {name : Str} (h : (s.find name).elim (Except.error ScriptErr.notFound) Except.ok = .ok id) :
    s.find name = some id := by
  cases hf : s.find name with
  | none =>
    rw [hf] at h
    cases h
  | some i =>
    rw [hf] at h
    cases h
    rfl

theorem mem_ids_of_find {name : Str} (h : s.find name = some id) : id ∈ s.ids := mem_of_find?_eq_some h

end Writes

/-! ### The calls -/

/-- The calls that keep the laws: an upload is not of the active script, what is to be activated is there, and
    an access fails (it does not, when the call is strict) only if there is a single commit. -/
def Careful (strict : Bool) (s : Shelf) : ScriptCall → Prop
  | .put name _ false =>
    (∀ id, s.find name = some id → s.activeAt id = false) ∧ (strict = true ∨ (s.find name).isSome = true)
  | .put name _ true => strict = true ∨ (s.find name).isSome = true ∧ s.activeIds = []
  | .setActive name =>
    (name = [] ∨ (s.find name).isSome = true ∨ s.activeIds = []) ∧ (strict = true ∨ s.activeIds = [])
  | .delete _ => True

/-- What a call does to the active script and to the contents. -/
structure Lawful (s : Shelf) (c : ScriptCall) (r : Except ScriptErr Unit) (s' : Shelf) : Prop where
  uploaded : ∀ name content, c = .put name content false → s'.activeIds = s.activeIds
  activated : ∀ name, c = .setActive name → name ≠ [] → r = .ok () →
    ∃ id, s.find name = some id ∧ s'.activeIds = [id]
  cleared : c = .setActive [] → r = .ok () → s'.activeIds = []
  failed : ∀ e, r = .error e → s'.activeIds = s.activeIds ∧ s'.contents = s.contents

/-- A call keeps that at most one script is active, and it keeps the laws if it is careful. -/
def Behaves (strict : Bool) (s : Shelf) (c : ScriptCall) (r : Except ScriptErr Unit) (s' : Shelf) : Prop :=
  (s.activeIds.length ≤ 1 → s'.activeIds.length ≤ 1) ∧ (Careful strict s c → Lawful s c r s')

section Calls
variable {strict : Bool} {s : Shelf}

/-- Nothing happened but an error. -/
theorem behaves_of_error {c : ScriptCall} {e : ScriptErr} {s' : Shelf} (hact : s'.activeIds = s.activeIds)
    (hcont : s'.contents = s.contents) : Behaves strict s c (.error e) s' :=
  ⟨fun h => hact ▸ h, fun _ =>
    ⟨fun _ _ _ => hact, by simp, by simp, fun _ _ => ⟨hact, hcont⟩⟩⟩

/-- Whether the account was registered does not matter. -/
theorem Behaves.of_registered {b : Bool} {c : ScriptCall} {r : Except ScriptErr Unit} {s' : Shelf}
    (h : Behaves strict { s with registered := b } c r s') : Behaves strict s c r s' := by
  refine ⟨h.1, fun hc => ?_⟩
  have hlaw := h.2 (by
    rcases c with ⟨name, content, _ | _⟩ | name | name <;> exact hc)
  exact ⟨hlaw.uploaded, hlaw.activated, hlaw.cleared, hlaw.failed⟩

/-- The document of a name, created when there is none. -/
theorem docID_then {name : Str} {f : Nat → Scripts Unit} {Q : Except ScriptErr Unit → Shelf → Prop}
    (hfound : ∀ id, s.find name = some id → Ends strict (· = s) (f id) Q)
    (hnew : s.find name = none → Ends strict (· = s.created) (f (s.lastDoc + 1)) Q)
    (herr : strict = false → Q (.error .kv) s) : Ends strict (· = s) ((sieveScriptDocID name).rescue
      (fun e => if e = .notFound then createDocument else throw e) >>= f) Q := by
  have hid : Ends strict (· = s) ((sieveScriptDocID name).rescue
      (fun e => if e = .notFound then createDocument else throw e)) fun r t =>
      (∃ id, s.find name = some id ∧ r = .ok id ∧ t = s) ∨
        (s.find name = none ∧ r = .ok (s.lastDoc + 1) ∧ t = s.created) ∨
        (r = .error .kv ∧ t = s ∧ strict = false) := by
    refine Ends.rescue (reads_sieveScriptDocID name) (fun v t ht => ?_) fun e => ?_
    · obtain ⟨rfl, h | ⟨h, -⟩⟩ := ht
      · cases hf : t.find name with
        | none =>
          rw [hf] at h
          cases h
        | some id =>
          rw [hf] at h
          exact .inl ⟨id, rfl, h, rfl⟩
      · cases h
    · by_cases he : e = .notFound
      · rw [if_pos he]
        refine Ends.access (fun t ht => ?_) fun hs t ht => .inr (.inr ⟨rfl, ht.1, hs⟩)
        obtain ⟨rfl, h | ⟨h, -⟩⟩ := ht
        · cases hf : t.find name with
          | none => exact .inr (.inl ⟨rfl, rfl, rfl⟩)
          | some id =>
            rw [hf] at h
            cases h
        · cases he.symm.trans (Except.error.inj h)
      · rw [if_neg he]
        refine Ends.throw fun t ht => ?_
        obtain ⟨rfl, h | ⟨h, hs⟩⟩ := ht
        · cases hf : t.find name with
          | none =>
            rw [hf] at h
            exact absurd (Except.error.inj h) he
          | some id =>
            rw [hf] at h
            cases h
        · exact .inr (.inr ⟨h, rfl, hs⟩)
  refine hid.bind (fun v p hp => ?_) fun e t ht => ?_
  · rcases hp with ⟨id, hf, hv, hp⟩ | ⟨hf, hv, hp⟩ | ⟨hv, -⟩
    · cases hv
      exact hfound v hf p hp
    · cases hv
      exact hnew hf p hp
    · cases hv
  · rcases ht with ⟨_, _, h, _⟩ | ⟨_, h, _⟩ | ⟨h, rfl, hs⟩
    · cases h
    · cases h
    · cases h
      exact herr hs

theorem ends_delete (name : Str) :
    Ends strict (· = s) (deleteSieveScript name) (Behaves strict s (.delete name)) := by
  have herr : ∀ e, Behaves strict s (.delete name) (.error e) s := fun e => behaves_of_error rfl rfl
  refine reads_scriptAccount.seq (fun _ _ => ?_) (fun e _ => herr e) fun _ => herr _
  refine (reads_sieveScriptDocID name).seq (fun id _ => ?_) (fun e _ => herr e) fun _ => herr _
  refine (reads_look (·.docs id)).then ?_ fun _ => herr _
  cases s.docs id with
  | none => exact Ends.throw fun t ht => ht ▸ herr _
  | some d =>
    refine ends_commit ⟨fun hle => (activeIds_erase s id).length_le.trans hle, fun _ => ?_⟩ fun _ => herr _
    · exact ⟨by simp, by simp, by simp, by simp⟩

theorem ends_set (name : Str) :
    Ends strict (· = s) (setSieveActive name) (Behaves strict s (.setActive name)) := by
  have herr : ∀ e, Behaves strict s (.setActive name) (.error e) s := fun e => behaves_of_error rfl rfl
  refine reads_scriptAccount.seq (fun _ _ => ?_) (fun e _ => herr e) fun _ => herr _
  -- an error after the deactivation is only without consequence where nothing was active
  have hlate : ∀ e t, Dimmed s t → (Careful strict s (.setActive name) → s.activeIds = []) →
      Behaves strict s (.setActive name) (.error e) t := fun e t hdim hnone =>
    ⟨fun h => hdim.activeIds_sublist.length_le.trans h, fun hc =>
      ((behaves_of_error (hdim.activeIds_eq (hnone hc)) hdim.contents_eq : Behaves strict s _ _ _).2 hc)⟩
  refine ends_deactivateSieveScripts.bind (fun _ p hp => ?_) fun e t ht => ?_
  · obtain ⟨hdim, ⟨-, hnone⟩ | ⟨h, -⟩⟩ := hp
    swap
    · cases h
    obtain ⟨t, ht⟩ : ∃ t, t = p.store := ⟨_, rfl⟩
    rw [← ht] at hdim hnone
    have hkv : strict = false → Behaves strict s (.setActive name) (.error .kv) t := fun hs =>
      hlate _ t hdim fun hc => hc.2.resolve_left (by simp [hs])
    suffices h : Ends strict (· = t) (if name ≠ [] then do
        let docID ← sieveScriptDocID name
        updateDocumentAtomically docID { active := some [1] }
      else pure ()) (Behaves strict s (.setActive name)) from h p ht.symm
    by_cases hname : name = []
    · rw [if_neg (not_not.mpr hname)]
      refine Ends.pure fun u hu => ?_
      subst hu
      refine ⟨fun _ => by simp [hnone], fun _ => ⟨by simp, fun n h hn => ?_, fun _ _ => hnone,
        by simp⟩⟩
      cases h
      exact absurd hname hn
    · rw [if_pos hname]
      refine (reads_sieveScriptDocID name).seq (fun id hid => ?_) (fun e he => ?_) hkv
      · have hfind := find_of_elim hid
        have hon : (t.put id { active := some [1] }).activeIds = [id] :=
          activeIds_put_on (mem_ids_of_find hfind) hnone rfl
        refine ends_commit ⟨fun _ => by simp [hon], fun _ => ⟨by simp, fun n h _ _ => ?_,
          fun h => ?_, by simp⟩⟩ hkv
        · cases h
          exact ⟨id, hdim.find_eq name ▸ hfind, hon⟩
        · cases h
          exact absurd rfl hname
      · refine hlate e t hdim fun hc => hc.1.resolve_left hname |>.resolve_left ?_
        rw [← hdim.find_eq name]
        cases hf : t.find name with
        | none => simp
        | some id =>
          rw [hf] at he
          cases he
  · obtain ⟨hdim, ⟨h, -⟩ | ⟨-, hs⟩⟩ := ht
    · cases h
    · exact hlate e t hdim fun hc => hc.2.resolve_left (by simp [hs])

/-- An upload, once its document is known. -/
theorem ends_store {name content : Str} {activate : Bool} {t : Shelf} {id : Nat} (hid : id ∈ t.ids)
    (hact : t.activeIds = s.activeIds)
    (hoff : activate = false → Careful strict s (.put name content activate) → t.activeAt id = false)
    (hone : strict = false → Careful strict s (.put name content activate) →
      t.contents = s.contents ∧ (activate = true → s.activeIds = [])) :
    Ends strict (· = t) ((if activate then deactivateSieveScripts else pure ()) >>= fun _ =>
      putDocumentFields id
        { name := some name, active := some [if activate then 1 else 0], content := some content })
      (Behaves strict s (.put name content activate)) := by
  have hlate : ∀ e u, strict = false → Dimmed t u → (activate = false → u = t) →
      Behaves strict s (.put name content activate) (.error e) u := fun e u hs hdim hsame => by
    refine ⟨fun h => hdim.activeIds_sublist.length_le.trans (hact ▸ h), fun hc => ?_⟩
    obtain ⟨hcont, hnone⟩ := hone hs hc
    have hu : u.activeIds = s.activeIds := by
      cases activate with
      | false => rw [hsame rfl, hact]
      | true => rw [hdim.activeIds_eq (hact.trans (hnone rfl)), hact]
    exact ⟨fun _ _ _ => hu, by simp, by simp,
      fun _ _ => ⟨hu, hdim.contents_eq.trans hcont⟩⟩
  cases activate with
  | false =>
    have hput : (t.put id { name := some name, active := some [0], content := some content }).activeIds =
        t.activeIds.filter (· ≠ id) := activeIds_put_off hid rfl
    refine Ends.bind (Q := fun r u => r = .ok () ∧ u = t) (Ends.pure fun u hu => ⟨rfl, hu⟩) (fun _ p hp => ?_)
      fun e u hu => (by cases hu.1)
    refine ends_commit ⟨fun hle => ?_, fun hc => ⟨fun _ _ _ => ?_, by simp, by simp,
      by simp⟩⟩ (fun hs => hlate _ t hs (.refl t) fun _ => rfl) p hp.2
    · exact hput ▸ filter_sublist.length_le.trans (hact ▸ hle)
    · refine hput.trans ((filter_eq_self.mpr fun i hi => ?_).trans hact)
      have hi : t.activeAt i = true := (mem_filter.mp hi).2
      refine decide_eq_true fun heq => ?_
      simp [← heq, hi] at hoff
      exact hoff hc
  | true =>
    refine ends_deactivateSieveScripts.bind (fun _ p hp => ?_) fun e u hu => ?_
    · obtain ⟨hdim, ⟨-, hnone⟩ | ⟨h, -⟩⟩ := hp
      swap
      · cases h
      have hput : (p.store.put id { name := some name, active := some [1], content := some content }).activeIds =
          [id] := activeIds_put_on (hdim.ids_eq ▸ hid) hnone rfl
      exact ends_commit ⟨fun _ => by simp [hput], fun _ => ⟨by simp, by simp,
        by simp, by simp⟩⟩ (fun hs => hlate _ _ hs hdim (by simp)) p rfl
    · obtain ⟨hdim, ⟨h, -⟩ | ⟨-, hs⟩⟩ := hu
      · cases h
      · exact hlate e u hs hdim (by simp)

/-- An upload, after the account was found or made. -/
theorem ends_upload (name content : Str) (activate : Bool) : Ends strict (· = s) ((sieveScriptDocID name).rescue
        (fun e => if e = .notFound then createDocument else throw e) >>= fun docID =>
      (if activate then deactivateSieveScripts else pure ()) >>= fun _ => putDocumentFields docID
        { name := some name, active := some [if activate then 1 else 0], content := some content })
      (Behaves strict s (.put name content activate)) := by
  refine docID_then (fun id hid => ?_) (fun hnew => ?_) fun _ => behaves_of_error rfl rfl
  · refine ends_store (mem_ids_of_find hid) rfl (fun h hc => ?_) fun hs hc => ⟨rfl, fun h => ?_⟩
    · subst h
      exact hc.1 id hid
    · subst h
      exact (hc.resolve_left (by simp [hs])).2
  · refine ends_store (mem_ids_created s) (activeIds_created s) (fun _ _ => ?_) fun hs hc => ?_
    · simp [activeAt_created]
    · -- a new document is a commit of its own
      cases activate
      · simp [Careful, hs, hnew] at hc
      · simp [Careful, hs, hnew] at hc

theorem ends_put (name content : Str) (activate : Bool) :
    Ends strict (· = s) (putSieveScript name content activate) (Behaves strict s (.put name content activate)) := by
  have herr : ∀ e, Behaves strict s (.put name content activate) (.error e) s := fun e => behaves_of_error rfl rfl
  have hensure : Ends strict (· = s) ensureScriptAccount fun r t =>
      (r = .ok () ∧ ∃ b, t = { s with registered := b }) ∨ (r = .error .kv ∧ t = s) := by
    refine (reads_look (·.registered)).then ?_ fun _ => .inr ⟨rfl, rfl⟩
    split
    · exact ends_commit (.inl ⟨rfl, true, rfl⟩) fun _ => .inr ⟨rfl, rfl⟩
    · exact Ends.pure fun t ht => .inl ⟨rfl, s.registered, ht⟩
  refine hensure.bind (fun _ p hp => ?_) fun e t ht => ?_
  · obtain ⟨-, b, hp⟩ | ⟨h, -⟩ := hp
    · intro hfaults
      have h : Ends strict (· = { s with registered := b }) _ _ := ends_upload name content activate
      obtain ⟨hbehaves, hrest⟩ := h p hp hfaults
      exact ⟨hbehaves.of_registered, hrest⟩
    · cases h
  · obtain ⟨h, -⟩ | ⟨-, rfl⟩ := ht
    · cases h
    · exact herr e

end Calls

/-! ### Runs -/

theorem behaves_call (s : Shelf) (c : ScriptCall) (faults : List Bool) :
    Behaves (decide (true ∉ faults)) s c (s.call c faults).1 (s.call c faults).2 := by
  have h : Ends (decide (true ∉ faults)) (· = s) c.program (Behaves (decide (true ∉ faults)) s c) := by
    cases c with
    | put name content activate => exact ends_put name content activate
    | setActive name => exact ends_set name
    | delete name => exact ends_delete name
  exact (h ⟨faults, s⟩ rfl of_decide_eq_true).1

theorem activeIds_run : ∀ (calls : List (ScriptCall × List Bool)) {s : Shelf}, s.activeIds.length ≤ 1 →
    (s.run calls).activeIds.length ≤ 1
  | [], _, h => h
  | (c, faults) :: rest, s, h => activeIds_run rest ((behaves_call s c faults).1 h)

/-- THE ACTIVE SCRIPT: after every run of calls, whichever accesses to the store failed, at most one script is
    active, and the next call does with the active script and the contents what it should, if it does not
    upload the active script, activates a script that is there, and an access fails only where the call has
    a single commit. -/
theorem active_script_laws (calls : List (ScriptCall × List Bool)) (c : ScriptCall) (faults : List Bool) :
    (Shelf.run {} calls).activeIds.length ≤ 1 ∧ (Careful (decide (true ∉ faults)) (Shelf.run {} calls) c →
      Lawful (Shelf.run {} calls) c ((Shelf.run {} calls).call c faults).1 ((Shelf.run {} calls).call c faults).2) :=
  ⟨activeIds_run calls (by simp [Shelf.activeIds, Shelf.ids]), (behaves_call _ c faults).2⟩

/-- One active script and another one. -/
def twoScripts : List (ScriptCall × List Bool) :=
  [(.put (ascii "work") (ascii "keep;") true, []), (.put (ascii "trip") (ascii "stop;") false, [])]

theorem active_script_laws_switch :
    ((Shelf.run {} twoScripts).call (.setActive (ascii "trip")) []).2.activeIds = [2] := by
  obtain ⟨id, hfind, hactive⟩ := ((active_script_laws twoScripts (.setActive (ascii "trip")) []).2
    ⟨.inr (.inl (by decide +kernel)), .inl (by decide)⟩).activated (ascii "trip") rfl (by decide) (by decide +kernel)
  rw [hactive]
  have hid : (Shelf.run {} twoScripts).find (ascii "trip") = some 2 := by decide +kernel
  cases hid.symm.trans hfind
  rfl

/-- Uploading the active script again leaves none active, and so does activating one that is not there. -/
theorem upload_deactivates_script : (Shelf.run {} twoScripts).activeIds = [1] ∧
    ((Shelf.run {} twoScripts).call (.put (ascii "work") (ascii "discard;") false) []).1.isOk = true ∧
    ((Shelf.run {} twoScripts).call (.put (ascii "work") (ascii "discard;") false) []).2.activeIds = [] ∧
    ((Shelf.run {} twoScripts).call (.setActive (ascii "home")) []).1.isOk = false ∧
    ((Shelf.run {} twoScripts).call (.setActive (ascii "home")) []).2.activeIds = [] := by
  decide +kernel

end Mailezine.Mailstore
