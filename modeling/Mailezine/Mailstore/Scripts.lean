import Mailezine.Mailstore.Message
import Mailezine.Schemes.Faulty

/-! The Sieve scripts of one account, kept as documents.

    A script is a document with a row for its name, its content and whether it is active. Documents are
    numbered from 1 by a counter that never goes back, and listed in that order. Every read and every commit
    of the store is one access that can fail; a commit that fails writes nothing. -/

namespace Mailezine.Mailstore
open Schemes Gostd

/-! ### The store -/

/-- The rows of a script document. -/
structure ScriptDoc where
  name : Option Str := none
  active : Option Str := none
  content : Option Str := none
  deriving DecidableEq

/-- Write the rows of `new` over those of `d`. -/
def ScriptDoc.put (d new : ScriptDoc) : ScriptDoc where
  name := new.name <|> d.name
  active := new.active <|> d.active
  content := new.content <|> d.content

/-- Whether a script is active. -/
def ScriptDoc.isActive (d : ScriptDoc) : Bool := d.active = some [1]

/-- The scripts of an account. -/
structure Shelf where
  registered : Bool := false
  lastDoc : Nat := 0
  docs : Nat → Option ScriptDoc := fun _ => none

/-- Write rows of a document. -/
def Shelf.put (s : Shelf) (id : Nat) (fields : ScriptDoc) : Shelf :=
  { s with docs := fun i => if i = id then some (((s.docs id).getD {}).put fields) else s.docs i }

/-- The IDs of the documents, in order. -/
def Shelf.ids (s : Shelf) : List Nat := (List.range' 1 s.lastDoc).filter fun id => (s.docs id).isSome

/-- Errors. -/
inductive ScriptErr where
  | notFound | kv
  deriving DecidableEq

/-- Programs on the scripts. -/
abbrev Scripts (α : Type) := Program Shelf ScriptErr α

/-- A read. -/
def look {α : Type} (f : Shelf → α) : Scripts α := .access .kv fun s => (f s, s)

/-- A commit. -/
def commit (f : Shelf → Shelf) : Scripts Unit := .access .kv fun s => ((), f s)

/-- `AccountByEmail`. -/
def scriptAccount : Scripts Unit := do
  if !(← look (·.registered)) then throw .notFound

/-- `ensureAccount`. -/
def ensureScriptAccount : Scripts Unit := do
  if !(← look (·.registered)) then commit fun s => { s with registered := true }

/-- `ListDocumentIDs`. -/
def listDocumentIDs : Scripts (List Nat) := look (·.ids)

/-- `GetDocumentFields`. -/
def getDocumentFields (id : Nat) : Scripts ScriptDoc := do
  match ← look (·.docs id) with
  | none => throw .notFound
  | some d => pure d

/-- A new document, which has no row but its sentinel: its number was never used before. -/
def Shelf.created (s : Shelf) : Shelf :=
  { s with lastDoc := s.lastDoc + 1, docs := fun i => if i = s.lastDoc + 1 then some {} else s.docs i }

/-- `CreateDocument`. -/
def createDocument : Scripts Nat := .access .kv fun s => (s.lastDoc + 1, s.created)

/-- `PutDocumentFields`. -/
def putDocumentFields (id : Nat) (fields : ScriptDoc) : Scripts Unit := commit (·.put id fields)

/-- `UpdateDocumentAtomically`. -/
def updateDocumentAtomically (id : Nat) (fields : ScriptDoc) : Scripts Unit := commit (·.put id fields)

/-- `DeleteDocument`. -/
def deleteDocument (id : Nat) : Scripts Unit := do
  match ← look (·.docs id) with
  | none => throw .notFound
  | some _ => commit fun s => { s with docs := fun i => if i = id then none else s.docs i }

/-! ### Scripts -/

/-- The search of `sieveScriptDocID`. -/
def findScript (name : Str) : List Nat → Scripts Nat
  | [] => throw .notFound
  | id :: rest => do
    if (← getDocumentFields id).name.getD [] = name then pure id else findScript name rest

/-- `sieveScriptDocID`. -/
def sieveScriptDocID (name : Str) : Scripts Nat := do findScript name (← listDocumentIDs)

/-- The loop of `deactivateSieveScripts`. -/
def deactivateAll : List Nat → Scripts Unit
  | [] => pure ()
  | id :: rest => do
    if (← getDocumentFields id).isActive then updateDocumentAtomically id { active := some [0] }
    deactivateAll rest

/-- `deactivateSieveScripts`. -/
def deactivateSieveScripts : Scripts Unit := do deactivateAll (← listDocumentIDs)

/-- `PutSieveScript`. -/
def putSieveScript (name content : Str) (activate : Bool) : Scripts Unit := do
  ensureScriptAccount
  let docID ← (sieveScriptDocID name).rescue fun e => if e = .notFound then createDocument else throw e
  (if activate then deactivateSieveScripts else pure ())
  putDocumentFields docID
    { name := some name, active := some [if activate then 1 else 0], content := some content }

/-- `SetSieveActive`. -/
def setSieveActive (name : Str) : Scripts Unit := do
  scriptAccount
  deactivateSieveScripts
  if name ≠ [] then do
    let docID ← sieveScriptDocID name
    updateDocumentAtomically docID { active := some [1] }

/-- `DeleteSieveScript`. -/
def deleteSieveScript (name : Str) : Scripts Unit := do
  scriptAccount
  let docID ← sieveScriptDocID name
  deleteDocument docID

/-! ### Runs -/

/-- The calls that write. -/
inductive ScriptCall where
  | put (name content : Str) (activate : Bool)
  | setActive (name : Str)
  | delete (name : Str)

/-- What a call runs. -/
def ScriptCall.program : ScriptCall → Scripts Unit
  | .put name content activate => putSieveScript name content activate
  | .setActive name => setSieveActive name
  | .delete name => deleteSieveScript name

/-- One call, with the accesses that fail during it. -/
def Shelf.call (s : Shelf) (c : ScriptCall) (faults : List Bool) : Except ScriptErr Unit × Shelf :=
  let (r, p) := c.program.exec ⟨faults, s⟩
  (r, p.store)

/-- Calls one after the other. -/
def Shelf.run (s : Shelf) (calls : List (ScriptCall × List Bool)) : Shelf :=
  calls.foldl (fun s c => (s.call c.1 c.2).2) s

end Mailezine.Mailstore
