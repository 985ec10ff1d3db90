import Mathlib.Logic.Function.Basic
import Mailezine.Gostd.Strings
import Mailezine.Schemes.Threads

/-! Blobs as files (`internal/store/fsblob.go`).

    A blob is a file of the root directory, as it was put or gzip-compressed. The compressed store tells
    the two by the first two bytes, and takes the size of the file for the size of the blob. -/

namespace Mailezine.Store.FsBlob
open Gostd Schemes

/-- The bytes that every gzip stream starts with. -/
def magic : Str := [0x1f, 0x8b]

/-- gzip: reading inverts writing. -/
structure Gzip where
  write : Str → Str
  read : Str → Option Str
  read_write : ∀ data, read (write data) = some data
  starts : ∀ data, (write data).take 2 = magic

/-- The files of the root directory by name. -/
abbrev Dir := Str → Option Str

inductive BlobError where
  | invalid
  | notFound
  | corrupt
  deriving DecidableEq

def validateBlobID (id : Str) : Bool :=
  id ≠ [] && id ≠ ascii "." && id ≠ ascii ".." && id.length ≤ 128 && id.all fun c =>
    (0x61 ≤ c && c ≤ 0x7a) || (0x41 ≤ c && c ≤ 0x5a) || (0x30 ≤ c && c ≤ 0x39) ||
      c = 0x2d || c = 0x5f || c = 0x2e

/-- `Put`: the declared size, and the directory. -/
def put (z : Gzip) (compressed : Bool) (dir : Dir) (id : Str) (size : Int) (r : Str) : Except BlobError (Int × Dir) :=
  if !validateBlobID id then .error .invalid
  else if (dir id).isSome then .ok (size, dir)
  else .ok (size, Function.update dir id (some (if compressed then z.write r else r)))

def get (z : Gzip) (compressed : Bool) (dir : Dir) (id : Str) : Except BlobError Str :=
  if !validateBlobID id then .error .invalid
  else match dir id with
    | none => .error .notFound
    | some f =>
      if compressed && f.take 2 = magic then
        match z.read f with
        | none => .error .corrupt
        | some data => .ok data
      else .ok f

def delete (dir : Dir) (id : Str) : Except BlobError Dir :=
  if !validateBlobID id then .error .invalid
  else if (dir id).isNone then .error .notFound
  else .ok (Function.update dir id none)

def stat (dir : Dir) (id : Str) : Except BlobError Nat :=
  if !validateBlobID id then .error .invalid
  else match dir id with
    | none => .error .notFound
    | some f => .ok f.length

/-! ### Runs -/

/-- A call, with the store it is made on; an ID stands for its content. -/
inductive Call where
  | put (compressed : Bool) (id : Str) (size : Int)
  | delete (id : Str)

variable (z : Gzip) (content : Str → Str)

def step (dir : Dir) : Call → Dir
  | .put compressed id size => ((put z compressed dir id size (content id)).toOption.map (·.2)).getD dir
  | .delete id => (delete dir id).toOption.getD dir

/-- A run on a new directory. -/
def run (calls : List Call) : Dir := runs (step z content) (fun _ => none) calls

/-- A new file is the content itself, which does not look like gzip, or a gzip stream of the same length. -/
def fits (dir : Dir) : Call → Bool
  | .put compressed id _ => (dir id).isSome ||
    if compressed then (z.write (content id)).length = (content id).length else (content id).take 2 ≠ magic
  | .delete _ => true

/-- The file of a blob can be told from the other form and has the length of the blob. -/
structure Holds (id f : Str) : Prop where
  valid : validateBlobID id = true
  form : f = z.write (content id) ∨ f = content id ∧ f.take 2 ≠ magic
  length : f.length = (content id).length

/-- The step lemma. -/
theorem holds_step {dir : Dir} {c : Call} (h : ∀ id f, dir id = some f → Holds z content id f)
    (hfits : fits z content dir c = true) (id f : Str) (hf : step z content dir c id = some f) :
    Holds z content id f := by
  cases c with
  | put compressed name size =>
    simp only [step, put] at hf
    generalize hfile : (if compressed = true then z.write (content name) else content name) = file at hf
    split_ifs at hf with hid hin
    · exact h id f hf
    · exact h id f hf
    · have hnew := (Bool.or_eq_true_iff.mp hfits).resolve_left hin
      replace hf : Function.update dir name (some file) id = some f := hf
      rw [Function.update_apply] at hf
      split_ifs at hf with hname
      · subst hname hfile
        cases hf
        have hvalid : validateBlobID id = true := by simpa using hid
        cases compressed with
        | true => exact ⟨hvalid, .inl rfl, of_decide_eq_true hnew⟩
        | false => exact ⟨hvalid, .inr ⟨rfl, of_decide_eq_true hnew⟩, rfl⟩
      · exact h id f hf
  | delete name =>
    simp only [step, delete] at hf
    split_ifs at hf
    · exact h id f hf
    · exact h id f hf
    · replace hf : Function.update dir name none id = some f := hf
      rw [Function.update_apply] at hf
      split_ifs at hf
      exact h id f hf

/-- SURVIVES: after every run of fitting calls, whichever of them came before compression was enabled, the
    compressed store returns the bytes and the size of every blob there is. -/
theorem blobs_survive (calls : List Call) (h : steady (step z content) (fits z content) (fun _ => none) calls = true)
    {id f : Str} (hf : run z content calls id = some f) : get z true (run z content calls) id = .ok (content id) ∧
      stat (run z content calls) id = .ok (content id).length := by
  have hall := runs_invariant (I := fun dir => ∀ id f, dir id = some f → Holds z content id f)
    (fun dir c hd hc => holds_step z content hd hc) calls _ (by simp) h
  obtain ⟨hvalid, hform, hlen⟩ := hall id f hf
  refine ⟨?_, by simp [stat, hvalid, hf, hlen]⟩
  rcases hform with rfl | ⟨rfl, hplain⟩
  · simp [get, hvalid, hf, z.starts, z.read_write]
  · simp [get, hvalid, hf, hplain]

/-- The ten bytes that the gzip writer starts with. -/
def header : Str := magic ++ [8, 0, 0, 0, 0, 0, 0, 0xff]

/-- A gzip that only puts its header before the data. -/
def Gzip.stored : Gzip where
  write data := header ++ data
  read f := if header.isPrefixOf f then some (f.drop 10) else none
  read_write data := if_pos (by simp)
  starts _ := rfl

theorem blobs_survive_plain : get .stored true (run .stored id [.put false (ascii "hi") 2]) (ascii "hi") =
    .ok (ascii "hi") :=
  (blobs_survive .stored id [.put false (ascii "hi") 2] (by decide +kernel) (f := ascii "hi") (by decide +kernel)).1

/-- A blob put after compression was enabled has the size of its file, and one put before that starts
    with the magic bytes is decompressed, or fails to be. -/
theorem size_of_file_and_plain_gzip :
    stat (run .stored id [.put true (ascii "hi") 2]) (ascii "hi") = .ok 12 ∧
    get .stored true (run .stored (fun _ => magic) [.put false (ascii "hi") 2]) (ascii "hi") = .error .corrupt ∧
    get .stored true (run .stored (fun _ => header) [.put false (ascii "hi") 10]) (ascii "hi") = .ok [] := by
  decide +kernel

end Mailezine.Store.FsBlob
