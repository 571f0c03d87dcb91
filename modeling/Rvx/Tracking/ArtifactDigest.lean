import Rvx.Lib.LossyUtf8
import Rvx.Lib.StableSort
import Mathlib.Data.List.Lex

/-!
# Artifact digests

The digest of a local artifact: of a file, the hash of its bytes; of a directory, the hash over the
files below it in the order of their paths, each with the text of its path and its own digest.  The
hash function is a parameter.  A directory lists its entries in an order of its own, and a file is
read in parts of any length.
-/

namespace Rvx.Tracking

inductive DigestError where
  /-- `InvalidInput("artifact paths must not be symbolic links")`. -/
  | symbolicLinkPath
  /-- `InvalidInput("artifact path does not exist: ...")` with the path. -/
  | missingPath
  /-- `InvalidInput("artifact directory contains a symbolic link: ...")` with the path. -/
  | containsSymbolicLink (path : List (List UInt8))
  | io
deriving DecidableEq

abbrev FileName : Type := List UInt8

abbrev RelativePath : Type := List FileName

/-- What successive reads of a file return, `none` where it cannot be opened or read. -/
abbrev FileReads : Type := Option (List (List UInt8))

inductive Entry where
  | file (reads : FileReads)
  | directory (entries : List (FileName × Entry))
  | symlink
  /-- Neither file nor directory nor link. -/
  | other
  /-- A directory that cannot be listed. -/
  | unlisted
  /-- An entry without metadata. -/
  | unreadable

/-! ## Hashing -/

/-- The bytes given to a hasher. -/
structure Sha256 where
  input : List UInt8

def Sha256.new : Sha256 := ⟨[]⟩

def Sha256.update (digest : Sha256) (bytes : List UInt8) : Sha256 := ⟨digest.input ++ bytes⟩

def hexDigit (value : ℕ) : UInt8 := UInt8.ofNat (if value < 10 then 0x30 + value else 0x57 + value)

/-- The text of `{:x}`. -/
def hexText (bytes : List UInt8) : List UInt8 :=
  bytes.flatMap fun byte ↦ [hexDigit (byte.toNat / 16), hexDigit (byte.toNat % 16)]

def saturatingAdd (size more : ℕ) : ℕ := min (size + more) (2 ^ 64 - 1)

section

variable (sha : List UInt8 → List UInt8)

def digestFile.loop (digest : Sha256) (size : ℕ) : List (List UInt8) → List UInt8 × ℕ
  | [] => (hexText (sha digest.input), size)
  | read :: more =>
    if read = [] then (hexText (sha digest.input), size)
    else loop (digest.update read) (saturatingAdd size read.length) more

def digestFile : Entry → Except DigestError (List UInt8 × ℕ)
  | .file (some reads) => .ok (digestFile.loop sha .new 0 reads)
  | _ => .error .io

/-! ## Directories -/

mutual

/-- The paths below a directory, from the root. -/
def collectFiles (directory : RelativePath) :
    List (FileName × Entry) → Except DigestError (List RelativePath)
  | [] => .ok []
  | (name, entry) :: rest => do
    let files ← collectEntry (directory ++ [name]) entry
    let more ← collectFiles directory rest
    return files ++ more

def collectEntry (path : RelativePath) : Entry → Except DigestError (List RelativePath)
  | .unreadable => .error .io
  | .symlink => .error (.containsSymbolicLink path)
  | .directory entries => collectFiles path entries
  | .unlisted => .error .io
  | .file _ => .ok [path]
  | .other => .ok []

end

/-- The entry a path leads to. -/
def entryAt (entry : Entry) : RelativePath → Option Entry
  | [] => some entry
  | name :: rest =>
    match entry with
    | .directory entries => (entries.lookup name).bind fun inner ↦ entryAt inner rest
    | _ => none

/-- The bytes of a path. -/
def pathBytes (path : RelativePath) : List UInt8 := [0x2F].intercalate path

/-- Paths are ordered component by component, and components byte by byte. -/
def pathOrder (path : RelativePath) : List (List ℕ) := path.map fun name ↦ name.map UInt8.toNat

def digestPath.loop (root : Entry) (digest : Sha256) (size : ℕ) :
    List RelativePath → Except DigestError (List UInt8 × ℕ)
  | [] => .ok (hexText (sha digest.input), size)
  | relative :: more =>
    match entryAt root relative with
    | none => .error .io
    | some full =>
      match digestFile sha full with
      | .error error => .error error
      | .ok (fileDigest, fileSize) =>
        loop root
          ((((digest.update (LossyUtf8.lossy (pathBytes relative))).update [0]).update
            fileDigest).update [0])
          (saturatingAdd size fileSize) more

def digestPath : Entry → Except DigestError (List UInt8 × ℕ)
  | .symlink => .error .symbolicLinkPath
  | .file reads => digestFile sha (.file reads)
  | .directory entries => do
    let files ← collectFiles [] entries
    digestPath.loop sha (.directory entries) .new 0 (StableSort.sortOn pathOrder files)
  | .unlisted => .error .io
  | .other => .error .missingPath
  | .unreadable => .error .missingPath

end

end Rvx.Tracking
