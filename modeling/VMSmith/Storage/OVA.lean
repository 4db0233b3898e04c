/-
Unpacking an appliance.

The archive's entries are written one by one into a directory made for them, each under
the last component of its name, and the sizes they announce are added up against a cap.
The descriptor names its disk file by a path of its own, which is looked up next to it.
-/
import VMSmith.Lib.CleanPath
import VMSmith.Types.VM

namespace VMSmith.OVA

open Go (trimSpace toLower hasPrefix hasSuffix)

/-- `ovaMaxExtractBytes`. -/
def maxExtractBytes : Int64 := (512 : Int64) <<< 30

/-- A header's `Typeflag`, as far as it is looked at. -/
inductive Typeflag
  | reg
  /-- A directory, a link, a device, a sparse file of the old format. -/
  | other
  deriving DecidableEq, Repr

/-- An entry of the archive, and what comes of reading it and writing it out.  A sparse file
announces, and is read to, its size with the holes. -/
structure Entry where
  name : String
  typeflag : Typeflag
  /-- As the header announces it. -/
  size : Int64
  size_nonneg : 0 ≤ size.toInt
  /-- The file can be opened for writing. -/
  opens : Bool := true
  /-- After how many bytes the copy fails, `none` if it is whole: the reader hands over all
  of an entry or fails. -/
  failsAfter : Option Nat := none

/-- What `tr.Next` may come to before the end of the archive. -/
inductive Next
  | entry (e : Entry)
  | broken (reason : String)

namespace Entry

/-- The name an entry is written under. -/
def fileName (e : Entry) : String := Go.base (Go.clean e.name)

/-- An entry that is passed over. -/
def skipped (e : Entry) : Bool :=
  e.typeflag ≠ .reg || e.fileName ∈ [".", "..", "/"]

/-- The bytes that the copy writes. -/
def written (e : Entry) : Nat :=
  match e.failsAfter with
  | none => e.size.toInt.toNat
  | some n => min n e.size.toInt.toNat

/-- The descriptor found, once an entry is written: the first one is kept. -/
def descriptor (e : Entry) (target : HostPath) (ovfPath : Option HostPath) : Option HostPath :=
  if hasSuffix (toLower e.fileName) ".ovf" ∧ ovfPath = none then some target else ovfPath

end Entry

/-- What an extraction does: the files it writes, each with its bytes, and its result. -/
structure Extraction where
  writes : List (HostPath × Nat)
  result : Except Err HostPath

/-- The loop of `extractOVA`, with the sizes added up so far and the descriptor found. -/
def extractLoop (destDir : HostPath) (total : Int64) (ovfPath : Option HostPath) :
    List Next → Extraction
  | [] =>
      match ovfPath with
      | none => ⟨[], .error (.ext "OVA contains no .ovf descriptor")⟩
      | some p => ⟨[], .ok p⟩
  | .broken reason :: _ =>
      ⟨[], .error (.ext ("reading OVA tar (is this a valid OVA?): " ++ reason))⟩
  | .entry e :: rest =>
      if e.skipped then extractLoop destDir total ovfPath rest
      else
        let total := total + e.size
        if total > maxExtractBytes then
          ⟨[], .error (.ext "OVA contents exceed the 549755813888-byte extraction cap")⟩
        else
          let target := destDir.resolve e.fileName
          if e.opens = false then ⟨[], .error (.ext "open")⟩
          else
            match e.failsAfter with
            | some _ => ⟨[(target, e.written)], .error (.ext ("extracting " ++ e.fileName))⟩
            | none =>
                let after := extractLoop destDir total (e.descriptor target ovfPath) rest
                ⟨(target, e.written) :: after.writes, after.result⟩

/-- `extractOVA`. -/
def extractOVA (archive : List Next) (destDir : HostPath) : Extraction :=
  extractLoop destDir 0 none archive

/-- `safeRelativeOVFDiskPath`. -/
def safeRelativeOVFDiskPath (href : String) : Option String :=
  let href := trimSpace href
  if href = "" ∨ Go.isAbs href then none
  else
    let clean := Go.clean href
    if clean = "." ∨ clean = ".." then none
    else if hasPrefix clean "../" then none
    else some clean

/-- Where `ImportOVA` looks for the disk that the descriptor refers to. -/
def importDiskPath (ovfPath : HostPath) (diskHref : String) : Except Err HostPath :=
  if diskHref = "" then .error (.ext "OVF descriptor references no disk file")
  else
    match safeRelativeOVFDiskPath diskHref with
    | none => .error (.ext ("OVF disk reference \"" ++ diskHref ++ "\" is not a safe relative path"))
    | some clean => .ok (ovfPath.dir.resolve clean)

end VMSmith.OVA
