/-
The mount table.

A line is split at white space, the mount point is the fifth field and what follows the
separator is the filesystem type and the source; octal escapes in the paths are decoded.
-/
import VMSmith.Lib.Fields
import VMSmith.Types.VM

namespace VMSmith

open Go (Bytes ascii)

/-- `Mount`. -/
structure Mount where
  path : Bytes
  fsType : Bytes
  source : Bytes
  readOnly : Bool
  deriving DecidableEq, Repr

namespace Mount

/-- `pseudoFSTypes`. -/
def pseudoFSTypes : List Bytes :=
  ["autofs", "binfmt_misc", "bpf", "cgroup", "cgroup2", "configfs", "debugfs", "devpts", "devtmpfs",
    "efivarfs", "fusectl", "hugetlbfs", "mqueue", "nsfs", "overlay", "proc", "pstore", "ramfs",
    "rpc_pipefs", "securityfs", "squashfs", "sysfs", "tmpfs", "tracefs", "iso9660", "udf",
    "fuse.gvfsd-fuse", "fuse.portal", "fuse.snapfuse"].map ascii

/-- `IsPersistent`. -/
def isPersistent (m : Mount) : Bool := !m.readOnly && !pseudoFSTypes.contains m.fsType

end Mount

/-! ### Escapes -/

/-- `strconv.ParseUint` of three octal digits that have to fit a byte. -/
def octalByte : Bytes → Option UInt8
  | d₁ :: d₂ :: d₃ :: _ =>
      if [d₁, d₂, d₃].all (fun d => 0x30 ≤ d && d ≤ 0x37) then
        let v := ((d₁.toNat - 48) * 8 + (d₂.toNat - 48)) * 8 + (d₃.toNat - 48)
        if v < 256 then some v.toUInt8 else none
      else none
  | _ => none

/-- The loop of `unescapeMountField`, with `skip` bytes of an escape still to be passed over. -/
def unescapeFrom : Nat → Bytes → Bytes
  | _, [] => []
  | skip + 1, _ :: rest => unescapeFrom skip rest
  | 0, b :: rest =>
      match if b = 0x5C then octalByte rest else none with
      | some v => v :: unescapeFrom 3 rest
      | none => b :: unescapeFrom 0 rest

/-- `unescapeMountField`. -/
def unescapeMountField (s : Bytes) : Bytes := unescapeFrom 0 s

/-! ### Lines -/

/-- The most that the scanner's buffer holds of a line with its newline. -/
def maxLine : Nat := 1024 * 1024

/-- `bufio.ScanLines`: the carriage return that may end a line is dropped. -/
def dropCR (line : Bytes) : Bytes :=
  if line.getLast? = some 0x0D then line.dropLast else line

/-- The lines that the scanner hands out of a table, or the error it stops at. -/
def scanLines (table : Bytes) : Except Err (List Bytes) :=
  let lines := table.splitOn 0x0A
  -- what follows the last newline is a line if there is any of it
  let lines := if lines.getLastD [] = [] then lines.dropLast else lines
  if lines.any (maxLine ≤ ·.length) then
    .error (.wrap "reading mount table" (.ext "bufio.Scanner: token too long"))
  else .ok (lines.map dropCR)

/-- What `ParseMountInfo` reads off a line, `none` if the line is skipped. -/
def parseMountLine (line : Bytes) : Option Mount :=
  let fields := Go.fields line
  match (fields.drop 6).dropWhile (· ≠ ascii "-") with
  | _ :: fsType :: source :: _ =>
      some {
        path := unescapeMountField (fields.getD 4 [])
        fsType := fsType
        source := unescapeMountField source
        readOnly := ((fields.getD 5 []).splitOn 0x2C).any (· = ascii "ro") }
  | _ => none

/-- `ParseMountInfo`, of a table that can be read to its end. -/
def parseMountInfo (table : Bytes) : Except Err (List Mount) :=
  (scanLines table).map fun lines => lines.filterMap parseMountLine

/-- `PersistentMountPoints`. -/
def persistentMountPoints (table : Bytes) : Except Err (List Bytes) :=
  (parseMountInfo table).map fun mounts => (mounts.filter Mount.isPersistent).map Mount.path

end VMSmith
