/-
Placing and moving VM directories.

`MoveDisk` moves the directory of a stopped VM and repoints what refers to it: the
domain's definition, the definitions its snapshots keep, and the record.  What fails
after the move is undone step by step.
-/
import VMSmith.Config.DiskLocations
import VMSmith.VM.GPU

namespace VMSmith

/-- A file name rewritten from one directory to another. -/
def rewriteText (oldDir newDir : HostPath) (text : String) : String :=
  Go.replaceAll (oldDir.toText ++ "/") (newDir.toText ++ "/") text

def rewritePath (oldDir newDir p : HostPath) : HostPath := HostPath.ofText (rewriteText oldDir newDir p.toText)

def CdromXML.rewriteDir (oldDir newDir : HostPath) (c : CdromXML) : CdromXML :=
  { c with source := c.source.map (rewritePath oldDir newDir) (rewriteText oldDir newDir) }

/-- `rewriteDiskDirInXML`: every reference to a file under one directory becomes one
under the other. -/
def rewriteDiskDirInXML (oldDir newDir : HostPath) (x : SnapshotXML) : SnapshotXML :=
  { x with
    description := rewriteText oldDir newDir x.description
    definition := { x.definition with
      diskPath := rewritePath oldDir newDir x.definition.diskPath
      cloudInit := x.definition.cloudInit.rewriteDir oldDir newDir
      virtioWin := x.definition.virtioWin.map (·.rewriteDir oldDir newDir)
      installISO := x.definition.installISO.map (·.rewriteDir oldDir newDir) } }

namespace Manager

variable (d : Daemon)

def unavailable (loc : DiskLocation) : Err :=
  .api "disk_location_unavailable" ("disk location \"" ++ loc.name ++ "\" directory " ++
    loc.path.toText ++ " is not available; create it (and mount the drive) first")

/-- The location a path stands for once its links are resolved. -/
def resolveRealPath (loc : DiskLocation) : M DiskLocation := do
  match ← fileCall (.evalSymlinks loc.path) with
  | .error e => .throw (.api "disk_location_unavailable"
      ("resolving disk location " ++ loc.path.toText ++ ": " ++ e.text))
  | .ok real =>
      if real = loc.path then return loc
      else
        match d.cfg.storage.resolveDiskLocation real.toText with
        | .ok resolved => return resolved
        | .error e => .throw (.api "invalid_disk_location"
            (loc.path.toText ++ " resolves to " ++ real.toText ++ ": " ++ e.text))

/-- `ResolveDiskLocation` of the manager: the directory exists, and a path is followed
through links and checked again. -/
def resolveDiskLocation (name : String) : M DiskLocation := do
  match d.cfg.storage.resolveDiskLocation name with
  | .error e => .throw (.api "invalid_disk_location" e.text)
  | .ok loc =>
      let there ← fileCall (.statDir loc.path)
      failIf (there = false) (unavailable loc)
      if isDiskLocationPath loc.name then resolveRealPath d loc else return loc

/-- Redefine the snapshots of these names; gives how many were changed. -/
def rewriteSnapshots (dom : Nat) (oldDir newDir : HostPath) : List String → Nat → M Nat
  | [], rewritten => return rewritten
  | name :: names, rewritten => do
      let raw ← virtCall (.snapshotXML dom name true) >>= orWrap "dumping snapshot xml"
      let updated := rewriteDiskDirInXML oldDir newDir raw
      if updated = raw then rewriteSnapshots dom oldDir newDir names rewritten
      else do
        virtCall (.redefineSnapshot dom updated) >>= orWrap "redefining snapshot"
        rewriteSnapshots dom oldDir newDir names (rewritten + 1)

/-- `rewriteSnapshotsDiskDir`. -/
def rewriteSnapshotsDiskDir (dom : Nat) (oldDir newDir : HostPath) : M Nat := do
  let names ← virtCall (.listSnapshots dom) >>= orWrap "listing snapshots"
  rewriteSnapshots dom oldDir newDir names 0

/-- `rollbackRelocation`: a failure is only logged. -/
def rollbackRelocation (source destination : HostPath) (renamed : Bool) : M Unit := do
  let _ ← fileCall (.rollbackRelocation source destination renamed)

/-- `restoreDomain`: a failure is only logged. -/
def restoreDomain (dom : Nat) (original : VM) : M Unit := do
  let _ ← (redefineDomain d dom original original.spec).attempt

/-- The room check of a move across file systems. -/
def checkRoom (source : HostPath) (loc : DiskLocation) : M Unit := do
  let need ← fileCall (.dirAllocatedBytes source) >>= orWrap ("sizing " ++ source.toText)
  let free ← fileCall (.freeBytes loc.path) >>= orWrap ("checking free space on " ++ loc.path.toText)
  failIf (free < need) (.api "insufficient_storage" ("location \"" ++ loc.name ++ "\" has " ++
    toString free ++ " bytes free but the vm needs " ++ toString need))

/-- The record, once everything else points at the new directory. -/
def commitMove (dom : Nat) (storedVM moved : VM) (source destination : HostPath) (renamed : Bool)
    (rewritten : Nat) : M VM := do
  match ← storeCall (.putVM moved) with
  | .error e => do
      onlyIf (0 < rewritten) do
        let _ ← (rewriteSnapshotsDiskDir dom destination source).attempt
      restoreDomain d dom storedVM
      rollbackRelocation source destination renamed
      .throw (.wrap "persisting vm" e)
  | .ok () => do
      let _ ← fileCall (.commitRelocation source renamed)
      return moved

/-- Repoint the domain, its snapshots and the record. -/
def repoint (dom : Nat) (storedVM moved : VM) (source destination : HostPath) (renamed : Bool) :
    M VM := do
  match ← (redefineDomain d dom moved moved.spec).attempt with
  | .error e => do
      rollbackRelocation source destination renamed
      .throw e
  | .ok () =>
      match ← (rewriteSnapshotsDiskDir dom source destination).attempt with
      | .error e => do
          let _ ← (rewriteSnapshotsDiskDir dom destination source).attempt
          restoreDomain d dom storedVM
          rollbackRelocation source destination renamed
          .throw (.wrap "repointing snapshots" e)
      | .ok rewritten => commitMove d dom storedVM moved source destination renamed rewritten

def vmStarted : Err :=
  .api "vm_running" "vm was started while its disk was being moved; the move was rolled back"

/-- The record of a VM whose directory has moved. -/
def movedVM (storedVM : VM) (loc : DiskLocation) (destination : HostPath) (at_ : Nat) : VM :=
  { storedVM with
    diskPath := destination.join storedVM.diskPath.base
    spec := { storedVM.spec with diskLocation := storedDiskLocationName loc.name }
    updatedAt := at_ }

def moveDisk (id location : String) : M VM := do
  let storedVM ← getVM id
  let loc ← resolveDiskLocation d location
  let source := storedVM.diskPath.dir
  let destination := loc.path.join id
  failIf (source = destination)
    (.api "disk_location_unchanged" ("vm disk already lives in location \"" ++ loc.name ++ "\""))
  failIf (destination.within source) (.api "invalid_disk_location"
    ("location " ++ loc.path.toText ++ " is inside the vm's own directory " ++ source.toText))
  let dom ← virtCall (.lookupDomainByName storedVM.name) >>= orWrap "looking up domain"
  let state ← getState dom
  failIf (state ≠ .shutoff) (.api "vm_running" "vm must be stopped before its disk can be moved")
  let there ← fileCall (.lstat destination)
  failIf there (.api "disk_move_conflict"
    (destination.toText ++ " already exists; remove the leftover directory before moving"))
  let same ← fileCall (.sameFilesystem source loc.path)
  onlyIf (same = false) (checkRoom source loc)
  let renamed ← fileCall (.relocate source destination) >>= orWrap "relocating vm directory"
  -- the guest may have been started while its disk was copied
  match ← virtCall (.getState dom) with
  | .ok .shutoff => do
      let moved := movedVM storedVM loc destination (← now)
      repoint d dom storedVM moved source destination renamed
  | _ => do
      rollbackRelocation source destination renamed
      .throw vmStarted

end Manager

end VMSmith
