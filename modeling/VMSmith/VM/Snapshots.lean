/-
Snapshots of a VM, and the cap on them.

Libvirt keeps the snapshots and the store their tags, so making one is a command to each.  The
cap is not the manager's: the quota manager makes the snapshot first and then deletes the
oldest ones, as libvirt's creation times have them, until no more than the limit are left.
-/
import VMSmith.VM.Lifecycle
import VMSmith.Api.Handlers
import VMSmith.Api.Validation
import VMSmith.Lib.GoSort

namespace VMSmith

open Go (trimSpace)

structure SnapshotSpec where
  name : String
  description : String := ""
  tags : List String := []
  deriving DecidableEq, Repr

structure Snapshot where
  id : String
  vmID : String
  name : String
  description : String := ""
  tags : List String := []
  /-- In whole seconds; `none` is the zero time. -/
  createdAt : Option Nat := none
  deriving DecidableEq, Repr

namespace Snapshot

/-- `Before` of the creation times: the zero time is before every other. -/
def before (a b : Snapshot) : Bool :=
  match a.createdAt, b.createdAt with
  | none, some _ => true
  | some s, some t => s < t
  | _, none => false

end Snapshot

namespace Manager

/-- `CreateSnapshot`. -/
def createSnapshot (vmID : String) (spec : SnapshotSpec) : M Snapshot := do
  let vm ← getVM vmID
  let dom ← virtCall (.lookupDomainByName vm.name) >>= orWrap "looking up domain"
  virtCall (.createSnapshot dom spec.name spec.description) >>= orWrap "creating snapshot"
  -- the snapshot stays when its tags cannot be stored
  onlyIf (spec.tags ≠ []) do
    storeCall (.putSnapshotTags vmID spec.name spec.tags) >>= orWrap "persisting snapshot tags"
  return {
    id := vmID ++ "/" ++ spec.name
    vmID := vmID
    name := spec.name
    description := spec.description
    tags := spec.tags
    createdAt := some ((← now) / 1000000000) }

/-- One entry of a listing: what libvirt does not tell is left empty. -/
def snapshotEntry (vmID : String) (tagsByName : List (String × List String)) (name : String)
    (raw : Except Err SnapshotXML) : Snapshot where
  id := vmID ++ "/" ++ name
  vmID := vmID
  name := name
  description := match raw with
    | .ok x => trimSpace x.description
    | .error _ => ""
  tags := (tagsByName.lookup name).getD []
  createdAt := match raw with
    | .ok x => some x.creationTime
    | .error _ => none

/-- The entries of these snapshots. -/
def snapshotEntries (vmID : String) (dom : Nat) (tagsByName : List (String × List String)) :
    List String → M (List Snapshot)
  | [] => return []
  | name :: names => do
      let raw ← virtCall (.snapshotXML dom name false)
      return snapshotEntry vmID tagsByName name raw :: (← snapshotEntries vmID dom tagsByName names)

/-- `ListSnapshots`. -/
def listSnapshots (vmID : String) : M (List Snapshot) := do
  let vm ← getVM vmID
  let dom ← virtCall (.lookupDomainByName vm.name) >>= orWrap "looking up domain"
  let names ← virtCall (.listSnapshots dom) >>= orWrap "listing snapshots"
  let tags ← storeCall (.listSnapshotTags vmID)
  snapshotEntries vmID dom (tags.toOption.getD []) names

/-- `DeleteSnapshot`. -/
def deleteSnapshot (vmID name : String) : M Unit := do
  let vm ← getVM vmID
  let dom ← virtCall (.lookupDomainByName vm.name) >>= orWrap "looking up domain"
  virtCall (.snapshotLookup dom name) >>= orWrap "looking up snapshot"
  virtCall (.deleteSnapshot dom name) >>= orFail
  let _ ← storeCall (.deleteSnapshotTags vmID name)

end Manager

/-! ### The cap -/

namespace QuotaManager

/-- The order of `sort.Slice` on the quota manager's listing. -/
abbrev OldestFirst := Go.SliceSort Snapshot.before

variable (oldestFirst : OldestFirst) (maxSnapshotsPerVM : Int)

/-- Delete each of these; what fails is only logged. -/
def deleteEach (vmID : String) : List Snapshot → M Unit
  | [] => return ()
  | snap :: snaps => do
      let _ ← (Manager.deleteSnapshot vmID snap.name).attempt
      deleteEach vmID snaps

/-- Delete the oldest snapshots over the limit, if they can be listed. -/
def trim (vmID : String) : M Unit := do
  match ← (Manager.listSnapshots vmID).attempt with
  | .error _ => return ()
  | .ok snaps =>
      onlyIf ((snaps.length : Int) > maxSnapshotsPerVM) <|
        deleteEach vmID ((oldestFirst.sort snaps).take ((snaps.length : Int) - maxSnapshotsPerVM).toNat)

/-- `CreateSnapshot` of the quota manager. -/
def createSnapshot (vmID : String) (spec : SnapshotSpec) : M Snapshot := do
  let snap ← Manager.createSnapshot vmID spec
  onlyIf (0 < maxSnapshotsPerVM) (trim oldestFirst maxSnapshotsPerVM vmID)
  return snap

end QuotaManager

namespace Api

def maxDescriptionLength : Nat := 1024

/-- `validateCreateSnapshotRequest`. -/
def validateCreateSnapshotRequest (name description : String) : Except Err Unit := do
  rejectIf (trimSpace name = "") (.api "invalid_name" "snapshot name is required")
  rejectIf (maxDescriptionLength < description.utf8ByteSize)
    (.api "invalid_description" "description must be at most 1024 characters")

def normalizeSnapshotTags (tags : List String) : Except Err (List String) :=
  (normalizeTags tags).mapError fun
    | .api _ message => .api "invalid_snapshot" message
    | e => e

/-- `CreateSnapshot`, once the request is decoded. -/
def createSnapshot (oldestFirst : QuotaManager.OldestFirst) (maxSnapshotsPerVM : Int) (vmID : String)
    (req : SnapshotSpec) : M Snapshot := do
  orFail (validateCreateSnapshotRequest req.name req.description)
  let tags ← orFail (normalizeSnapshotTags req.tags)
  let snap ← QuotaManager.createSnapshot oldestFirst maxSnapshotsPerVM vmID { req with tags := tags }
  publishAppEvent "snapshot.created" vmID ("snapshot " ++ req.name ++ " created")
    ([("snapshot", req.name)] ++ if req.description = "" then [] else [("description", req.description)])
  return snap

end Api

end VMSmith
