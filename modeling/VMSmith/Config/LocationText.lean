/-
Disk locations as the configuration has them.

Names and paths are texts here, as they were written: every function trims and cleans what
it is given for itself, and not all of them do it in the same order.
-/
import VMSmith.Config.DiskLocations
import VMSmith.Lib.CleanText

namespace VMSmith.LocationText

open Go (trimSpace isAbs clean hasPrefix)

/-- `DiskLocation`. -/
structure DiskLocation where
  name : String
  path : String
  description : String := ""
  deriving DecidableEq, Repr

/-- `StorageConfig`, as far as disk locations go. -/
structure StorageConfig where
  imagesDir : String
  baseDir : String
  diskLocations : List DiskLocation := []
  diskLocationRoots : List String := []
  deriving DecidableEq, Repr

/-- `deniedDiskLocationPrefixes`. -/
def deniedPrefixes : List String :=
  ["/proc", "/sys", "/dev", "/run", "/boot", "/etc", "/usr", "/bin", "/sbin", "/lib", "/lib32",
    "/lib64", "/libx32", "/var/run", "/var/lock"]

/-- `pathWithin`. -/
def pathWithin (p dir : String) : Bool := dir == "/" || (p == dir || hasPrefix p (dir ++ "/"))

namespace StorageConfig

/-- `AllowedDiskLocationRoots`. -/
def allowedDiskLocationRoots (s : StorageConfig) : List String :=
  (s.diskLocationRoots.filter fun r => trimSpace r ≠ "").map fun r => clean (trimSpace r)

/-- `AllDiskLocations`: the default one first. -/
def allDiskLocations (s : StorageConfig) : List DiskLocation :=
  ⟨defaultDiskLocation, clean s.baseDir, "storage.base_dir"⟩ ::
    s.diskLocations.map fun loc =>
      ⟨trimSpace loc.name, clean (trimSpace loc.path), trimSpace loc.description⟩

/-- `CheckDiskLocationPath`. -/
def checkDiskLocationPath (s : StorageConfig) (p : String) : Except String Unit :=
  let p := trimSpace p
  if isAbs p = false then .error ("disk location path \"" ++ p ++ "\" must be absolute")
  else
    let p := clean p
    if p = "/" then .error "disk location path must not be the filesystem root"
    else
      match deniedPrefixes.find? (pathWithin p) with
      | some denied =>
          .error ("disk location path " ++ p ++ " is inside the system directory " ++ denied)
      | none =>
          if s.imagesDir ≠ "" ∧ pathWithin p (clean s.imagesDir) then
            .error ("disk location path " ++ p ++ " is inside storage.images_dir")
          else
            match s.allDiskLocations.find? fun loc => loc.path != p && pathWithin p loc.path with
            | some loc =>
                .error ("disk location path " ++ p ++ " is inside location \"" ++ loc.name ++ "\" (" ++
                  loc.path ++ "); use that location instead")
            | none =>
                let roots := s.allowedDiskLocationRoots
                if roots.any (pathWithin p) then .ok ()
                else if roots.length = 0 then
                  .error ("disk location path " ++ p ++
                    " is not allowed: storage.disk_location_roots is empty")
                else
                  .error ("disk location path " ++ p ++ " is not under an allowed root (" ++
                    Go.join ", " roots ++ ")")

/-- `ResolveDiskLocation`. -/
def resolveDiskLocation (s : StorageConfig) (location : String) : Except String DiskLocation :=
  let want := normalizeDiskLocationName location
  let path := isDiskLocationPath want
  match s.allDiskLocations.find? fun loc => (!path && loc.name == want) || (path && loc.path == want) with
  | some loc => .ok loc
  | none =>
      if path = false then
        .error ("disk location \"" ++ trimSpace location ++ "\" is not configured (known: " ++
          Go.join ", " (s.allDiskLocations.map (·.name)) ++ "; or pass an absolute directory path)")
      else (s.checkDiskLocationPath want).map fun () => { name := want, path := want }

end StorageConfig

end VMSmith.LocationText
