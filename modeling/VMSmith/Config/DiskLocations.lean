/-
Where VM disk directories can live: the configured locations, and any directory
that the path checks accept.
-/
import VMSmith.Config
import VMSmith.Types.VM

namespace VMSmith

open Go (trimSpace toLower)

/-- `DefaultDiskLocation`. -/
def defaultDiskLocation : String := "default"

/-- `deniedDiskLocationPrefixes`: the system trees. -/
def deniedDiskLocationPrefixes : List HostPath :=
  [["proc"], ["sys"], ["dev"], ["run"], ["boot"], ["etc"], ["usr"], ["bin"], ["sbin"], ["lib"],
    ["lib32"], ["lib64"], ["libx32"], ["var", "run"], ["var", "lock"]]

/-- `IsDiskLocationPath`. -/
def isDiskLocationPath (location : String) : Bool := (trimSpace location).toList.head? == some '/'

/-- `NormalizeDiskLocationName`. -/
def normalizeDiskLocationName (name : String) : String :=
  let name := trimSpace name
  if isDiskLocationPath name then HostPath.toText (HostPath.ofText name)
  else if toLower name = "" then defaultDiskLocation
  else toLower name

/-- `storedDiskLocationName`: the default location is stored as nothing. -/
def storedDiskLocationName (name : String) : String :=
  let name := normalizeDiskLocationName name
  if name = defaultDiskLocation then "" else name

namespace StorageConfig

/-- `AllDiskLocations`: the default one first. -/
def allDiskLocations (s : StorageConfig) : List DiskLocation :=
  ⟨defaultDiskLocation, s.baseDir⟩ :: s.diskLocations.map fun loc => ⟨trimSpace loc.name, loc.path⟩

/-- `CheckDiskLocationPath`, of a clean absolute path; it is trimmed and cleaned once more, which
takes a blank at its end away. -/
def checkDiskLocationPath (s : StorageConfig) (p : HostPath) : Except Err Unit :=
  let p := HostPath.ofText (trimSpace p.toText)
  let text := p.toText
  if p = [] then .error (.ext "disk location path must not be the filesystem root")
  else
    match deniedDiskLocationPrefixes.find? p.within with
    | some denied => .error (.ext
        ("disk location path " ++ text ++ " is inside the system directory " ++ denied.toText))
    | none =>
        if p.within s.imagesDir then
          .error (.ext ("disk location path " ++ text ++ " is inside storage.images_dir"))
        else
          match s.allDiskLocations.find? fun loc => loc.path ≠ p && p.within loc.path with
          | some loc => .error (.ext ("disk location path " ++ text ++ " is inside location \"" ++
              loc.name ++ "\" (" ++ loc.path.toText ++ "); use that location instead"))
          | none =>
              if s.diskLocationRoots.any p.within then .ok ()
              else if s.diskLocationRoots = [] then .error (.ext ("disk location path " ++ text ++
                " is not allowed: storage.disk_location_roots is empty"))
              else .error (.ext ("disk location path " ++ text ++ " is not under an allowed root (" ++
                Go.join ", " (s.diskLocationRoots.map HostPath.toText) ++ ")"))

/-- `ResolveDiskLocation` of an absolute path: a named location's own directory, or an
ad-hoc location named by its path. -/
def resolvePath (s : StorageConfig) (want : HostPath) : Except Err DiskLocation :=
  match s.allDiskLocations.find? fun loc => loc.path = want with
  | some loc => .ok loc
  | none => (s.checkDiskLocationPath want).map fun () => ⟨want.toText, want⟩

/-- `ResolveDiskLocation`. -/
def resolveDiskLocation (s : StorageConfig) (location : String) : Except Err DiskLocation :=
  let want := normalizeDiskLocationName location
  if isDiskLocationPath want then s.resolvePath (HostPath.ofText want)
  else
    match s.allDiskLocations.find? fun loc => loc.name = want with
    | some loc => .ok loc
    | none => .error (.ext ("disk location \"" ++ trimSpace location ++ "\" is not configured (known: " ++
        Go.join ", " (s.allDiskLocations.map DiskLocation.name) ++
        "; or pass an absolute directory path)"))

end StorageConfig

end VMSmith
