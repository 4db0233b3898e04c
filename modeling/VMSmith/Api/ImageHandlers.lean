/-
The request handlers that make, change and delete images.

The name of a new image comes from the request: given outright, taken from the name
of an uploaded file, or made from the name of the VM to be imported.
-/
import VMSmith.Storage.Images
import VMSmith.Api.Handlers
import VMSmith.Api.Validation

namespace VMSmith.Api

open Go (Bytes trimSpace toLower)

variable (d : Daemon)

/-! ### Checks -/

/-- `validateCreateImageRequest`. -/
def validateCreateImageRequest (vmID name : String) : Except Err Unit :=
  if trimSpace vmID = "" then .error (.api "invalid_spec" "vm_id is required")
  else if trimSpace name = "" then .error (.api "invalid_image" "image name is required")
  else .ok ()

/-- `validateImageDescription`. -/
def validateImageDescription (description : String) : Except Err Unit :=
  if 1024 < description.utf8ByteSize then
    .error (.api "invalid_spec" "description must be 1024 characters or fewer")
  else .ok ()

/-- `parseTagFormValues`. -/
def parseTagFormValues (values : List String) : List String :=
  values.flatMap fun v =>
    ((v.toList.splitOn ',').map fun part => trimSpace (String.ofList part)).filter (· ≠ "")

/-- `validateUploadedImage`. -/
def validateUploadedImage (filename : String) (data : Bytes) : Except Err Unit :=
  let trimmedName := trimSpace filename
  if trimmedName = "" then .error (.api "invalid_image" "uploaded filename is required")
  else if toLower (Go.ext trimmedName) ≠ ".qcow2" then
    .error (.api "invalid_image" "uploaded file must have a .qcow2 extension")
  else if data = [] then .error (.api "invalid_image" "uploaded image file cannot be empty")
  else .ok ()

/-- `validateVMSpec`, of a spec with a name, an image and sizes only. -/
def validateImportedSpec (spec : VMSpec) : Except Err Unit := do
  validateVMName (trimSpace spec.name)
  if trimSpace spec.image = "" then .error (.api "invalid_image" "image is required")
  validateOptionalVMResourceValue spec.cpus 1 128 "cpus"
  validateOptionalVMResourceValue spec.ramMB 128 (1024 * 1024) "ram_mb"
  validateOptionalVMResourceValue spec.diskGB 1 (1024 * 10) "disk_gb"

/-! ### Requests -/

structure CreateImageRequest where
  vmID : String
  name : String
  description : String := ""
  tags : List String := []
  deriving DecidableEq, Repr

/-- A parsed upload form. -/
structure UploadImageRequest where
  name : String := ""
  filename : String
  data : Bytes
  description : String := ""
  tags : List String := []
  deriving DecidableEq, Repr

/-- A parsed import form. -/
structure ImportVMOVARequest where
  filename : String
  name : String := ""
  imageName : String := ""
  defaultUser : String := ""
  deriving DecidableEq, Repr

/-- The name an upload is stored under: the one given, or that of the file. -/
def UploadImageRequest.imageName (req : UploadImageRequest) : String :=
  let name := trimSpace req.name
  if name ≠ "" then name
  else
    let filename := trimSpace req.filename
    let ext := Go.ext filename
    if ext ≠ "" then trimSpace (Go.trimSuffix filename ext) else filename

/-- `importImageName`. -/
def importImageName (imageName vmName filename : String) : String :=
  if imageName ≠ "" then imageName
  else if vmName ≠ "" then vmName ++ "-ova"
  else trimSpace (Go.trimSuffix (Go.base filename) (Go.ext filename)) ++ "-ova"

/-- The name the disk of an appliance is stored under. -/
def ImportVMOVARequest.chosenName (req : ImportVMOVARequest) : String :=
  importImageName (trimSpace req.imageName) (trimSpace req.name) req.filename

/-- `publishAppEvent`, from an image handler. -/
def publishImageEvent (type vmID message : String) (attributes : List (String × String)) :
    ImageM Unit := vmCall (publishAppEvent type vmID message attributes)

def imageAttributes (img : Image) : List (String × String) :=
  [("image_id", img.id), ("image_name", img.name)]

/-- `CreateImage`. -/
def createImage (req : CreateImageRequest) : ImageM Image := do
  Prog.ofExcept (validateCreateImageRequest req.vmID req.name)
  Prog.ofExcept (validateImageDescription req.description)
  let tags ← Prog.ofExcept (normalizeTags req.tags)
  let vm ← vmCall (Manager.get req.vmID)
  let img ← Images.createImage d.cfg.storage vm.diskPath req.name vm.id
    { description := req.description, tags := tags }
  publishImageEvent "image.created" vm.id ("image " ++ img.name ++ " created from VM " ++ vm.name)
    (imageAttributes img)
  return img

/-- `UploadImage`. -/
def uploadImage (req : UploadImageRequest) : ImageM Image := do
  let name := req.imageName
  refuseIf (name = "") (.api "invalid_image" "image name is required")
  let description := trimSpace req.description
  Prog.ofExcept (validateImageDescription description)
  let tags ← Prog.ofExcept (normalizeTags (parseTagFormValues req.tags))
  Prog.ofExcept (validateUploadedImage req.filename req.data)
  let free ← imageCall (.freeBytes (Images.imagePath d.cfg.storage name).dir)
    >>= wrapped "checking available storage"
  refuseIf (free < req.data.length)
    (.api "insufficient_storage" "not enough free disk space for uploaded image")
  let img ← Images.importImage d.cfg.storage name req.data
    { description := description, tags := tags }
  publishImageEvent "image.uploaded" "" ("image " ++ img.name ++ " uploaded") (imageAttributes img)
  return img

/-- `UpdateImage`. -/
def updateImage (id : String) (patch : Images.ImageUpdateSpec) : ImageM Image := do
  Prog.ofExcept (validateImageDescription patch.description)
  let tags ← Prog.ofExcept (normalizeTags (patch.tags.getD []))
  let img ← Images.updateImage id { patch with tags := patch.tags.map fun _ => tags }
  publishImageEvent "image.updated" "" ("image " ++ img.name ++ " metadata updated")
    (imageAttributes img)
  return img

/-- `DeleteImage`. -/
def deleteImage (id : String) : ImageM Unit := do
  Images.deleteImage id
  publishImageEvent "image.deleted" "" ("image " ++ id ++ " deleted") [("image_id", id)]

/-- The VM an appliance is imported as. -/
def importedSpec (req : ImportVMOVARequest) (result : Images.OVAImportResult) : VMSpec where
  name := if trimSpace req.name = "" then result.name else trimSpace req.name
  image := result.image.name
  cpus := result.cpus
  ramMB := result.ramMB
  diskGB := result.diskGB
  description := "Imported from " ++ Go.base req.filename

/-- The VM of an imported appliance. -/
def createImported (spec : VMSpec) : M VM := do
  orFail (validateImportedSpec spec)
  let existing ← Manager.list
  orFail (validateUniqueVMName spec.name existing)
  hostCall (.enforceCreateQuotas spec) >>= orFail
  let slot ← hostCall .acquireCreateSlot
  failIf (slot = false) (.api "create_limit_reached"
    "too many VM create operations in progress; retry once an existing create finishes")
  Manager.create d spec

/-- Make the VM of an imported appliance, or delete its image again. -/
def createOrCleanup (req : ImportVMOVARequest) (result : Images.OVAImportResult) : ImageM VM := do
  let spec := importedSpec req result
  match ← (vmCall (createImported d spec)).attempt with
  | .error e => do
      let _ ← (Images.deleteImage result.image.id).attempt
      .throw e
  | .ok vm => do
      publishImageEvent "vm.imported" vm.id ("VM \"" ++ vm.name ++ "\" imported from OVA")
        [("name", vm.name), ("image", result.image.name)]
      return vm

/-- `ImportVMOVA`. -/
def importVMOVA (req : ImportVMOVARequest) : ImageM VM := do
  refuseIf (¬ Go.hasSuffix (toLower (trimSpace req.filename)) ".ova")
    (.api "invalid_ova" "uploaded file must have a .ova extension")
  let spoolDir ← Images.ovaWorkRoot d.cfg.storage
  let spool ← imageCall (.createTemp spoolDir ("upload-", ".ova"))
    >>= wrapped "creating upload spool"
  deferred
    (do
      let result ← Images.importOVA d.cfg.storage (spoolDir.join spool) req.chosenName
      createOrCleanup d req result)
    (removeQuietly (spoolDir.join spool))

end VMSmith.Api
