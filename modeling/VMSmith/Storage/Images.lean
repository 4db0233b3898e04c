/-
Images: a record in the store and a file in the images directory.

Three operations make one: an export of a VM's disk, an upload, and the disk of an
imported appliance.  Each writes the file first, under a path taken from the name it
was given, and stores the record afterwards under an ID taken from the clock.
Deleting removes the file of the record read, then the record; updating writes the
whole record back.

The appliance is unpacked in a directory of its own with a random name; what it
holds is not kept here, only where it lies.
-/
import VMSmith.Config
import VMSmith.Lib.Bytes
import VMSmith.System.World

namespace VMSmith

open Go (trimSpace Bytes)

structure Image where
  id : String
  name : String
  path : HostPath
  sizeBytes : Nat
  format : String := "qcow2"
  sourceVM : String := ""
  description : String := ""
  tags : List String := []
  createdAt : Nat
  updatedAt : Nat
  deriving DecidableEq, Repr

/-- What an appliance says about itself, and where its disk was unpacked. -/
structure UnpackedOVA where
  name : String := ""
  cpus : Nat := 0
  ramMB : Nat := 0
  diskGB : Nat := 0
  diskPath : HostPath := []
  deriving DecidableEq, Repr

inductive ImageCmd where
  | getImage (id : String)
  | putImage (img : Image)
  | deleteImage (id : String)
  /-- `qemu-img convert`; the answer holds what was written, which no program looks at. -/
  | convert (args : List String) (source destination : HostPath)
  /-- The size of the file. -/
  | stat (path : HostPath)
  | mkdirAll (path : HostPath)
  | writeFile (path : HostPath) (data : Bytes)
  | remove (path : HostPath)
  | removeAll (path : HostPath)
  /-- `os.CreateTemp`, `os.MkdirTemp`: the random name of what was made in `dir`. -/
  | createTemp (dir : HostPath) (pattern : String × String)
  | mkdirTemp (dir : HostPath) (pattern : String × String)
  /-- Extract an archive and read its descriptor. -/
  | unpackOVA (archive workDir : HostPath)
  | freeBytes (dir : HostPath)
  /-- A command of the VM manager. -/
  | vm (c : Cmd)
  deriving DecidableEq, Repr

@[reducible] def ImageCmd.Resp : ImageCmd → Type
  | .getImage _ => Except Err Image
  | .convert _ _ _ => Except Err Bytes
  | .stat _ => Except Err Nat
  | .createTemp _ _ => Except Err String
  | .mkdirTemp _ _ => Except Err String
  | .unpackOVA _ _ => Except Err UnpackedOVA
  | .freeBytes _ => Except Err Nat
  | .vm c => c.Resp
  | _ => Except Err Unit

/-- What the outside decides about one command. -/
structure ImageChoice where
  choice : Choice := {}
  /-- What a conversion writes. -/
  data : Bytes := []
  /-- What a failed write leaves behind, if it has touched the file. -/
  leftover : Option Bytes := none
  ova : UnpackedOVA := {}
  deriving DecidableEq, Repr

structure ImageWorld where
  images : Bucket String Image := Bucket.empty
  files : HostPath → Option Bytes := fun _ => none
  vm : World := {}

namespace ImageWorld

def setFile (w : ImageWorld) (p : HostPath) (b : Option Bytes) : ImageWorld :=
  { w with files := fun q => if q = p then b else w.files q }

/-- A write that failed, and may have left something of itself. -/
def setLeftover (w : ImageWorld) (x : ImageChoice) (p : HostPath) : ImageWorld :=
  match x.leftover with
  | none => w
  | some b => w.setFile p (some b)

def exec (c : ImageCmd) (x : ImageChoice) (w : ImageWorld) : Option (c.Resp × ImageWorld) :=
  match c with
  | .getImage id => fallible x.choice w <|
      match w.images.get? id with
      | some img => .ok (img, w)
      | none => .error (.ext ("images/" ++ id ++ ": not found"))
  | .putImage img => fallible x.choice w (.ok ((), { w with images := w.images.put img.id img }))
  | .deleteImage id => fallible x.choice w (.ok ((), { w with images := w.images.erase id }))
  | .convert _ _ p =>
      match x.choice.fail with
      | some e => some (.error e, w.setLeftover x p)
      | none => some (.ok x.data, w.setFile p (some x.data))
  | .stat p => fallible x.choice w <|
      match w.files p with
      | some b => .ok (b.length, w)
      | none => .error (.ext ("stat " ++ p.toText ++ ": no such file or directory"))
  | .mkdirAll _ => fallible x.choice w (.ok ((), w))
  | .writeFile p data =>
      match x.choice.fail with
      | some e => some (.error e, w.setLeftover x p)
      | none => some (.ok (), w.setFile p (some data))
  | .remove p => fallible x.choice w <|
      match w.files p with
      | some _ => .ok ((), w.setFile p none)
      | none => .error (.ext ("remove " ++ p.toText ++ ": no such file or directory"))
  | .removeAll p => fallible x.choice w <|
      .ok ((), { w with files := fun q => if q.within p then none else w.files q })
  | .createTemp dir pattern => fallible x.choice w <|
      let name := pattern.1 ++ x.choice.text ++ pattern.2
      match w.files (dir.join name) with
      | some _ => .error (.ext "no free name")
      | none => .ok (name, w.setFile (dir.join name) (some []))
  | .mkdirTemp _ pattern =>
      fallible x.choice w (.ok (pattern.1 ++ x.choice.text ++ pattern.2, w))
  | .unpackOVA _ _ => fallible x.choice w (.ok (x.ova, w))
  | .freeBytes _ => fallible x.choice w (.ok (x.choice.nat, w))
  | .vm c => (w.vm.exec c x.choice).map fun (r, v) => (r, { w with vm := v })

end ImageWorld

/-- A program of the image manager. -/
abbrev ImageM (α : Type) := Prog ImageCmd ImageCmd.Resp Err α

def imageCall (c : ImageCmd) : ImageM c.Resp := Prog.perform c

/-- A program of the VM manager, called from here. -/
def vmCall {α : Type} : M α → ImageM α
  | .ret a => .ret a
  | .throw e => .throw e
  | .call c k => .call (.vm c) fun r => vmCall (k r)

/-- Fail with the error, with context. -/
def wrapped {α : Type} (context : String) (r : Except Err α) : ImageM α :=
  Prog.ofExcept (r.mapError (.wrap context))

/-- Fail on a condition. -/
def refuseIf (c : Prop) [Decidable c] (e : Err) : ImageM Unit := if c then .throw e else .ret ()

/-- Deferred to the end of a part, however it ends. -/
def deferred {α : Type} (part : ImageM α) (last : ImageM Unit) : ImageM α := do
  let res ← part.attempt
  last
  Prog.ofExcept res

/-- Remove a file; nothing is said if that fails. -/
def removeQuietly (p : HostPath) : ImageM Unit := do
  let _ ← imageCall (.remove p)
  return ()

namespace Images

/-- `CreateImageOptions`. -/
structure CreateImageOptions where
  description : String := ""
  tags : List String := []
  deriving DecidableEq, Repr

/-- `ImageUpdateSpec`; absent tags mean no change. -/
structure ImageUpdateSpec where
  description : String := ""
  tags : Option (List String) := none
  deriving DecidableEq, Repr

/-- `OVAImportResult`. -/
structure OVAImportResult where
  image : Image
  name : String
  cpus : Nat
  ramMB : Nat
  diskGB : Nat
  deriving DecidableEq, Repr

def imageID (nanos : Nat) : String := "img-" ++ toString nanos

variable (cfg : StorageConfig)

/-- `ImagePath`. -/
def imagePath (name : String) : HostPath := cfg.imagesDir.resolve (name ++ ".qcow2")

/-- `CreateImage`. -/
def createImage (vmDiskPath : HostPath) (name sourceVM : String) (opts : CreateImageOptions) :
    ImageM Image := do
  let path := imagePath cfg name
  let _ ← imageCall (.convert ["-f", "qcow2", "-O", "qcow2", "-c"] vmDiskPath path)
    >>= wrapped "qemu-img convert"
  let size ← imageCall (.stat path) >>= Prog.ofExcept
  let now ← imageCall (.vm (.host .now))
  let img : Image := {
    id := imageID now
    name := name
    path := path
    sizeBytes := size
    sourceVM := sourceVM
    description := trimSpace opts.description
    tags := opts.tags
    createdAt := now
    updatedAt := now }
  imageCall (.putImage img) >>= Prog.ofExcept
  return img

/-- `DeleteImage`: whether the file could be removed does not matter. -/
def deleteImage (id : String) : ImageM Unit := do
  let img ← imageCall (.getImage id) >>= Prog.ofExcept
  removeQuietly img.path
  imageCall (.deleteImage id) >>= Prog.ofExcept

/-- The record with a patch applied. -/
def ImageUpdateSpec.apply (patch : ImageUpdateSpec) (img : Image) : Image :=
  { img with
    description :=
      if trimSpace patch.description = "" then img.description else trimSpace patch.description
    tags := patch.tags.getD img.tags }

/-- Whether a patch counts as a change of the record. -/
def ImageUpdateSpec.changes (patch : ImageUpdateSpec) (img : Image) : Bool :=
  (trimSpace patch.description ≠ "" && trimSpace patch.description ≠ img.description) ||
    patch.tags.isSome

/-- `UpdateImage`. -/
def updateImage (id : String) (patch : ImageUpdateSpec) : ImageM Image := do
  let img ← imageCall (.getImage id) >>= Prog.ofExcept
  if patch.changes img then do
    let img := { patch.apply img with updatedAt := ← imageCall (.vm (.host .now)) }
    imageCall (.putImage img) >>= Prog.ofExcept
    return img
  else return img

/-- Store the record, or take the file away again. -/
def registerOrRemove (img : Image) : ImageM Image := do
  match ← imageCall (.putImage img) with
  | .error e => do
      removeQuietly img.path
      .throw e
  | .ok () => return img

/-- `ImportImage`. -/
def importImage (name : String) (src : Bytes) (opts : CreateImageOptions) : ImageM Image := do
  imageCall (.mkdirAll cfg.imagesDir) >>= Prog.ofExcept
  let path := imagePath cfg name
  imageCall (.writeFile path src) >>= wrapped "writing image file"
  let now ← imageCall (.vm (.host .now))
  registerOrRemove {
    id := imageID now
    name := name
    path := path
    sizeBytes := src.length
    description := trimSpace opts.description
    tags := opts.tags
    createdAt := now
    updatedAt := now }

/-! ### Appliances -/

def ovaWorkRootPath : HostPath := cfg.baseDir.join ".ova-work"

/-- `OVAWorkRoot`. -/
def ovaWorkRoot : ImageM HostPath := do
  imageCall (.mkdirAll (ovaWorkRootPath cfg)) >>= wrapped "creating OVA work root"
  return ovaWorkRootPath cfg

/-- The disk of an unpacked appliance becomes an image. -/
def convertOVA (ovaPath : HostPath) (imageName : String) (ova : UnpackedOVA) : ImageM OVAImportResult := do
  imageCall (.mkdirAll cfg.imagesDir) >>= Prog.ofExcept
  let path := imagePath cfg imageName
  match ← imageCall (.stat path) with
  | .ok _ => .throw (.ext ("image \"" ++ imageName ++ "\" already exists"))
  | .error _ =>
  match ← imageCall (.convert ["-O", "qcow2"] ova.diskPath path) with
  | .error e => do
      -- a retry would find what is left of the file
      removeQuietly path
      .throw (.wrap "qemu-img convert to qcow2" e)
  | .ok _ => do
      let size ← imageCall (.stat path) >>= Prog.ofExcept
      let now ← imageCall (.vm (.host .now))
      let img ← registerOrRemove {
        id := imageID now
        name := imageName
        path := path
        sizeBytes := size
        description := "Imported from OVA (" ++ ovaPath.base ++ ")"
        createdAt := now
        updatedAt := now }
      return { image := img, name := ova.name, cpus := ova.cpus, ramMB := ova.ramMB, diskGB := ova.diskGB }

/-- `ImportOVA`. -/
def importOVA (ovaPath : HostPath) (imageName : String) : ImageM OVAImportResult := do
  let workRoot ← ovaWorkRoot cfg
  let name ← imageCall (.mkdirTemp workRoot ("import-", "")) >>= wrapped "creating import workdir"
  let workDir := workRoot.join name
  deferred
    (do
      let ova ← imageCall (.unpackOVA ovaPath workDir) >>= Prog.ofExcept
      convertOVA cfg ovaPath imageName ova)
    (do
      let _ ← imageCall (.removeAll workDir)
      return ())

end Images

end VMSmith
