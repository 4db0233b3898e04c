/-
Image requests, interleaved.

The requests share the image bucket and the files; the VM manager's side of the world
may change by itself at any time.  A `ImageView` keeps what a request has been answered
about images and their files.
-/
import VMSmith.Lib.Pool
import VMSmith.Api.ImageHandlers

namespace VMSmith

open Go (Bytes)

/-- The requests that make an image. -/
inductive ImageRequest where
  | create (req : Api.CreateImageRequest)
  | upload (req : Api.UploadImageRequest)
  | importOVA (req : Api.ImportVMOVARequest)
  deriving DecidableEq, Repr

def ImageRequest.handler (d : Daemon) : ImageRequest → ImageM Unit
  | .create req => do
      let _ ← Api.createImage d req
      return ()
  | .upload req => do
      let _ ← Api.uploadImage d req
      return ()
  | .importOVA req => do
      let _ ← Api.importVMOVA d req
      return ()

/-- The name of the image the request makes. -/
def ImageRequest.imageName : ImageRequest → String
  | .create req => req.name
  | .upload req => req.imageName
  | .importOVA req => req.chosenName

inductive ImageOp where
  | make (req : ImageRequest)
  | update (id : String) (patch : Images.ImageUpdateSpec)
  | delete (id : String)
  deriving DecidableEq, Repr

namespace ImageOp

def body (d : Daemon) : ImageOp → ImageM Unit
  | .make req => req.handler d
  | .update id patch => do
      let _ ← Api.updateImage id patch
      return ()
  | .delete id => Api.deleteImage id

def makes : ImageOp → Bool
  | .make _ => true
  | _ => false

def updates : ImageOp → Bool
  | .update _ _ => true
  | _ => false

end ImageOp

/-! ### What a request has been answered -/

structure ImageView where
  /-- Where it has tried to write an image file. -/
  attempted : List HostPath := []
  /-- The files it has written. -/
  contents : List (HostPath × Bytes) := []
  /-- The sizes it has been told. -/
  sizes : List (HostPath × Nat) := []
  /-- The records it has stored. -/
  registered : List Image := []
  /-- The records it has read, each with the ID it asked for. -/
  fetched : List (String × Image) := []
  /-- The files it has removed. -/
  removed : List HostPath := []
  /-- The records it has deleted. -/
  dropped : List String := []
  /-- The records it could not delete. -/
  refused : List String := []
  deriving DecidableEq, Repr

/-- What one answer adds. -/
def ImageView.add (v : ImageView) : (c : ImageCmd) → c.Resp → ImageView
  | .convert _ _ p, .ok b =>
      { v with attempted := p :: v.attempted, contents := (p, b) :: v.contents }
  | .convert _ _ p, .error _ => { v with attempted := p :: v.attempted }
  | .writeFile p b, .ok _ =>
      { v with attempted := p :: v.attempted, contents := (p, b) :: v.contents }
  | .writeFile p _, .error _ => { v with attempted := p :: v.attempted }
  | .stat p, .ok n => { v with sizes := (p, n) :: v.sizes }
  | .putImage img, .ok _ => { v with registered := img :: v.registered }
  | .getImage id, .ok img => { v with fetched := (id, img) :: v.fetched }
  | .remove p, .ok _ => { v with removed := p :: v.removed }
  | .deleteImage id, .ok _ => { v with dropped := id :: v.dropped }
  | .deleteImage id, .error _ => { v with refused := id :: v.refused }
  | _, _ => v

abbrev ImageLog := Prog.Log ImageCmd ImageCmd.Resp

def ImageLog.view (log : ImageLog) : ImageView := Prog.Log.account ImageView.add {} log

/-- Image requests under way over one world. -/
abbrev ImageSys := Pool ImageOp ImageCmd ImageCmd.Resp Err Unit ImageWorld

abbrev ImageLabel := PoolLabel ImageOp ImageChoice World

abbrev ImageCall := Thread ImageOp ImageCmd ImageCmd.Resp Err Unit

def ImageCall.view (t : ImageCall) : ImageView := ImageLog.view t.log

namespace ImageSys

/-- Only the VM manager's side moves by itself. -/
def drift (e : World) (w : ImageWorld) : Option ImageWorld := some { w with vm := e }

def step (d : Daemon) : ImageSys → ImageLabel → Option ImageSys :=
  Pool.step (ImageOp.body d) ImageWorld.exec drift

/-- No images yet. -/
def init (files : HostPath → Option Bytes) (vm : World) : ImageSys :=
  { world := { files := files, vm := vm } }

end ImageSys

end VMSmith
