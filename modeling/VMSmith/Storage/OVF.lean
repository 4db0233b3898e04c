/-
The descriptor of an appliance.

An export writes one for the VM, an import reads the VM's size and its disk file from
one it was handed.  Both share the struct model of the document; `Storage/OVFXml` is how
it is laid out as XML.  Quantities are the 64-bit integers of the source.
-/
import VMSmith.Lib.GoStrings
import VMSmith.Types.VM

namespace VMSmith.OVF

open Go (trimSpace toLower replaceAll)

/-! ### The struct model -/

/-- `ovfFile`. -/
structure File where
  href : String
  id : String
  size : Int64 := 0
  deriving DecidableEq

/-- `ovfDisk`. -/
structure Disk where
  capacity : String
  capacityAllocationUnits : String := ""
  diskID : String
  fileRef : String
  format : String := ""
  deriving DecidableEq

/-- `ovfDiskSection`. -/
structure DiskSection where
  info : String := ""
  disks : List Disk := []
  deriving DecidableEq

/-- `ovfNetwork`. -/
structure Network where
  name : String
  description : String := ""
  deriving DecidableEq

/-- `ovfNetworkSection`. -/
structure NetworkSection where
  info : String := ""
  networks : List Network := []
  deriving DecidableEq

/-- `ovfItem`. -/
structure Item where
  description : String := ""
  elementName : String := ""
  instanceID : String := ""
  resourceType : Int64
  virtualQuantity : Int64 := 0
  allocationUnits : String := ""
  hostResource : String := ""
  parent : String := ""
  connection : String := ""
  deriving DecidableEq

/-- `ovfHardwareSection`. -/
structure HardwareSection where
  info : String := ""
  items : List Item := []
  deriving DecidableEq

/-- `ovfVirtualSystem`. -/
structure VirtualSystem where
  id : String := ""
  info : String := ""
  name : String := ""
  hardwareSection : HardwareSection := {}
  deriving DecidableEq

/-- `ovfEnvelope`; `ovfReferences` is its list of files. -/
structure Envelope where
  xmlns : String := ""
  xmlnsOVF : String := ""
  xmlnsRasd : String := ""
  xmlnsVssd : String := ""
  references : List File := []
  diskSection : DiskSection := {}
  networkSection : NetworkSection := {}
  virtualSystem : VirtualSystem := {}
  deriving DecidableEq

/-! ### Units -/

/-- `normalizeUnits`. -/
def normalizeUnits (units : String) : String := replaceAll " " "" (toLower (trimSpace units))

/-- `memoryToMB`. -/
def memoryToMB (quantity : Int64) (units : String) : Int64 :=
  if normalizeUnits units = "byte*2^30" then quantity * 1024
  else if normalizeUnits units = "byte*2^10" then quantity / 1024
  else if normalizeUnits units = "byte" then quantity / (1024 * 1024)
  else quantity

/-- What is left of `capacityToGB` once the capacity is in bytes. -/
def bytesToGB (bytes : Int64) : Int64 :=
  let gb := bytes >>> 30
  let gb := if bytes &&& ((1 : Int64) <<< 30 - 1) ≠ 0 then gb + 1 else gb
  if gb < 1 then 1 else gb

/-- `capacityToGB`. -/
def capacityToGB (capacity : Int64) (units : String) : Int64 :=
  if normalizeUnits units = "byte*2^30" then if capacity < 1 then 1 else capacity
  else if normalizeUnits units = "byte*2^20" then bytesToGB (capacity <<< 20)
  else if normalizeUnits units = "byte*2^10" then bytesToGB (capacity <<< 10)
  else bytesToGB capacity

/-! ### Reading -/

/-- `firstNonEmpty`, of two values. -/
def firstNonEmpty (a b : String) : String :=
  if trimSpace a ≠ "" then trimSpace a else if trimSpace b ≠ "" then trimSpace b else ""

def resourceCPU : Int64 := 3
def resourceMemory : Int64 := 4
def resourceSCSICtl : Int64 := 6
def resourceNIC : Int64 := 10
def resourceDisk : Int64 := 17

/-- `OVAImportResult`, without the image. -/
structure ImportResult where
  name : String := ""
  cpus : Int64 := 0
  ramMB : Int64 := 0
  diskGB : Int64 := 0
  deriving DecidableEq

/-- What `parseOVFDescriptor` takes from one hardware item. -/
def readItem (result : ImportResult) (item : Item) : ImportResult :=
  if item.resourceType = resourceCPU then { result with cpus := item.virtualQuantity }
  else if item.resourceType = resourceMemory then
    { result with ramMB := memoryToMB item.virtualQuantity item.allocationUnits }
  else result

/-- What `parseOVFDescriptor` takes from the first disk. -/
def readDisk (result : ImportResult) (d : Disk) : ImportResult :=
  match Go.atoi d.capacity with
  | some capacity =>
      { result with diskGB := capacityToGB (.ofInt capacity) d.capacityAllocationUnits }
  | none => result

/-- The file that the first disk names, or the only one. -/
def diskHref (env : Envelope) : String :=
  let diskFileRef := (env.diskSection.disks.head?.map Disk.fileRef).getD ""
  if diskFileRef ≠ "" then
    ((env.references.find? (·.id = diskFileRef)).map File.href).getD ""
  else
    match env.references with
    | [f] => f.href
    | _ => ""

/-- `parseOVFDescriptor`, of a document that has been unmarshalled: the result and the disk
file it refers to. -/
def readEnvelope (env : Envelope) : ImportResult × String :=
  let result : ImportResult := { name := firstNonEmpty env.virtualSystem.name env.virtualSystem.id }
  let result := env.virtualSystem.hardwareSection.items.foldl readItem result
  let result :=
    match env.diskSection.disks with
    | d :: _ => readDisk result d
    | [] => result
  (result, diskHref env)

end VMSmith.OVF
