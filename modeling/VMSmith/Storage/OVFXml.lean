/-
The descriptor of an appliance as a document.

`marshal` lays the struct model out as elements and `unmarshal` takes it from them, both by
the tags of its fields.  The declarations of the prefixes are written and not read: a field
named with a prefix is no attribute's name without one.
-/
import VMSmith.Lib.XmlFields
import VMSmith.Storage.OVF

namespace VMSmith.OVF

open Xml (Elem Element omitEmpty omitZero formatInt readString readInt)

/-! ### Laying out -/

def File.marshal (f : File) : Elem :=
  .node "File" ([("href", f.href), ("id", f.id)] ++ omitZero f.size ("size", formatInt f.size)) []

def Disk.marshal (d : Disk) : Elem :=
  .node "Disk" ([("capacity", d.capacity)] ++
    omitEmpty d.capacityAllocationUnits ("capacityAllocationUnits", d.capacityAllocationUnits) ++
    [("diskId", d.diskID), ("fileRef", d.fileRef)] ++ omitEmpty d.format ("format", d.format)) []

def DiskSection.marshal (s : DiskSection) : Elem :=
  .node "DiskSection" [] (.leaf "Info" [] s.info :: s.disks.map Disk.marshal)

def Network.marshal (n : Network) : Elem :=
  .node "Network" [("name", n.name)] (omitEmpty n.description (.leaf "Description" [] n.description))

def NetworkSection.marshal (s : NetworkSection) : Elem :=
  .node "NetworkSection" [] (.leaf "Info" [] s.info :: s.networks.map Network.marshal)

def Item.marshal (i : Item) : Elem :=
  .node "Item" [] (omitEmpty i.description (.leaf "Description" [] i.description) ++
    omitEmpty i.elementName (.leaf "ElementName" [] i.elementName) ++
    omitEmpty i.instanceID (.leaf "InstanceID" [] i.instanceID) ++
    [.leaf "ResourceType" [] (formatInt i.resourceType)] ++
    omitZero i.virtualQuantity (.leaf "VirtualQuantity" [] (formatInt i.virtualQuantity)) ++
    omitEmpty i.allocationUnits (.leaf "AllocationUnits" [] i.allocationUnits) ++
    omitEmpty i.hostResource (.leaf "HostResource" [] i.hostResource) ++
    omitEmpty i.parent (.leaf "Parent" [] i.parent) ++
    omitEmpty i.connection (.leaf "Connection" [] i.connection))

def HardwareSection.marshal (s : HardwareSection) : Elem :=
  .node "VirtualHardwareSection" [] (.leaf "Info" [] s.info :: s.items.map Item.marshal)

def VirtualSystem.marshal (s : VirtualSystem) : Elem :=
  .node "VirtualSystem" [("id", s.id)] (.leaf "Info" [] s.info ::
    (omitEmpty s.name (.leaf "Name" [] s.name) ++ [s.hardwareSection.marshal]))

def Envelope.marshal (env : Envelope) : Elem :=
  .node "Envelope" (omitEmpty env.xmlns ("xmlns", env.xmlns) ++
    omitEmpty env.xmlnsOVF ("xmlns:ovf", env.xmlnsOVF) ++
    omitEmpty env.xmlnsRasd ("xmlns:rasd", env.xmlnsRasd) ++
    omitEmpty env.xmlnsVssd ("xmlns:vssd", env.xmlnsVssd))
    [.node "References" [] (env.references.map File.marshal), env.diskSection.marshal,
      env.networkSection.marshal, env.virtualSystem.marshal]

/-! ### Taking out -/

def File.unmarshal (e : Element) : Option File := do
  let size ← readInt (e.attr "size")
  some { href := readString (e.attr "href"), id := readString (e.attr "id"), size }

def Disk.unmarshal (e : Element) : Disk where
  capacity := readString (e.attr "capacity")
  capacityAllocationUnits := readString (e.attr "capacityAllocationUnits")
  diskID := readString (e.attr "diskId")
  fileRef := readString (e.attr "fileRef")
  format := readString (e.attr "format")

def DiskSection.unmarshal (e : Element) : DiskSection where
  info := readString (e.texts "Info")
  disks := (e.sub "Disk").map Disk.unmarshal

def Network.unmarshal (e : Element) : Network where
  name := readString (e.attr "name")
  description := readString (e.texts "Description")

def NetworkSection.unmarshal (e : Element) : NetworkSection where
  info := readString (e.texts "Info")
  networks := (e.sub "Network").map Network.unmarshal

def Item.unmarshal (e : Element) : Option Item := do
  let resourceType ← readInt (e.texts "ResourceType")
  let virtualQuantity ← readInt (e.texts "VirtualQuantity")
  some {
    description := readString (e.texts "Description")
    elementName := readString (e.texts "ElementName")
    instanceID := readString (e.texts "InstanceID")
    resourceType
    virtualQuantity
    allocationUnits := readString (e.texts "AllocationUnits")
    hostResource := readString (e.texts "HostResource")
    parent := readString (e.texts "Parent")
    connection := readString (e.texts "Connection") }

def HardwareSection.unmarshal (e : Element) : Option HardwareSection := do
  let items ← (e.sub "Item").mapM Item.unmarshal
  some { info := readString (e.texts "Info"), items }

def VirtualSystem.unmarshal (e : Element) : Option VirtualSystem := do
  let hardwareSection ← HardwareSection.unmarshal (e.whole "VirtualHardwareSection")
  some {
    id := readString (e.attr "id")
    info := readString (e.texts "Info")
    name := readString (e.texts "Name")
    hardwareSection }

/-- `Unmarshal`, into an envelope. -/
def Envelope.unmarshal (e : Element) : Option Envelope :=
  if Xml.localName e.name ≠ "Envelope" then none
  else do
    let references ← ((e.whole "References").sub "File").mapM File.unmarshal
    let virtualSystem ← VirtualSystem.unmarshal (e.whole "VirtualSystem")
    some {
      xmlns := readString (e.attr "xmlns")
      xmlnsOVF := readString (e.attr "xmlns:ovf")
      xmlnsRasd := readString (e.attr "xmlns:rasd")
      xmlnsVssd := readString (e.attr "xmlns:vssd")
      references
      diskSection := DiskSection.unmarshal (e.whole "DiskSection")
      networkSection := NetworkSection.unmarshal (e.whole "NetworkSection")
      virtualSystem }

/-! ### The descriptor -/

/-- What an export's descriptor says of a VM. -/
structure ExportedVM where
  name : String
  cpus : Int64
  ramMB : Int64
  diskGB : Int64
  deriving DecidableEq

/-- The hardware that `buildOVFDescriptor` lists. -/
def exportedItems (vm : ExportedVM) : List Item :=
  [ { description := "Number of Virtual CPUs"
      elementName := formatInt vm.cpus ++ " virtual CPU(s)"
      instanceID := "1"
      resourceType := resourceCPU
      virtualQuantity := vm.cpus
      allocationUnits := "hertz * 10^6" },
    { description := "Memory Size"
      elementName := formatInt vm.ramMB ++ "MB of memory"
      instanceID := "2"
      resourceType := resourceMemory
      virtualQuantity := vm.ramMB
      allocationUnits := "byte * 2^20" },
    { description := "SCSI Controller"
      elementName := "scsiController0"
      instanceID := "3"
      resourceType := resourceSCSICtl },
    { description := "Disk drive"
      elementName := "disk1"
      instanceID := "4"
      resourceType := resourceDisk
      hostResource := "ovf:/disk/vmdisk1"
      parent := "3" },
    { description := "Network adapter"
      elementName := "ethernet0"
      instanceID := "5"
      resourceType := resourceNIC
      connection := "nat" } ]

/-- The envelope that `buildOVFDescriptor` marshals. -/
def exportedEnvelope (vm : ExportedVM) (diskFileName : String) (diskFileSize : Int64) : Envelope :=
  let capacityGB := if vm.diskGB ≤ 0 then 1 else vm.diskGB
  { xmlns := "http://schemas.dmtf.org/ovf/envelope/1"
    xmlnsOVF := "http://schemas.dmtf.org/ovf/envelope/1"
    xmlnsRasd :=
      "http://schemas.dmtf.org/wbem/wscim/1/cim-schema/2/" ++ "CIM_ResourceAllocationSettingData"
    xmlnsVssd :=
      "http://schemas.dmtf.org/wbem/wscim/1/cim-schema/2/" ++ "CIM_VirtualSystemSettingData"
    references := [{ href := diskFileName, id := "file1", size := diskFileSize }]
    diskSection := {
      info := "Virtual disk information"
      disks := [{
        capacity := formatInt capacityGB
        capacityAllocationUnits := "byte * 2^30"
        diskID := "vmdisk1"
        fileRef := "file1"
        format := "http://www.vmware.com/interfaces/specifications/vmdk.html#streamOptimized" }] }
    networkSection := {
      info := "The list of logical networks"
      networks := [{ name := "nat", description := "VMSmith NAT network" }] }
    virtualSystem := {
      id := vm.name
      info := "Exported by VMSmith"
      name := vm.name
      hardwareSection := { info := "Virtual hardware requirements", items := exportedItems vm } } }

/-- `buildOVFDescriptor`. -/
def buildOVFDescriptor (vm : ExportedVM) (diskFileName : String) (diskFileSize : Int64) :
    List Char :=
  Xml.encode (exportedEnvelope vm diskFileName diskFileSize).marshal

/-- `parseOVFDescriptor`: the result and the disk file the descriptor refers to. -/
def parseOVFDescriptor (descriptor : List Char) : Option (ImportResult × String) := do
  let e ← Xml.decode descriptor
  let env ← Envelope.unmarshal e
  some (readEnvelope env)

end VMSmith.OVF
