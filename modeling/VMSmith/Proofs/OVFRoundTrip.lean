/-
An export's descriptor is read as it was written.

The struct model comes back field by field, and what a field may leave out is what it is
without a value; only the declarations of the prefixes are lost.  So what an import reads is
what the reader makes of the envelope that was marshalled, with the characters replaced that
a document does not have.  The name and the numbers have none of these, which leaves the disk
file's name: it comes back where a document can have it.
-/
import VMSmith.Api.Handlers
import VMSmith.Storage.OVFXml

namespace VMSmith.OVF

open Xml

/-! ### The struct model -/

/-- A file as it is read back; likewise below. -/
def File.received (f : File) : File := { f with href := clean f.href, id := clean f.id }

def Disk.received (d : Disk) : Disk where
  capacity := clean d.capacity
  capacityAllocationUnits := clean d.capacityAllocationUnits
  diskID := clean d.diskID
  fileRef := clean d.fileRef
  format := clean d.format

def DiskSection.received (s : DiskSection) : DiskSection where
  info := clean s.info
  disks := s.disks.map Disk.received

def Network.received (n : Network) : Network where
  name := clean n.name
  description := clean n.description

def NetworkSection.received (s : NetworkSection) : NetworkSection where
  info := clean s.info
  networks := s.networks.map Network.received

def Item.received (i : Item) : Item where
  description := clean i.description
  elementName := clean i.elementName
  instanceID := clean i.instanceID
  resourceType := i.resourceType
  virtualQuantity := i.virtualQuantity
  allocationUnits := clean i.allocationUnits
  hostResource := clean i.hostResource
  parent := clean i.parent
  connection := clean i.connection

def HardwareSection.received (s : HardwareSection) : HardwareSection where
  info := clean s.info
  items := s.items.map Item.received

def VirtualSystem.received (s : VirtualSystem) : VirtualSystem where
  id := clean s.id
  info := clean s.info
  name := clean s.name
  hardwareSection := s.hardwareSection.received

def Envelope.received (env : Envelope) : Envelope where
  xmlns := clean env.xmlns
  references := env.references.map File.received
  diskSection := env.diskSection.received
  networkSection := env.networkSection.received
  virtualSystem := env.virtualSystem.received

section

variable (depth : Nat)

theorem File.unmarshal_marshal (f : File) :
    File.unmarshal (f.marshal.read depth) = some f.received := by
  simp +decide [File.unmarshal, File.marshal, File.received, attr_read, filter_omitZero,
    map_omitZero]

theorem Disk.unmarshal_marshal (d : Disk) :
    Disk.unmarshal (d.marshal.read depth) = d.received := by
  simp +decide [Disk.unmarshal, Disk.marshal, Disk.received, attr_read, filter_omitEmpty,
    map_omitEmpty]

theorem Network.unmarshal_marshal (n : Network) :
    Network.unmarshal (n.marshal.read depth) = n.received := by
  simp +decide [Network.unmarshal, Network.marshal, Network.received, attr_read, sub_read,
    Element.texts, filter_omitEmpty, map_omitEmpty, text_leaf]

theorem Item.unmarshal_marshal (i : Item) :
    Item.unmarshal (i.marshal.read depth) = some i.received := by
  simp +decide [Item.unmarshal, Item.marshal, Item.received, sub_read, Element.texts,
    filter_omitEmpty, filter_omitZero, map_omitEmpty, map_omitZero, text_leaf]

theorem DiskSection.unmarshal_marshal (s : DiskSection) :
    DiskSection.unmarshal (s.marshal.read depth) = s.received := by
  have hdisk : Disk.unmarshal ∘ Elem.read (depth + 1) ∘ Disk.marshal = Disk.received :=
    funext fun d => Disk.unmarshal_marshal (depth + 1) d
  simp +decide [DiskSection.unmarshal, DiskSection.marshal, DiskSection.received, sub_read,
    Element.texts, filter_slice _ Disk.marshal "Disk" (fun _ => rfl), text_leaf, hdisk]

theorem NetworkSection.unmarshal_marshal (s : NetworkSection) :
    NetworkSection.unmarshal (s.marshal.read depth) = s.received := by
  have hnetwork : Network.unmarshal ∘ Elem.read (depth + 1) ∘ Network.marshal = Network.received :=
    funext fun n => Network.unmarshal_marshal (depth + 1) n
  simp +decide [NetworkSection.unmarshal, NetworkSection.marshal, NetworkSection.received, sub_read,
    Element.texts, filter_slice _ Network.marshal "Network" (fun _ => rfl), text_leaf,
    hnetwork]

theorem HardwareSection.unmarshal_marshal (s : HardwareSection) :
    HardwareSection.unmarshal (s.marshal.read depth) = some s.received := by
  have hitems := mapM_read (depth + 1) (Item.unmarshal_marshal (depth + 1)) s.items
  have hsub : (s.marshal.read depth).sub "Item" =
      (s.items.map Item.marshal).map (Elem.read (depth + 1)) := by
    simp +decide [HardwareSection.marshal, sub_read,
      filter_slice _ Item.marshal "Item" (fun _ => rfl)]
  have hinfo : (s.marshal.read depth).texts "Info" = [clean s.info] := by
    simp +decide [HardwareSection.marshal, sub_read, Element.texts,
      filter_slice _ Item.marshal "Item" (fun _ => rfl), text_leaf]
  rw [HardwareSection.unmarshal, hsub, hitems, hinfo]
  rfl

theorem VirtualSystem.unmarshal_marshal (s : VirtualSystem) :
    VirtualSystem.unmarshal (s.marshal.read depth) = some s.received := by
  have hsub : (s.marshal.read depth).sub "VirtualHardwareSection" =
      [s.hardwareSection.marshal.read (depth + 1)] := by
    simp +decide [VirtualSystem.marshal, sub_read, filter_omitEmpty, HardwareSection.marshal]
  have hwhole : (s.marshal.read depth).whole "VirtualHardwareSection" =
      s.hardwareSection.marshal.read (depth + 1) := whole_of_sub _ hsub rfl
  have hid : (s.marshal.read depth).attr "id" = [clean s.id] := by
    simp +decide [VirtualSystem.marshal, attr_read]
  have hinfo : (s.marshal.read depth).texts "Info" = [clean s.info] := by
    simp +decide [VirtualSystem.marshal, sub_read, Element.texts, filter_omitEmpty,
      HardwareSection.marshal, text_leaf]
  have hname : readString ((s.marshal.read depth).texts "Name") = clean s.name := by
    simp +decide [VirtualSystem.marshal, sub_read, Element.texts, filter_omitEmpty, map_omitEmpty,
      HardwareSection.marshal, text_leaf]
  rw [VirtualSystem.unmarshal, hwhole, HardwareSection.unmarshal_marshal, hid, hinfo, hname]
  rfl

/-- An envelope is taken out as it was laid out, but for the declarations of the prefixes. -/
theorem Envelope.unmarshal_marshal (env : Envelope) :
    Envelope.unmarshal (env.marshal.read depth) = some env.received := by
  have hsub : ∀ name, (env.marshal.read depth).sub name =
      (([.node "References" [] (env.references.map File.marshal), env.diskSection.marshal,
        env.networkSection.marshal, env.virtualSystem.marshal] : List Elem).filter
          fun c => localName c.name = name).map (Elem.read (depth + 1)) :=
    fun name => sub_read depth name _ _ _
  have hnames : env.diskSection.marshal.name = "DiskSection" ∧
      env.networkSection.marshal.name = "NetworkSection" ∧
      env.virtualSystem.marshal.name = "VirtualSystem" := ⟨rfl, rfl, rfl⟩
  have hreferences : (env.marshal.read depth).whole "References" =
      (Elem.node "References" [] (env.references.map File.marshal)).read (depth + 1) :=
    whole_of_sub _ (by simp +decide [hsub, hnames]) rfl
  have hdisk : (env.marshal.read depth).whole "DiskSection" =
      env.diskSection.marshal.read (depth + 1) := whole_of_sub _ (by simp +decide [hsub, hnames]) rfl
  have hnetwork : (env.marshal.read depth).whole "NetworkSection" =
      env.networkSection.marshal.read (depth + 1) := whole_of_sub _ (by simp +decide [hsub, hnames]) rfl
  have hsystem : (env.marshal.read depth).whole "VirtualSystem" =
      env.virtualSystem.marshal.read (depth + 1) := whole_of_sub _ (by simp +decide [hsub, hnames]) rfl
  have hfiles : ((env.marshal.read depth).whole "References").sub "File" =
      (env.references.map File.marshal).map (Elem.read (depth + 2)) := by
    rw [hreferences]
    simp +decide [sub_read, filter_slice _ File.marshal "File" (fun _ => rfl)]
  have hxmlns : readString ((env.marshal.read depth).attr "xmlns") = clean env.xmlns := by
    rw [Envelope.marshal, attr_read]
    simp +decide [filter_omitEmpty, map_omitEmpty]
  have hprefixed : ∀ name ∈ ["xmlns:ovf", "xmlns:rasd", "xmlns:vssd"],
      (env.marshal.read depth).attr name = [] := by
    intro name hname
    simp only [List.mem_cons, List.not_mem_nil, or_false] at hname
    rw [Envelope.marshal, attr_read]
    rcases hname with rfl | rfl | rfl <;> simp +decide [filter_omitEmpty]
  have hroot : localName (env.marshal.read depth).name = "Envelope" := by
    rw [name_read]
    show localName "Envelope" = _
    decide
  rw [Envelope.unmarshal, if_neg (not_not.mpr hroot), hfiles,
    mapM_read _ (File.unmarshal_marshal (depth + 2)), hdisk, hnetwork, hsystem,
    DiskSection.unmarshal_marshal, NetworkSection.unmarshal_marshal,
    VirtualSystem.unmarshal_marshal, hxmlns, hprefixed _ (by simp), hprefixed _ (by simp),
    hprefixed _ (by simp)]
  rfl

end

/-! ### The document -/

theorem File.named_marshal (f : File) : f.marshal.named = true := by
  simp +decide [File.marshal, Elem.named, namedAll, all_omitZero]

theorem Disk.named_marshal (d : Disk) : d.marshal.named = true := by
  simp +decide [Disk.marshal, Elem.named, namedAll, all_omitEmpty]

theorem Network.named_marshal (n : Network) : n.marshal.named = true := by
  simp +decide [Network.marshal, Elem.named, namedAll_eq, all_omitEmpty]

theorem Item.named_marshal (i : Item) : i.marshal.named = true := by
  simp +decide [Item.marshal, Elem.named, namedAll_eq, all_omitEmpty, all_omitZero]

theorem Envelope.named_marshal (env : Envelope) : env.marshal.named = true := by
  simp +decide [Envelope.marshal, DiskSection.marshal, NetworkSection.marshal,
    VirtualSystem.marshal, HardwareSection.marshal, Elem.named, namedAll_eq, all_omitEmpty,
    File.named_marshal, Disk.named_marshal, Network.named_marshal, Item.named_marshal]

/-- What an import reads of an export's descriptor. -/
theorem parse_build_envelope (vm : ExportedVM) (diskFileName : String) (diskFileSize : Int64) :
    parseOVFDescriptor (buildOVFDescriptor vm diskFileName diskFileSize) =
      some (readEnvelope (exportedEnvelope vm diskFileName diskFileSize).received) := by
  have h := decode_encode (Envelope.named_marshal (exportedEnvelope vm diskFileName diskFileSize))
  unfold parseOVFDescriptor buildOVFDescriptor
  rw [h]
  show (Envelope.unmarshal _).bind _ = _
  rw [Envelope.unmarshal_marshal]
  rfl

/-! ### What an export says -/

theorem clean_formatInt (n : Int64) : clean (formatInt n) = formatInt n :=
  clean_eq_self (List.all_eq_true.mpr fun _ hc => (formatInt_digits hc).1)

theorem atoi_formatInt (n : Int64) : Go.atoi (formatInt n) = some n.toInt :=
  Go.atoi_toString_int ⟨n.le_toInt, n.toInt_lt⟩

theorem memoryToMB_received (quantity : Int64) :
    memoryToMB quantity (clean "byte * 2^20") = quantity := by
  rw [clean_eq_self (by decide)]
  unfold memoryToMB
  rw [if_neg (by decide), if_neg (by decide), if_neg (by decide)]

theorem capacityToGB_received (capacity : Int64) :
    capacityToGB capacity (clean "byte * 2^30") = if capacity < 1 then 1 else capacity := by
  rw [clean_eq_self (by decide)]
  unfold capacityToGB
  rw [if_pos (by decide)]

theorem readEnvelope_disk {env : Envelope} {d : Disk} {ds : List Disk}
    (h : env.diskSection.disks = d :: ds) :
    readEnvelope env = (readDisk (env.virtualSystem.hardwareSection.items.foldl readItem
      { name := firstNonEmpty env.virtualSystem.name env.virtualSystem.id }) d, diskHref env) := by
  simp only [readEnvelope, h]

theorem readDisk_received (result : ImportResult) {d : Disk} {capacity : Int64}
    (hcapacity : d.capacity = formatInt capacity)
    (hunits : d.capacityAllocationUnits = "byte * 2^30") :
    readDisk result d.received = { result with diskGB := if capacity < 1 then 1 else capacity } := by
  rw [readDisk, Disk.received, hcapacity, hunits, clean_formatInt, atoi_formatInt]
  simp only [capacityToGB_received, Int64.ofInt_toInt]

/-- A VM's name has no white space, and nothing that a document cannot have. -/
theorem name_received {name : String} (h : Api.validateVMName name = .ok ()) :
    firstNonEmpty (clean name) (clean name) = name := by
  have hne : name ≠ "" := by
    intro heq
    rw [Api.validateVMName, if_pos heq] at h
    cases h
  have hchars : ∀ c ∈ name.toList, legal c = true ∧ Go.isSpace c = false := by
    intro c hc
    have hre : Api.vmNameRe name = true := by
      by_contra hno
      rw [Api.validateVMName, if_neg hne, if_pos hno] at h
      cases h
    simp only [Api.vmNameRe, Bool.and_eq_true, List.all_eq_true] at hre
    rcases Bool.or_eq_true_iff.mp (hre.1.1.2 c hc) with halnum | hhyphen
    · have hranges : ((decide ('A'.val ≤ c.val ∧ c.val ≤ 'Z'.val) ||
          'a'.val ≤ c.val && c.val ≤ 'z'.val) || '0'.val ≤ c.val && c.val ≤ '9'.val) = true := halnum
      have hcode : 0x20 < c.toNat ∧ c.toNat < 0x7F := by
        simp only [Bool.or_eq_true, Bool.and_eq_true, decide_eq_true_eq,
          UInt32.le_iff_toNat_le] at hranges
        simp at hranges
        omega
      exact plain_code hcode
    · rw [beq_iff_eq] at hhyphen
      rw [hhyphen]
      decide
  have hclean : clean name = name :=
    clean_eq_self (List.all_eq_true.mpr fun c hc => (hchars c hc).1)
  have htrim : Go.trimSpace name = name := by
    have htext := Go.trimSpace_eq_self fun c hc => (hchars c hc).2
    rwa [String.ofList_toList] at htext
  rw [hclean, firstNonEmpty, htrim, if_pos hne]

/-- An import of what was exported: the same name and size, and the disk's file. -/
theorem parse_build (vm : ExportedVM) (hname : Api.validateVMName vm.name = .ok ())
    (diskFileName : String) (diskFileSize : Int64) :
    parseOVFDescriptor (buildOVFDescriptor vm diskFileName diskFileSize) =
      some ({ name := vm.name, cpus := vm.cpus, ramMB := vm.ramMB,
              diskGB := if vm.diskGB ≤ 0 then 1 else vm.diskGB }, clean diskFileName) := by
  rw [parse_build_envelope]
  have hitems : ∀ name, ((exportedItems vm).map Item.received).foldl readItem { name } =
      { name, cpus := vm.cpus, ramMB := vm.ramMB } := by
    intro name
    simp +decide [exportedItems, Item.received, readItem, memoryToMB_received]
  have hhref : diskHref (exportedEnvelope vm diskFileName diskFileSize).received =
      clean diskFileName := by
    simp +decide [diskHref, exportedEnvelope, Envelope.received, DiskSection.received,
      Disk.received, File.received]
  have hcapacity : (if (if vm.diskGB ≤ 0 then 1 else vm.diskGB) < 1 then (1 : Int64)
      else if vm.diskGB ≤ 0 then 1 else vm.diskGB) = if vm.diskGB ≤ 0 then 1 else vm.diskGB := by
    by_cases h : vm.diskGB ≤ 0
    · rw [if_pos h]
      rfl
    · rw [if_neg h, if_neg]
      rw [Int64.lt_iff_toInt_lt, Int64.toInt_one]
      rw [Int64.le_iff_toInt_le, Int64.toInt_zero] at h
      omega
  have hhardware : ∀ env : Envelope, env.received.virtualSystem.hardwareSection.items =
      env.virtualSystem.hardwareSection.items.map Item.received := fun _ => rfl
  have hsystem : ∀ env : Envelope, env.received.virtualSystem.name = clean env.virtualSystem.name ∧
      env.received.virtualSystem.id = clean env.virtualSystem.id := fun _ => ⟨rfl, rfl⟩
  have hnames : (exportedEnvelope vm diskFileName diskFileSize).virtualSystem.name = vm.name ∧
      (exportedEnvelope vm diskFileName diskFileSize).virtualSystem.id = vm.name := ⟨rfl, rfl⟩
  have hlisted : (exportedEnvelope vm diskFileName diskFileSize).virtualSystem.hardwareSection.items =
      exportedItems vm := rfl
  rw [readEnvelope_disk rfl, hhardware, (hsystem _).1, (hsystem _).2, hnames.1, hnames.2, hlisted,
    name_received hname, hitems, hhref, readDisk_received _ rfl rfl, hcapacity]

theorem parse_build_web :
    parseOVFDescriptor (buildOVFDescriptor { name := "web-1", cpus := 4, ramMB := 8192, diskGB := 0 }
      "web <1>.vmdk" 77) =
      some ({ name := "web-1", cpus := 4, ramMB := 8192, diskGB := 1 }, "web <1>.vmdk") := by
  have h := parse_build { name := "web-1", cpus := 4, ramMB := 8192, diskGB := 0 } (by decide)
    "web <1>.vmdk" 77
  rwa [clean_eq_self (by decide)] at h

/-- Whatever document an envelope is laid out as, it is the envelope that is taken from it. -/
theorem envelope_round_trip (env : Envelope) :
    (decode (encode env.marshal)).bind Envelope.unmarshal = some env.received := by
  rw [decode_encode (Envelope.named_marshal env), Option.bind_some, Envelope.unmarshal_marshal]

end VMSmith.OVF
