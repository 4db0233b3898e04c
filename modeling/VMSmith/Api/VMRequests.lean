/-
What the API makes of a request to update a VM.

The patch is checked field by field and then put into normal form.  Three fields of a request
are left out here: it may name them only to be refused.
-/
import VMSmith.Api.Validation
import VMSmith.Lib.CIDR

namespace VMSmith.Api

open Go (trimSpace toLower)

/-- `validateCIDR`. -/
def validateCIDR (value field : String) : Except Err Unit :=
  rejectIf (Net.parseCIDR value = none) (.api "invalid_spec"
    (field ++ " must be valid CIDR notation, e.g. 192.168.100.50/24"))

/-- A word that is empty or one of two. -/
def validateWord (a b v : String) (code field : String) : Except Err Unit :=
  let word := toLower (trimSpace v)
  rejectIf (word ≠ "" ∧ word ≠ a ∧ word ≠ b)
    (.api code (field ++ " must be \"" ++ a ++ "\" or \"" ++ b ++ "\""))

def validateClockOffset (v : String) : Except Err Unit :=
  validateWord "utc" "localtime" v "invalid_clock_offset" "clock_offset"

def validateDiskBus (v : String) : Except Err Unit :=
  validateWord "virtio" "sata" v "invalid_disk_bus" "disk_bus"

def validateNICModel (v : String) : Except Err Unit :=
  validateWord "virtio" "e1000e" v "invalid_nic_model" "nic_model"

def validateVNCPassword (v : String) : Except Err Unit :=
  rejectIf (64 < v.utf8ByteSize) (.api "invalid_vnc_password"
    "vnc_password must be at most 64 characters (QEMU honours only the first 8)")

def validateVMUpdateSpec (patch : VMUpdateSpec) : Except Err Unit := do
  rejectIf (patch.installISO.any (trimSpace · ≠ "")) (.api "invalid_install_iso"
    "install_iso can only be cleared (ejected) after creation; send \"install_iso\": \"\"")
  validateOptionalVMResourceValue patch.cpus 1 128 "cpus"
  validateOptionalVMResourceValue patch.ramMB 128 (1024 * 1024) "ram_mb"
  validateOptionalVMResourceValue patch.diskGB 1 (1024 * 10) "disk_gb"
  if patch.natStaticIP = "" then .ok () else validateCIDR patch.natStaticIP "nat_static_ip"
  rejectIf (patch.natGateway ≠ "" ∧ Net.parseAddr patch.natGateway.toList = none)
    (.api "invalid_spec" "nat_gateway must be a valid IP address")
  patchField patch.clockOffset validateClockOffset ()
  patchField patch.diskBus validateDiskBus ()
  patchField patch.nicModel validateNICModel ()
  patchField patch.vncPassword validateVNCPassword ()
  let _ ← normalizeTags (patch.tags.getD [])

/-- The patch that `UpdateVM` hands to the manager.  Tags are put into normal form, and of no
tags nothing is left: an empty list is a nil one. -/
def readVMUpdate (patch : VMUpdateSpec) : Except Err VMUpdateSpec := do
  validateVMUpdateSpec patch
  let tags ← normalizeTags (patch.tags.getD [])
  return { patch with
    tags := if tags = [] then none else some tags
    description := trimSpace patch.description }

end VMSmith.Api
