/-
The export of a VM as an appliance.

The handler asks for a stopped VM, and then has the VM's disk copied in another format.
-/
import VMSmith.Api.Handlers

namespace VMSmith

/-- Everything a part leaves behind is removed at its end, however it ends. -/
def removedAfter {α : Type} (dir : HostPath) (part : M α) : M α := do
  let r ← part.attempt
  let _ ← fileCall (.removeAll dir)
  orFail r

/-- `ExportOVA`, in a directory of its own. -/
def Storage.exportOVAIn (workDir : HostPath) (vm : VM) (outputPath : HostPath) : M Unit := do
  let vmdkPath := workDir.join (vm.name ++ "-disk1.vmdk")
  fileCall (.convertDisk vm.diskPath vmdkPath) >>= orWrap "qemu-img convert to vmdk"
  fileCall (.bundleOVA vmdkPath outputPath) >>= orFail

/-- `ExportOVA`. -/
def Storage.exportOVA (vm : VM) (outputPath : HostPath) : M Unit := do
  failIf (vm.diskPath = []) (.ext ("vm " ++ vm.id ++ " has no disk path"))
  let there ← fileCall (.lstat vm.diskPath)
  failIf (there = false) (.ext "vm disk not accessible")
  let workDir ← fileCall (.mkdirTemp outputPath.dir) >>= orWrap "creating export workdir"
  removedAfter workDir (Storage.exportOVAIn workDir vm outputPath)

namespace Api

def exportFailed (context : String) (e : Err) : Err := .api "export_failed" (context ++ e.text)

/-- A failure of the export that the client is told of as such. -/
def orExportFailed {α : Type} (context : String) (r : Except Err α) : M α :=
  Prog.ofExcept (r.mapError (exportFailed context))

def tempDir : HostPath := ["tmp"]

/-- `ExportVMOVA`. -/
def exportVMOVA (id : String) : M Unit := do
  let vm ← Manager.get id
  failIf (vm.state ≠ .stopped) (.api "vm_running" "vm must be stopped before exporting an OVA")
  let workDir ← fileCall (.mkdirTemp tempDir) >>= orExportFailed "creating export workspace: "
  removedAfter workDir do
    let r ← (Storage.exportOVA vm (workDir.join (vm.name ++ ".ova"))).attempt
    orExportFailed "exporting OVA: " r
    publishAppEvent "vm.exported" vm.id ("VM \"" ++ vm.name ++ "\" exported as OVA")
      [("name", vm.name), ("format", "ova")]

end Api

end VMSmith
