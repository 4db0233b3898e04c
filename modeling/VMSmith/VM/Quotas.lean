/-
Quotas: limits on what all VMs together may use.

Two layers check them.  The API checks a request before it goes to the manager, and the
quota manager stands in front of the manager itself.  Both add what a request asks for to
what is stored; a limit that is not positive is none.
-/
import VMSmith.VM.Snapshots
import VMSmith.Api.Handlers

namespace VMSmith

/-- Limits on all VMs together. -/
structure QuotasConfig where
  maxVMs : Int := 0
  maxTotalCPUs : Int := 0
  maxTotalRAMMB : Int := 0
  maxTotalDiskGB : Int := 0
  maxTotalGPUs : Int := 0
  deriving DecidableEq, Repr

/-- Amounts of what the quotas limit, or changes of them. -/
@[ext] structure QuotaAmounts where
  vms : Int := 0
  cpus : Int := 0
  ramMB : Int := 0
  diskGB : Int := 0
  gpus : Int := 0
  deriving DecidableEq, Repr

namespace QuotaAmounts

instance : Add QuotaAmounts where
  add a b := ⟨a.vms + b.vms, a.cpus + b.cpus, a.ramMB + b.ramMB, a.diskGB + b.diskGB, a.gpus + b.gpus⟩

@[simp] theorem add_vms (a b : QuotaAmounts) : (a + b).vms = a.vms + b.vms := rfl

@[simp] theorem add_cpus (a b : QuotaAmounts) : (a + b).cpus = a.cpus + b.cpus := rfl

@[simp] theorem add_ramMB (a b : QuotaAmounts) : (a + b).ramMB = a.ramMB + b.ramMB := rfl

@[simp] theorem add_diskGB (a b : QuotaAmounts) : (a + b).diskGB = a.diskGB + b.diskGB := rfl

@[simp] theorem add_gpus (a b : QuotaAmounts) : (a + b).gpus = a.gpus + b.gpus := rfl

/-- What one VM uses. -/
def ofSpec (spec : VMSpec) : QuotaAmounts where
  vms := 1
  cpus := spec.cpus
  ramMB := spec.ramMB
  diskGB := spec.diskGB
  gpus := spec.resolvedGPUs.length

/-- The change that a patch makes to the sizes of a VM. -/
def ofPatch (current : VMSpec) (patch : VMUpdateSpec) : QuotaAmounts where
  cpus := (if 0 < patch.cpus then patch.cpus else current.cpus) - (current.cpus : Int)
  ramMB := (if 0 < patch.ramMB then patch.ramMB else current.ramMB) - (current.ramMB : Int)
  diskGB := (if 0 < patch.diskGB then patch.diskGB else current.diskGB) - (current.diskGB : Int)

end QuotaAmounts

/-- `CalculateQuotaUsage`. -/
def calculateQuotaUsage (vms : List VM) : QuotaAmounts :=
  vms.foldl (fun usage vm => usage + .ofSpec vm.spec) {}

namespace QuotasConfig

/-- A positive limit is exceeded. -/
def exceeds (limit used : Int) : Prop := 0 < limit ∧ limit < used

instance (limit used : Int) : Decidable (exceeds limit used) := inferInstanceAs (Decidable (_ ∧ _))

/-- No positive limit is exceeded. -/
structure Within (cfg : QuotasConfig) (usage : QuotaAmounts) : Prop where
  vms : ¬ exceeds cfg.maxVMs usage.vms
  cpus : ¬ exceeds cfg.maxTotalCPUs usage.cpus
  ramMB : ¬ exceeds cfg.maxTotalRAMMB usage.ramMB
  diskGB : ¬ exceeds cfg.maxTotalDiskGB usage.diskGB
  gpus : ¬ exceeds cfg.maxTotalGPUs usage.gpus

end QuotasConfig

namespace QuotaManager

open QuotasConfig

/-- `quotaExceededError`. -/
def quotaExceededError (field : String) (attempted limit : Int) (label : String) : Err :=
  .api "quota_exceeded" ("quota exceeded: " ++ field ++ " would be " ++ toString attempted ++ "/" ++
    toString limit ++ " for " ++ label)

/-- One limit of the quota manager. -/
def checkLimit (limit attempted : Int) (field label : String) : M Unit :=
  failIf (exceeds limit attempted) (quotaExceededError field attempted limit label)

/-- `validateQuotaDelta`. -/
def validateQuotaDelta (cfg : QuotasConfig) (usage delta : QuotaAmounts) : M Unit := do
  checkLimit cfg.maxVMs (usage + delta).vms "max_vms" "VMs"
  checkLimit cfg.maxTotalCPUs (usage + delta).cpus "max_total_cpus" "vCPUs"
  checkLimit cfg.maxTotalRAMMB (usage + delta).ramMB "max_total_ram_mb" "RAM (MB)"
  checkLimit cfg.maxTotalDiskGB (usage + delta).diskGB "max_total_disk_gb" "disk (GB)"
  checkLimit cfg.maxTotalGPUs (usage + delta).gpus "max_total_gpus" "GPUs"

def ensureCreateWithinQuota (cfg : QuotasConfig) (spec : VMSpec) : M Unit := do
  let usage := calculateQuotaUsage (← Manager.list)
  validateQuotaDelta cfg usage (.ofSpec spec)

def ensureUpdateWithinQuota (cfg : QuotasConfig) (id : String) (patch : VMUpdateSpec) : M Unit := do
  let current ← Manager.get id
  let usage := calculateQuotaUsage (← Manager.list)
  validateQuotaDelta cfg usage (.ofPatch current.spec patch)

/-- The check of `AttachGPU`. -/
def ensureAttachWithinQuota (cfg : QuotasConfig) : M Unit :=
  onlyIf (0 < cfg.maxTotalGPUs) do
    let usage := calculateQuotaUsage (← Manager.list)
    failIf (cfg.maxTotalGPUs < usage.gpus + 1) (.api "quota_exceeded"
      ("attaching this gpu would exceed the aggregate GPU quota (" ++ toString usage.gpus ++
        " in use, limit " ++ toString cfg.maxTotalGPUs ++ ")"))

variable (d : Daemon) (cfg : QuotasConfig)

def create (spec : VMSpec) : M VM := do
  ensureCreateWithinQuota cfg spec
  Manager.create d spec

def clone (sourceID newName : String) : M VM := do
  let source ← Manager.get sourceID
  ensureCreateWithinQuota cfg source.spec
  Manager.clone d sourceID newName

def update (id : String) (patch : VMUpdateSpec) : M VM := do
  ensureUpdateWithinQuota cfg id patch
  Manager.update d id patch

def attachGPU (id pciAddr : String) (force : Bool) : M VM := do
  ensureAttachWithinQuota cfg
  Manager.attachGPU d id pciAddr force

end QuotaManager

namespace Api

open QuotasConfig

variable (cfg : QuotasConfig)

/-- `collectQuotaUsage`. -/
def collectQuotaUsage (vms : List VM) : QuotaAmounts :=
  vms.foldl (fun usage vm => usage + .ofSpec vm.spec) {}

/-- `anyQuotaConfigured`. -/
def anyQuotaConfigured : Prop :=
  0 < cfg.maxVMs ∨ 0 < cfg.maxTotalCPUs ∨ 0 < cfg.maxTotalRAMMB ∨ 0 < cfg.maxTotalDiskGB ∨
    0 < cfg.maxTotalGPUs

instance : Decidable (anyQuotaConfigured cfg) := inferInstanceAs (Decidable (_ ∨ _))

/-- `quotaExceeded`: an event, and the error. -/
def quotaExceeded (field : String) (attempted limit : Int) (message : String) : M Unit := do
  hostCall (.publish {
    type := "quota.exceeded"
    source := "system"
    severity := "warn"
    message := message
    attributes := [("field", field), ("attempted", toString attempted), ("limit", toString limit)]
    occurredAt := ← now })
  .throw (.api "quota_exceeded" message)

/-- One limit of the API. -/
def checkUsage (limit used : Int) (field what unit : String) : M Unit :=
  onlyIf (exceeds limit used) (quotaExceeded field used limit
    (what ++ " quota exceeded: " ++ toString used ++ unit ++ " configured, limit is " ++
      toString limit ++ unit))

/-- `validateQuotaUsage`. -/
def validateQuotaUsage (usage : QuotaAmounts) : M Unit := do
  checkUsage cfg.maxVMs usage.vms "max_vms" "VM" ""
  checkUsage cfg.maxTotalCPUs usage.cpus "max_total_cpus" "CPU" ""
  checkUsage cfg.maxTotalRAMMB usage.ramMB "max_total_ram_mb" "RAM" " MB"
  checkUsage cfg.maxTotalDiskGB usage.diskGB "max_total_disk_gb" "disk" " GB"
  checkUsage cfg.maxTotalGPUs usage.gpus "max_total_gpus" "GPU" ""

def enforceCreateQuotas (spec : VMSpec) : M Unit :=
  onlyIf (anyQuotaConfigured cfg) do
    let usage := collectQuotaUsage (← Manager.list)
    validateQuotaUsage cfg (usage + .ofSpec spec)

/-- The sizes of the VM are taken out and put back as they will be. -/
def enforceUpdateQuotas (current : VM) (patch : VMUpdateSpec) : M Unit :=
  onlyIf (anyQuotaConfigured cfg) do
    let usage := collectQuotaUsage (← Manager.list)
    validateQuotaUsage cfg (usage + .ofPatch current.spec patch)

end Api

/-- The requests that quotas are checked for. -/
inductive QuotaRequest where
  | create (spec : VMSpec)
  | clone (sourceID newName : String)
  | update (id : String) (patch : VMUpdateSpec)
  | attachGPU (id pciAddr : String) (force : Bool)
  deriving DecidableEq, Repr

namespace QuotaRequest

/-- What a request comes to once it has been read: the API's check, where it has one, and the
quota manager's operation. -/
def handle (d : Daemon) (cfg : QuotasConfig) : QuotaRequest → M VM
  | .create spec => do
      Api.enforceCreateQuotas cfg spec
      QuotaManager.create d cfg spec
  | .clone sourceID newName => QuotaManager.clone d cfg sourceID newName
  | .update id patch => do
      let current ← Manager.get id
      Api.enforceUpdateQuotas cfg current patch
      QuotaManager.update d cfg id patch
  | .attachGPU id pciAddr force => QuotaManager.attachGPU d cfg id pciAddr force

/-- The checks among it. -/
def checks (cfg : QuotasConfig) : QuotaRequest → M Unit
  | .create spec => do
      Api.enforceCreateQuotas cfg spec
      QuotaManager.ensureCreateWithinQuota cfg spec
  | .clone sourceID _ => do
      let source ← Manager.get sourceID
      QuotaManager.ensureCreateWithinQuota cfg source.spec
  | .update id patch => do
      let current ← Manager.get id
      Api.enforceUpdateQuotas cfg current patch
      QuotaManager.ensureUpdateWithinQuota cfg id patch
  | .attachGPU _ _ _ => QuotaManager.ensureAttachWithinQuota cfg

/-- The operation behind the checks. -/
def operation (d : Daemon) : QuotaRequest → M VM
  | .create spec => Manager.create d spec
  | .clone sourceID newName => Manager.clone d sourceID newName
  | .update id patch => Manager.update d id patch
  | .attachGPU id pciAddr force => Manager.attachGPU d id pciAddr force

/-- A request is its checks and then its operation. -/
theorem handle_eq (d : Daemon) (cfg : QuotasConfig) (req : QuotaRequest) :
    req.handle d cfg = (do req.checks cfg; req.operation d) := by
  cases req with
  | create spec => exact (Prog.bind_assoc _ _ _).symm
  | clone sourceID newName => exact (Prog.bind_assoc _ _ _).symm
  | update id patch =>
      simp only [handle, checks, operation, QuotaManager.update, Prog.bind_eq, Prog.bind_assoc]
  | attachGPU id pciAddr force => rfl

end QuotaRequest

end VMSmith
