/-
The collector of VM statistics.

Libvirt reports counters that only grow; the collector keeps the last ones of every VM and
turns them into rates.  A domain's statistics come in groups, any of which may be missing
from a sample.  Clock readings are in nanoseconds and counters have no bound; what is
computed from them in floating point is exact here.
-/
import VMSmith.Lib.RingBuffer
import Mathlib.Data.Rat.Floor

namespace VMSmith.Metrics

/-- `types.MetricSample`.  A rate that could not be computed is none. -/
structure MetricSample where
  timestamp : ℤ := 0
  cpuPercent : Option ℚ := none
  memUsedMB : Option ℕ := none
  memAvailMB : Option ℕ := none
  diskReadBps : Option ℕ := none
  diskWriteBps : Option ℕ := none
  netRxBps : Option ℕ := none
  netTxBps : Option ℕ := none

/-- `domainSample`. -/
structure DomainSample where
  name : String
  state : String := ""
  hasCPU : Bool := false
  cpuTimeNs : ℕ := 0
  numVcpus : ℤ := 0
  hasBalloon : Bool := false
  memRSSKiB : ℕ := 0
  memCurrentKiB : ℕ := 0
  memAvailableKiB : ℕ := 0
  memUnusedKiB : ℕ := 0
  balloonRssSet : Bool := false
  balloonCurSet : Bool := false
  balloonAvailSet : Bool := false
  balloonUnusedSet : Bool := false
  hasDisk : Bool := false
  diskRdBytes : ℕ := 0
  diskWrBytes : ℕ := 0
  hasNet : Bool := false
  netRxBytes : ℕ := 0
  netTxBytes : ℕ := 0

/-- `prevCounters`: the counters of the previous sample of a VM. -/
structure PrevCounters where
  sampleTime : ℤ := 0
  cpuTimeNs : ℕ := 0
  numVcpus : ℤ := 0
  diskRdBytes : ℕ := 0
  diskWrBytes : ℕ := 0
  netRxBytes : ℕ := 0
  netTxBytes : ℕ := 0
  hasCPU : Bool := false
  hasDisk : Bool := false
  hasNet : Bool := false

/-- `counterDelta`: none where the counter was reset. -/
def counterDelta (cur prev : ℕ) : Option ℕ :=
  if cur < prev then none else some (cur - prev)

/-- `Duration.Seconds`. -/
def seconds (d : ℤ) : ℚ := (d : ℚ) / 1000000000

/-- The vCPUs a sample is taken to have. -/
def DomainSample.vcpus (ds : DomainSample) : ℤ := if ds.numVcpus ≤ 0 then 1 else ds.numVcpus

/-- The part of a CPU second in a second, in percent of what the vCPUs can do. -/
def cpuPct (deltaCPU : ℕ) (dtNs : ℤ) (numVcpus : ℤ) : ℚ :=
  let cpuPct := (deltaCPU : ℚ) / dtNs / numVcpus * 100
  let cpuPct := if cpuPct < 0 then 0 else cpuPct
  if cpuPct > 100 then 100 else cpuPct

/-- Whole bytes a second. -/
def bps (delta : ℕ) (dtSec : ℚ) : ℕ := ⌊(delta : ℚ) / dtSec⌋₊

/-- The CPU part of `recordSample`: the percentage, if it can be computed. -/
def cpuPercent (prev : Option PrevCounters) (ds : DomainSample) (now : ℤ) : Option ℚ :=
  match prev with
  | some p =>
      if ds.hasCPU ∧ p.hasCPU then
        let dtNs := now - p.sampleTime
        if dtNs > 0 then
          (counterDelta ds.cpuTimeNs p.cpuTimeNs).map (cpuPct · dtNs ds.vcpus)
        else none
      else none
  | none => none

/-- One rate of the disk and network parts of `recordSample`, of a counter that is `cur` now;
`has` and `counter` say what is known of it from before. -/
def byteRate (has : PrevCounters → Bool) (counter : PrevCounters → ℕ) (prev : Option PrevCounters)
    (hasNow : Bool) (cur : ℕ) (now : ℤ) : Option ℕ :=
  match prev with
  | some p =>
      if hasNow ∧ has p then
        let dtSec := seconds (now - p.sampleTime)
        if dtSec > 0 then (counterDelta cur (counter p)).map (bps · dtSec) else none
      else none
  | none => none

/-- The memory part of `recordSample`: what is used and what is available. -/
def memory (ds : DomainSample) : Option ℕ × Option ℕ :=
  if ds.hasBalloon then
    (if ds.balloonRssSet ∧ ds.memRSSKiB > 0 then some (ds.memRSSKiB / 1024)
      else if ds.balloonCurSet ∧ ds.memCurrentKiB > 0 then some (ds.memCurrentKiB / 1024)
      else none,
     if ds.balloonAvailSet ∧ ds.balloonUnusedSet ∧ ds.memAvailableKiB ≥ ds.memUnusedKiB then
       some ((ds.memAvailableKiB - ds.memUnusedKiB) / 1024)
     else none)
  else (none, none)

/-- The counters `recordSample` leaves, of each group that the sample has the sample's. -/
def noteCPU (prev : Option PrevCounters) (ds : DomainSample) : Option PrevCounters :=
  if ds.hasCPU then
    some { prev.getD {} with cpuTimeNs := ds.cpuTimeNs, numVcpus := ds.vcpus, hasCPU := true }
  else prev

def noteDisk (prev : Option PrevCounters) (ds : DomainSample) : Option PrevCounters :=
  if ds.hasDisk then
    some { prev.getD {} with
      diskRdBytes := ds.diskRdBytes, diskWrBytes := ds.diskWrBytes, hasDisk := true }
  else prev

def noteNet (prev : Option PrevCounters) (ds : DomainSample) : Option PrevCounters :=
  if ds.hasNet then
    some { prev.getD {} with
      netRxBytes := ds.netRxBytes, netTxBytes := ds.netTxBytes, hasNet := true }
  else prev

/-- What `recordSample` computes from a domain sample and the counters of the one before: the
sample for the ring, and the counters for the next. -/
def measure (prev : Option PrevCounters) (ds : DomainSample) (now : ℤ) :
    MetricSample × Option PrevCounters :=
  let cpu := cpuPercent prev ds now
  let prev := noteCPU prev ds
  let (used, avail) := memory ds
  let rd := byteRate (·.hasDisk) (·.diskRdBytes) prev ds.hasDisk ds.diskRdBytes now
  let wr := byteRate (·.hasDisk) (·.diskWrBytes) prev ds.hasDisk ds.diskWrBytes now
  let prev := noteDisk prev ds
  let rx := byteRate (·.hasNet) (·.netRxBytes) prev ds.hasNet ds.netRxBytes now
  let tx := byteRate (·.hasNet) (·.netTxBytes) prev ds.hasNet ds.netTxBytes now
  let prev := noteNet prev ds
  ({ timestamp := now, cpuPercent := cpu, memUsedMB := used, memAvailMB := avail
     diskReadBps := rd, diskWriteBps := wr, netRxBps := rx, netTxBps := tx },
   prev.map ({ · with sampleTime := now }))

/-- `NameToIDFunc`: the VM ID of a libvirt domain name, if it is known. -/
abbrev NameToIDFunc := String → Option String

/-- `LibvirtMetricsManager`, as far as samples and their processing go. -/
structure LibvirtMetricsManager where
  resolver : Option NameToIDFunc
  interval : ℤ
  histSize : ℤ
  rings : String → Option (RingBuffer MetricSample)
  states : String → Option String
  /-- libvirt domain name -> vmsmith VM ID -/
  vmNames : String → Option String
  prev : String → Option PrevCounters

/-- `newManagerForProvider`. -/
def newManagerForProvider (resolver : Option NameToIDFunc) (interval histSize : ℤ) :
    LibvirtMetricsManager where
  resolver := resolver
  interval := if interval ≤ 0 then 10 * 1000000000 else interval
  histSize := if histSize ≤ 0 then 360 else histSize
  rings := fun _ => none
  states := fun _ => none
  vmNames := fun _ => none
  prev := fun _ => none

/-- `stalePruneInterval`, five minutes. -/
def stalePruneInterval : ℤ := 5 * 60 * 1000000000

/-- `types.VMStatsSnapshot`. -/
structure VMStatsSnapshot where
  vmID : String
  state : String
  lastSampledAt : Option ℤ
  current : Option MetricSample
  history : List MetricSample
  intervalSeconds : ℤ
  historySize : ℤ

namespace LibvirtMetricsManager

/-- `SetResolver`. -/
def setResolver (m : LibvirtMetricsManager) (resolver : Option NameToIDFunc) :
    LibvirtMetricsManager := { m with resolver }

/-- `Snapshot`. -/
def snapshot (m : LibvirtMetricsManager) (vmID : String) : Option VMStatsSnapshot :=
  (m.rings vmID).map fun r =>
    { vmID, state := (m.states vmID).getD "", lastSampledAt := r.latest.map (·.timestamp)
      current := r.latest, history := r.all
      intervalSeconds := m.interval.tdiv 1000000000, historySize := m.histSize }

/-- `resolveVMID`. -/
def resolveVMID (m : LibvirtMetricsManager) (name : String) : Option String :=
  match m.vmNames name with
  | some id => some id
  | none =>
      match m.resolver with
      | some resolver => resolver name
      | none => some name

/-- The ring of a VM, made if there is none. -/
def ringOf (m : LibvirtMetricsManager) (vmID : String) : RingBuffer MetricSample :=
  (m.rings vmID).getD (RingBuffer.new m.histSize {})

/-- `recordSample`. -/
def recordSample (m : LibvirtMetricsManager) (vmID : String) (ds : DomainSample) (now : ℤ) :
    LibvirtMetricsManager :=
  let (sample, prev) := measure (m.prev vmID) ds now
  { m with
    states := Function.update m.states vmID (some (if ds.state = "" then "unknown" else ds.state))
    prev := Function.update m.prev vmID prev
    rings := Function.update m.rings vmID (some ((m.ringOf vmID).push sample)) }

/-- One round of the loop of `processSamples`; the IDs seen so far come along. -/
def processSample (now : ℤ) (m : LibvirtMetricsManager × List String) (ds : DomainSample) :
    LibvirtMetricsManager × List String :=
  match m.1.resolveVMID ds.name with
  | none => m
  | some vmID =>
      (({ m.1 with vmNames := Function.update m.1.vmNames ds.name (some vmID) }).recordSample vmID ds now,
       vmID :: m.2)

/-- Whether `prune` evicts a VM. -/
def evicts (m : LibvirtMetricsManager) (seen : List String) (now : ℤ) (vmID : String) : Bool :=
  match m.rings vmID with
  | none => false
  | some r =>
      !seen.contains vmID &&
        match r.latest with
        | none => true
        | some latest => decide (now - latest.timestamp > stalePruneInterval)

/-- `prune`. -/
def prune (m : LibvirtMetricsManager) (seen : List String) (now : ℤ) : LibvirtMetricsManager :=
  let gone := m.evicts seen now
  let rings := fun id => if gone id then none else m.rings id
  { m with
    rings := rings
    states := fun id => if gone id then none else m.states id
    prev := fun id => if gone id then none else m.prev id
    -- a name goes with the ring of its ID
    vmNames := fun name => (m.vmNames name).filter fun id => (rings id).isSome }

/-- `processSamples`. -/
def processSamples (m : LibvirtMetricsManager) (samples : List DomainSample) (now : ℤ) :
    LibvirtMetricsManager :=
  let (m, seen) := samples.foldl (processSample now) (m, [])
  m.prune seen now

/-! ### Histories -/

variable (m : LibvirtMetricsManager) (ds : DomainSample) (now : ℤ) {id vmID : String}

theorem ringOf_recordSample :
    (m.recordSample vmID ds now).ringOf vmID =
      (m.ringOf vmID).push (measure (m.prev vmID) ds now).1 := by
  unfold ringOf recordSample
  dsimp only
  rw [Function.update_self, Option.getD_some]
  rfl

theorem ringOf_recordSample_other (h : id ≠ vmID) :
    (m.recordSample vmID ds now).ringOf id = m.ringOf id := by
  unfold ringOf recordSample
  dsimp only
  rw [Function.update_of_ne h]

end LibvirtMetricsManager

end VMSmith.Metrics
