/-
The collector at work, with the store behind its resolver.

A sweep fetches the statistics of all running domains and then takes them one by one, while
VMs come and go in the store.  Whose a sample is, is looked up by name in two caches before
the store is asked: the collector's own, whose entries stay as long as their VM has a ring,
and the resolver's, a listing of the store that serves for half a minute.

Beside them the state keeps what the store held when the sweep was fetched, and every sample
that was appended to a VM's history.
-/
import VMSmith.Lib.Bucket
import VMSmith.Metrics.Collector

namespace VMSmith.Metrics

/-- What is stored of VMs, as far as names go: the name of each ID. -/
abbrev StoredNames := Bucket String String

/-- The map `refresh` builds from a listing of the store: the last VM of a name counts. -/
def nameMap (vms : StoredNames) : String → Option String :=
  vms.entries.foldl (fun cache vm => Function.update cache vm.2 (some vm.1)) fun _ => none

/-- `resolverCacheTTL`, thirty seconds. -/
def resolverCacheTTL : ℤ := 30 * 1000000000

/-- `storeNameResolver`. -/
structure StoreNameResolver where
  ttl : ℤ := resolverCacheTTL
  cache : Option (String → Option String) := none
  cachedAt : ℤ := 0

namespace StoreNameResolver

/-- Whether the cache serves without a look at the store. -/
def fresh (r : StoreNameResolver) (now : ℤ) : Bool := r.cache.isSome && decide (now - r.cachedAt < r.ttl)

/-- What the cache has for a name. -/
def cached (r : StoreNameResolver) (name : String) : Option String := r.cache.bind (· name)

/-- `refresh`; where the store cannot be listed the cache stays. -/
def refresh (r : StoreNameResolver) (listed : Option StoredNames) (now : ℤ) : StoreNameResolver :=
  match listed with
  | none => r
  | some vms => { r with cache := some (nameMap vms), cachedAt := now }

/-- `NameToID`. -/
def nameToID (r : StoreNameResolver) (listed : Option StoredNames) (now : ℤ) (name : String) :
    Option String × StoreNameResolver :=
  if r.fresh now then (r.cached name, r)
  else
    let r := r.refresh listed now
    (r.cached name, r)

end StoreNameResolver

/-- A sweep that is under way. -/
structure Sweep where
  /-- The samples that are still to be taken. -/
  remaining : List DomainSample
  seen : List String := []
  now : ℤ
  /-- What the store held when the samples were fetched. -/
  stored : StoredNames

/-- A sample that was appended to the history of a VM. -/
structure Appended where
  vmID : String
  sample : DomainSample
  /-- What the store held when the sample was fetched. -/
  stored : StoredNames

/-- The sample is of the domain that the store had under the VM. -/
def Appended.Right (a : Appended) : Prop := a.stored.get? a.vmID = some a.sample.name

structure SweepSys where
  vms : StoredNames := Bucket.empty
  manager : LibvirtMetricsManager
  resolver : StoreNameResolver := {}
  clock : ℤ := 0
  sweep : Option Sweep := none
  appended : List Appended := []

inductive SweepLabel
  /-- Time passes. -/
  | tick (d : ℕ)
  /-- A VM is stored under an ID that has none. -/
  | create (id name : String)
  | delete (id : String)
  /-- A sweep begins: the statistics of the running domains are fetched. -/
  | fetch (samples : List DomainSample)
  /-- The sweep's next sample is taken; if the store is asked, it can be listed or cannot. -/
  | record (listable : Bool)
  /-- The last sample has been taken. -/
  | prune

namespace SweepSys

/-- What the resolver gets of the store. -/
def listing (s : SweepSys) (listable : Bool) : Option StoredNames :=
  if listable then some s.vms else none

/-- The collector with its resolver, as that answers now. -/
def collector (s : SweepSys) (listable : Bool) : LibvirtMetricsManager :=
  s.manager.setResolver
    (some fun name => (s.resolver.nameToID (s.listing listable) s.clock name).1)

/-- The resolver after a name was looked up: it is only asked for what the collector has not. -/
def resolverAfter (s : SweepSys) (listable : Bool) (name : String) : StoreNameResolver :=
  match s.manager.vmNames name with
  | some _ => s.resolver
  | none => (s.resolver.nameToID (s.listing listable) s.clock name).2

def step (s : SweepSys) : SweepLabel → Option SweepSys
  | .tick d => some { s with clock := s.clock + d }
  | .create id name => if s.vms.get? id = none then some { s with vms := s.vms.put id name } else none
  | .delete id => some { s with vms := s.vms.erase id }
  | .fetch samples =>
      match s.sweep with
      | none => some { s with
          sweep := some { remaining := samples, now := s.clock, stored := s.vms } }
      | some _ => none
  | .record listable =>
      match s.sweep with
      | some sweep =>
          match sweep.remaining with
          | ds :: rest =>
              let collector := s.collector listable
              let (manager, seen) := LibvirtMetricsManager.processSample sweep.now (collector, sweep.seen) ds
              some { s with
                manager := manager
                resolver := s.resolverAfter listable ds.name
                sweep := some { sweep with remaining := rest, seen }
                appended := s.appended ++ (collector.resolveVMID ds.name).toList.map fun id =>
                  ⟨id, ds, sweep.stored⟩ }
          | [] => none
      | none => none
  | .prune =>
      match s.sweep with
      | some sweep =>
          if sweep.remaining.isEmpty then
            some { s with manager := s.manager.prune sweep.seen sweep.now, sweep := none }
          else none
      | none => none

/-- The collector as it is made, over an empty store. -/
def init (interval histSize : ℤ) : SweepSys :=
  { manager := newManagerForProvider none interval histSize }

end SweepSys

end VMSmith.Metrics
