/-
Quotas limit what is stored only as far as what they check is what is stored.

An update and an attached GPU change the store by just what was checked.  A creation is
checked with the sizes of the request, where a zero is later filled with a default; a clone
is checked with the GPUs of its source, which it does not get.
-/
import Mathlib
import VMSmith.VM.Quotas
import VMSmith.System.Failing
import VMSmith.Proofs.PortScope
import VMSmith.Proofs.GPUs
import VMSmith.Proofs.Names

namespace VMSmith

open Prog

/-! ### Adding up the store -/

/-- What all stored VMs use. -/
def World.stored (w : World) : QuotaAmounts := calculateQuotaUsage w.store.vms.values

theorem calculateQuotaUsage_eq (vms : List VM) : calculateQuotaUsage vms =
    { vms := vms.length
      cpus := ((vms.map fun vm => vm.spec.cpus).sum : Nat)
      ramMB := ((vms.map fun vm => vm.spec.ramMB).sum : Nat)
      diskGB := ((vms.map fun vm => vm.spec.diskGB).sum : Nat)
      gpus := ((vms.map fun vm => vm.spec.resolvedGPUs.length).sum : Nat) } := by
  have hfold : ∀ usage : QuotaAmounts, vms.foldl (fun usage vm => usage + .ofSpec vm.spec) usage =
      { vms := usage.vms + vms.length
        cpus := usage.cpus + ((vms.map fun vm => vm.spec.cpus).sum : Nat)
        ramMB := usage.ramMB + ((vms.map fun vm => vm.spec.ramMB).sum : Nat)
        diskGB := usage.diskGB + ((vms.map fun vm => vm.spec.diskGB).sum : Nat)
        gpus := usage.gpus + ((vms.map fun vm => vm.spec.resolvedGPUs.length).sum : Nat) } := by
    induction vms with
    | nil => simp
    | cons vm vms ih =>
        intro usage
        rw [List.foldl_cons, ih]
        ext
        · simp [QuotaAmounts.ofSpec]
          omega
        · simp [QuotaAmounts.ofSpec]
          omega
        · simp [QuotaAmounts.ofSpec]
          omega
        · simp [QuotaAmounts.ofSpec]
          omega
        · simp [QuotaAmounts.ofSpec]
          omega
  rw [calculateQuotaUsage, hfold]
  simp

/-- Only the specs are added up. -/
theorem calculateQuotaUsage_congr {vms vms' : List VM} (h : vms.map VM.spec = vms'.map VM.spec) :
    calculateQuotaUsage vms = calculateQuotaUsage vms' := by
  have hmap : ∀ f : VMSpec → Nat, (vms.map fun vm => f vm.spec) = vms'.map fun vm => f vm.spec := by
    intro f
    have := congrArg (List.map f) h
    rw [List.map_map, List.map_map] at this
    exact this
  have hlength : vms.length = vms'.length := by
    have := congrArg List.length h
    rwa [List.length_map, List.length_map] at this
  rw [calculateQuotaUsage_eq, calculateQuotaUsage_eq, hlength, hmap VMSpec.cpus, hmap VMSpec.ramMB,
    hmap VMSpec.diskGB, hmap fun spec => spec.resolvedGPUs.length]

section Put

variable {b : Bucket String VM} {id : String} {vm old : VM}

theorem length_values_put (b : Bucket String VM) (id : String) (vm : VM) :
    (b.put id vm).values.length + (if (b.get? id).isSome then 1 else 0) =
    b.values.length + 1 := by
  have htotal := b.total_put (fun _ => 1) id vm
  unfold Bucket.total at htotal
  rw [List.map_const', List.map_const', List.sum_replicate, List.sum_replicate] at htotal
  cases hget : b.get? id with
  | none =>
      rw [hget] at htotal
      simpa using htotal
  | some old =>
      rw [hget] at htotal
      simpa using htotal

/-- A new VM adds what it uses. -/
theorem calculateQuotaUsage_put_new (hget : b.get? id = none) :
    calculateQuotaUsage (b.put id vm).values = calculateQuotaUsage b.values + .ofSpec vm.spec := by
  have hlength := length_values_put b id vm
  have htotal : ∀ f : VM → Nat, (b.put id vm).total f = b.total f + f vm := by
    intro f
    have := b.total_put f id vm
    rwa [hget, Option.map_none, Option.getD_none, Nat.add_zero] at this
  rw [hget] at hlength
  simp only [Option.isSome_none, Bool.false_eq_true, if_false, Nat.add_zero] at hlength
  unfold Bucket.total at htotal
  rw [calculateQuotaUsage_eq, calculateQuotaUsage_eq]
  ext
  · simp [QuotaAmounts.ofSpec, hlength]
  · simp [QuotaAmounts.ofSpec, htotal]
  · simp [QuotaAmounts.ofSpec, htotal]
  · simp [QuotaAmounts.ofSpec, htotal]
  · simp [QuotaAmounts.ofSpec, htotal]

/-- A VM that is stored again adds what it uses more. -/
theorem calculateQuotaUsage_put_old (hget : b.get? id = some old) {change : QuotaAmounts}
    (hspec : QuotaAmounts.ofSpec vm.spec = .ofSpec old.spec + change) :
    calculateQuotaUsage (b.put id vm).values = calculateQuotaUsage b.values + change := by
  have hlength := length_values_put b id vm
  have htotal : ∀ f : VM → Nat, (b.put id vm).total f + f old = b.total f + f vm := by
    intro f
    have := b.total_put f id vm
    rwa [hget, Option.map_some, Option.getD_some] at this
  rw [hget] at hlength
  simp only [Option.isSome_some, if_true, Nat.add_right_cancel_iff] at hlength
  unfold Bucket.total at htotal
  have hcpus := congrArg QuotaAmounts.cpus hspec
  have hram := congrArg QuotaAmounts.ramMB hspec
  have hdisk := congrArg QuotaAmounts.diskGB hspec
  have hgpus := congrArg QuotaAmounts.gpus hspec
  have hvms := congrArg QuotaAmounts.vms hspec
  simp only [QuotaAmounts.ofSpec, QuotaAmounts.add_vms, QuotaAmounts.add_cpus, QuotaAmounts.add_ramMB,
    QuotaAmounts.add_diskGB, QuotaAmounts.add_gpus] at hcpus hram hdisk hgpus hvms
  have h₁ := htotal fun vm => vm.spec.cpus
  have h₂ := htotal fun vm => vm.spec.ramMB
  have h₃ := htotal fun vm => vm.spec.diskGB
  have h₄ := htotal fun vm => vm.spec.resolvedGPUs.length
  rw [calculateQuotaUsage_eq, calculateQuotaUsage_eq]
  ext
  · simp only [QuotaAmounts.add_vms]
    omega
  · simp only [QuotaAmounts.add_cpus]
    omega
  · simp only [QuotaAmounts.add_ramMB]
    omega
  · simp only [QuotaAmounts.add_diskGB]
    omega
  · simp only [QuotaAmounts.add_gpus]
    omega

end Put

/-! ### What the operations store -/

/-- A success has added this to what is stored. -/
def World.Adds (w : World) (change : QuotaAmounts) (res : Except Err VM) (w' : World) : Prop :=
  ∀ vm, res = .ok vm → w'.stored = w.stored + change

/-- No stored VM has an ID made from an instant still to come. -/
def World.IDsPast (w : World) : Prop :=
  ∀ n, w.host.clock ≤ n → w.store.vms.get? (Manager.vmID n) = none

section Operations

variable {w u : World} {α β : Type} {change : QuotaAmounts}

theorem adds_error (e : Err) (u : World) : w.Adds change (.error e) u := fun vm h => by simp at h

theorem World.Adds.of_store (hstore : u.store = w.store) (hzero : w.stored + change = w.stored) (vm : VM) :
    w.Adds change (.ok vm) u := by
  intro _ _
  rw [hzero, World.stored, hstore]
  rfl

/-- A part that comes before the record is written. -/
theorem wp_before {φ : α → Prop} {p : M α} (hp : OffStore p) (hy : Yields φ p) (hu : w.Later u)
    {f : α → M β} {Q : Except Err β → World → Prop} (herr : ∀ e u', w.Later u' → Q (.error e) u')
    (hok : ∀ a u', φ a → w.Later u' → wp World.sem (f a) Q u') : wp World.sem (p >>= f) Q u := by
  rw [bind_eq, wp_bind]
  refine wp_mono (fun r u' h => ?_) (wp_yields hy (wp_later hp fun _ _ hlater => hu.trans hlater))
  cases r with
  | error e => exact herr e u' h.1
  | ok a => exact hok a u' (h.2 a rfl) h.1

/-- Such a part, whatever it returns. -/
theorem wp_before_any {p : M α} (hp : OffStore p) (hu : w.Later u) {f : α → M β}
    {Q : Except Err β → World → Prop} (herr : ∀ e u', w.Later u' → Q (.error e) u')
    (hok : ∀ a u', w.Later u' → wp World.sem (f a) Q u') : wp World.sem (p >>= f) Q u :=
  wp_before hp (yields_true p) hu herr fun a u' _ hlater => hok a u' hlater

theorem wp_anyhow (p : M α) {Q : Except Err α → World → Prop} (hQ : ∀ r u', Q r u') (u : World) :
    wp World.sem p Q u := by
  induction p generalizing u with
  | ret a => exact (wp_ret _ _ _).mpr (hQ _ u)
  | throw e => exact (wp_throw _ _ _).mpr (hQ _ u)
  | call c k ih => exact (wp_call _ _ _ _).mpr ⟨trivial, fun r u' _ => ih r u'⟩

/-- What only cleans up and fails adds nothing. -/
theorem adds_fails {p : M VM} (hp : Yields (fun _ => False) p) (u : World) :
    wp World.sem p (w.Adds change) u := by
  refine wp_mono (fun r u' h => ?_) (wp_yields hp (wp_anyhow p (Q := fun _ _ => True) (fun _ _ => trivial) u))
  cases r with
  | error e => exact adds_error e u'
  | ok vm => exact (h.2 vm rfl).elim

/-- An instant that is read is one still to come. -/
theorem wp_instant (hu : w.Later u) {f : Nat → M VM}
    (hok : ∀ n u', w.host.clock ≤ n → w.Later u' → wp World.sem (f n) (w.Adds change) u') :
    wp World.sem (now >>= f) (w.Adds change) u := by
  rw [bind_eq, wp_bind]
  unfold now hostCall
  rw [wp_perform]
  refine ⟨trivial, ?_⟩
  rintro n u' ⟨x, hexec⟩
  have hlater : w.Later u' := hu.trans ⟨World.exec_offStore (by exact trivial) hexec, World.exec_clock hexec⟩
  have heq : some (u.host.clock + x.nat, ({ u with
      host := { u.host with clock := u.host.clock + x.nat } } : World)) = some (n, u') := hexec
  obtain ⟨rfl, -⟩ := Prod.mk.inj (Option.some.inj heq)
  exact hok _ u' (hu.clock.trans (Nat.le_add_right _ _)) hlater

theorem wp_fetched {id : String} {f : VM → M VM}
    (hok : ∀ vm, u.store.vms.get? id = some vm → wp World.sem (f vm) (w.Adds change) u) :
    wp World.sem (getVM id >>= f) (w.Adds change) u := by
  rw [bind_eq, wp_bind]
  unfold getVM storeCall
  rw [bind_eq, wp_bind, wp_perform]
  refine ⟨trivial, ?_⟩
  rintro r u' ⟨x, hexec⟩
  obtain ⟨s, hs, rfl⟩ := World.exec_store hexec
  obtain ⟨rfl, hr⟩ := StoreState.exec_getVM hs
  show wp _ (orFail r) _ _
  rw [wp_orFail]
  cases r with
  | error e => exact adds_error e _
  | ok vm => exact hok vm (hr vm rfl)

/-- The record is written, or is not. -/
theorem wp_putting (hu : w.Later u) {vm : VM} {f : Except Err Unit → M VM}
    (hput : calculateQuotaUsage (w.store.vms.put vm.id vm).values = w.stored + change)
    (herr : ∀ e u', wp World.sem (f (.error e)) (w.Adds change) u')
    (hok : ∀ u', (∀ vm', w.Adds change (.ok vm') u') → wp World.sem (f (.ok ())) (w.Adds change) u') :
    wp World.sem (storeCall (.putVM vm) >>= f) (w.Adds change) u := by
  rw [bind_eq, wp_bind]
  unfold storeCall
  rw [wp_perform]
  refine ⟨trivial, ?_⟩
  rintro r u' ⟨x, hexec⟩
  obtain ⟨s, hs, rfl⟩ := World.exec_store hexec
  rcases fallible_ok hs with ⟨-, ⟨e, rfl⟩, rfl⟩ | ⟨-, rfl, rfl⟩
  · exact herr e _
  · refine hok _ fun vm' _ _ => ?_
    rw [← hput, ← hu.store]
    rfl

/-- What comes after the record is written. -/
theorem adds_after {p : M VM} (hp : OffStore p) (hadds : ∀ vm, w.Adds change (.ok vm) u) :
    wp World.sem p (w.Adds change) u := by
  refine wp_later hp fun r u' hlater => ?_
  intro vm _
  rw [World.stored, hlater.store]
  exact hadds vm vm rfl

/-- The record is written, or the operation fails. -/
theorem wp_written (hu : w.Later u) {vm : VM} {context : String} {f : Unit → M VM}
    (hput : calculateQuotaUsage (w.store.vms.put vm.id vm).values = w.stored + change)
    (hf : ∀ u', (∀ vm', w.Adds change (.ok vm') u') → wp World.sem (f ()) (w.Adds change) u') :
    wp World.sem ((storeCall (.putVM vm) >>= orWrap context) >>= f) (w.Adds change) u := by
  rw [bind_eq, bind_eq, bind_assoc]
  exact wp_putting hu hput (fun e u' => adds_fails (.throw _) u') hf

/-- Of the sizes and the GPUs a spec is left as it was. -/
def VMSpec.SameSizes (spec spec' : VMSpec) : Prop :=
  spec'.cpus = spec.cpus ∧ spec'.ramMB = spec.ramMB ∧ spec'.diskGB = spec.diskGB ∧ spec'.gpus = spec.gpus

theorem VMSpec.SameSizes.ofSpec {spec spec' : VMSpec} (h : spec.SameSizes spec') :
    QuotaAmounts.ofSpec spec' = .ofSpec spec := by
  obtain ⟨hcpus, hram, hdisk, hgpus⟩ := h
  have hresolved : spec'.resolvedGPUs = spec.resolvedGPUs := by
    unfold VMSpec.resolvedGPUs
    rw [hgpus]
  rw [QuotaAmounts.ofSpec, QuotaAmounts.ofSpec, hcpus, hram, hdisk, hresolved]

theorem VMSpec.SameSizes.trans {a b c : VMSpec} (h : a.SameSizes b) (h' : b.SameSizes c) :
    a.SameSizes c := by
  obtain ⟨h₁, h₂, h₃, h₄⟩ := h
  obtain ⟨h₁', h₂', h₃', h₄'⟩ := h'
  exact ⟨h₁'.trans h₁, h₂'.trans h₂, h₃'.trans h₃, h₄'.trans h₄⟩

/-! ### Creating -/

namespace Manager

variable (d : Daemon)

theorem sizes_prepareCreate (spec : VMSpec) :
    Yields (fun r => (applyDefaults d spec).SameSizes r.1) (prepareCreate d spec) := by
  refine Yields.last fun _ => Yields.last fun generated => Yields.last fun _ => ?_
  refine Yields.last fun loc => Yields.last fun _ => Yields.last fun _ => ?_
  refine Yields.last fun networks => .ret ?_
  dsimp only
  split_ifs
  · exact ⟨rfl, rfl, rfl, rfl⟩
  · exact ⟨rfl, rfl, rfl, rfl⟩

theorem sizes_chooseAddress (spec : VMSpec) (natMAC : String) :
    Yields (fun s => spec.SameSizes s) (chooseAddress d spec natMAC) := by
  unfold chooseAddress
  split_ifs
  · refine Yields.last fun ip => .ret ?_
    cases ip with
    | none => exact ⟨rfl, rfl, rfl, rfl⟩
    | some ip => exact ⟨rfl, rfl, rfl, rfl⟩
  · exact .ret ⟨rfl, rfl, rfl, rfl⟩

theorem sizes_provision (spec : VMSpec) (natMAC : String) (diskPath : HostPath) :
    Yields (fun p => spec.SameSizes p.spec) (provision d spec natMAC diskPath) := by
  refine Yields.last fun _ => Yields.last fun _ => Yields.last fun vnc => Yields.last fun xml => ?_
  exact Yields.last fun _ => Yields.last fun dom => .ret ⟨rfl, rfl, rfl, rfl⟩

theorem offStore_provision (spec : VMSpec) (natMAC : String) (diskPath : HostPath) :
    OffStore (provision d spec natMAC diskPath) := by
  refine (aside_createDisk d spec diskPath).offStore.bind fun _ => ?_
  refine (only_wrapped (offStore_fileCall _) _).bind fun _ => (aside_newVNC d _).offStore.bind fun _ => ?_
  refine (only_orFail _).bind fun _ => (offStore_undefineByName _).bind fun _ => ?_
  exact (only_wrapped (offStore_virtCall _) _).bind fun _ => .ret _

end Manager

section Creating

variable {w u : World} {change : QuotaAmounts} (d : Daemon)

theorem adds_launch (hu : w.Later u) {id natMAC : String} {diskPath : HostPath} {p : Manager.Provision}
    (hfresh : w.store.vms.get? id = none) (hspec : QuotaAmounts.ofSpec p.spec = change) :
    wp World.sem (Manager.launch id natMAC diskPath p) (w.Adds change) u := by
  have herr : ∀ (e : Err) u', w.Later u' → w.Adds change (.error e) u' := fun e u' _ => adds_error e u'
  unfold Manager.launch
  refine wp_before_any (only_wrapped (offStore_virtCall _) _) hu herr fun _ u' hu' => ?_
  refine wp_before_any aside_now.offStore hu' herr fun createdAt u' hu' => ?_
  refine wp_before_any aside_now.offStore hu' herr fun updatedAt u' hu' => ?_
  refine wp_written hu' ?_ fun u' hadds => (wp_ret _ _ _).mpr (hadds _)
  rw [calculateQuotaUsage_put_new hfresh, hspec]
  rfl

theorem adds_createIn (hu : w.Later u) {spec : VMSpec} {natMAC id : String} {vmDir : HostPath}
    (hfresh : w.store.vms.get? id = none) (hspec : QuotaAmounts.ofSpec spec = change) :
    wp World.sem (Manager.createIn d spec natMAC id vmDir) (w.Adds change) u := by
  have herr : ∀ (e : Err) u', w.Later u' → w.Adds change (.error e) u' := fun e u' _ => adds_error e u'
  have hcleanup : ∀ e, Yields (fun _ : VM => False)
      (Manager.cleanupCreate natMAC spec.natStaticIP vmDir >>= fun _ => .throw e) :=
    fun e => Yields.last fun _ => .throw e
  refine wp_before (φ := fun r => ∀ p, r = .ok p → spec.SameSizes p.spec)
    (Manager.offStore_provision d spec natMAC _).attempt
    ((Manager.sizes_provision d spec natMAC _).attempt) hu herr fun r u' hr hu' => ?_
  cases r with
  | error e => exact adds_fails (hcleanup e) u'
  | ok p =>
      dsimp only
      rw [bind_eq, wp_bind, wp_attempt]
      refine wp_mono (fun r u'' h => ?_) (adds_launch hu' hfresh ((hr p rfl).ofSpec.trans hspec))
      cases r with
      | error e => exact adds_fails (Yields.last fun _ => hcleanup e) u''
      | ok vm => exact (wp_ret _ _ _).mpr h

/-- A creation adds what the request asks for, with the defaults filled in. -/
theorem adds_create (hpast : w.IDsPast) (spec : VMSpec) :
    wp World.sem (Manager.create d spec) (w.Adds (.ofSpec (Manager.applyDefaults d spec))) w := by
  have herr : ∀ (e : Err) u', w.Later u' →
      w.Adds (.ofSpec (Manager.applyDefaults d spec)) (.error e) u' := fun e u' _ => adds_error e u'
  unfold Manager.create
  refine wp_before (Manager.aside_prepareCreate d spec).offStore (Manager.sizes_prepareCreate d spec)
    ⟨rfl, le_rfl⟩ herr ?_
  rintro ⟨filled, location, generated⟩ u hfilled hu
  refine wp_before_any (offStore_hostCall _) hu herr fun natMAC u' hu' => ?_
  refine wp_before (Manager.aside_chooseAddress d filled natMAC).offStore
    (Manager.sizes_chooseAddress d filled natMAC) hu' herr fun addressed u' haddressed hu' => ?_
  refine wp_instant hu' fun n u' hn hu' => ?_
  refine wp_before_any (only_wrapped (offStore_fileCall _) _) hu' herr fun _ u' hu' => ?_
  rw [bind_eq, wp_bind]
  refine wp_mono (fun r u'' h => ?_)
    (adds_createIn d hu' (hpast n hn) (hfilled.trans haddressed).ofSpec)
  cases r with
  | error e => exact adds_error e u''
  | ok vm => exact (wp_ret _ _ _).mpr fun _ _ => h vm rfl

/-- What a clone has of its source. -/
def VMSpec.withoutGPUs (spec : VMSpec) : VMSpec := { spec with gpus := [] }

theorem sizes_cloneVMSpec (source : VMSpec) (newName : String) :
    Yields (fun s => source.withoutGPUs.SameSizes s)
      (Manager.cloneVMSpec source newName) :=
  Yields.last fun _ => .ret ⟨rfl, rfl, rfl, rfl⟩

theorem offStore_defineClone (spec : VMSpec) (natMAC : String) (diskPath : HostPath) :
    OffStore (Manager.defineClone d spec natMAC diskPath) :=
  (only_wrapped (offStore_fileCall _) _).bind fun _ =>
    (only_orWrap _ _).bind fun _ => only_wrapped (offStore_virtCall _) _

theorem adds_finishClone (hu : w.Later u) {source : VM} {spec : VMSpec} {id natMAC : String}
    {reserved : Option String} {diskPath : HostPath} (hfresh : w.store.vms.get? id = none)
    (hspec : QuotaAmounts.ofSpec spec = change) :
    wp World.sem (Manager.finishClone d source spec id natMAC reserved diskPath) (w.Adds change) u := by
  have herr : ∀ (e : Err) u', w.Later u' → w.Adds change (.error e) u' := fun e u' _ => adds_error e u'
  have hcleanup : ∀ e, Yields (fun _ : VM => False)
      (Manager.cleanupClone natMAC reserved diskPath.dir >>= fun _ => .throw e) :=
    fun e => Yields.last fun _ => .throw e
  unfold Manager.finishClone
  refine wp_before_any (offStore_defineClone d spec natMAC diskPath).attempt hu herr fun r u' hu' => ?_
  cases r with
  | error e => exact adds_fails (hcleanup e) u'
  | ok dom =>
      dsimp only
      refine wp_before_any aside_now.offStore hu' herr fun createdAt u' hu' => ?_
      refine wp_before_any aside_now.offStore hu' herr fun updatedAt u' hu' => ?_
      refine wp_putting hu' ?_ (fun e u' => adds_fails (Yields.last fun _ => hcleanup _) u')
        fun u' hadds => (wp_ret _ _ _).mpr (hadds _)
      refine (calculateQuotaUsage_put_new hfresh).trans ?_
      exact congrArg (w.stored + ·) hspec

/-- A clone adds what its source uses, but for the GPUs. -/
theorem adds_clone (hpast : w.IDsPast) {sourceID : String} {source : VM}
    (hsource : w.store.vms.get? sourceID = some source) (newName : String) :
    wp World.sem (Manager.clone d sourceID newName)
      (w.Adds (.ofSpec source.spec.withoutGPUs)) w := by
  have herr : ∀ (e : Err) u', w.Later u' →
      w.Adds (.ofSpec source.spec.withoutGPUs) (.error e) u' := fun e u' _ => adds_error e u'
  have hw : w.Later w := ⟨rfl, le_rfl⟩
  unfold Manager.clone
  refine wp_fetched fun vm hvm => ?_
  obtain rfl := Option.some.inj (hsource.symm.trans hvm)
  refine wp_before_any (offStore_lookupDomain _) hw herr fun dom u hu => ?_
  refine wp_before_any (only_wrapped (offStore_virtCall _) _) hu herr fun state u hu => ?_
  refine wp_before_any (only_failIf _ _) hu herr fun _ u hu => ?_
  refine wp_before_any (only_wrapped (offStore_netCall _) _) hu herr fun _ u hu => ?_
  refine wp_before (Manager.aside_cloneVMSpec _ _).offStore (sizes_cloneVMSpec _ _) hu herr
    fun spec u hspec hu => ?_
  refine wp_before_any (Manager.aside_cloneLocation d _).offStore hu herr fun loc u hu => ?_
  refine wp_instant hu fun n u hn hu => ?_
  refine wp_before_any (only_wrapped (offStore_fileCall _) _) hu herr fun _ u hu => ?_
  refine wp_before_any (Manager.outside_copyDisk _ _).offStore hu herr fun _ u hu => ?_
  refine wp_before_any (offStore_hostCall _) hu herr fun natMAC u hu => ?_
  refine wp_before_any (Manager.aside_cloneAddress d _ _).offStore hu herr fun reserved u hu => ?_
  have hsizes : ∀ s : VMSpec, spec.SameSizes s →
      source.spec.withoutGPUs.SameSizes (Manager.withAddress d s reserved) := by
    intro s hs
    refine (hspec.trans hs).trans ?_
    cases reserved with
    | none => exact ⟨rfl, rfl, rfl, rfl⟩
    | some ip => exact ⟨rfl, rfl, rfl, rfl⟩
  have hfinish := fun s diskPath hs => @adds_finishClone w u _ d hu source (Manager.withAddress d s reserved)
    (Manager.vmID n) natMAC reserved diskPath (hpast n hn) (hsizes s hs).ofSpec
  refine hfinish _ _ ?_
  exact ⟨rfl, rfl, rfl, rfl⟩

/-! ### Changing -/

/-- Nothing but what a patch may change, and of the sizes what it says. -/
theorem ofSpec_patched {spec spec' : VMSpec} {patch : VMUpdateSpec}
    (hcpus : spec'.cpus = if 0 < patch.cpus then patch.cpus else spec.cpus)
    (hram : spec'.ramMB = if 0 < patch.ramMB then patch.ramMB else spec.ramMB)
    (hdisk : spec'.diskGB = if 0 < patch.diskGB then patch.diskGB else spec.diskGB)
    (hgpus : spec'.gpus = spec.gpus) :
    QuotaAmounts.ofSpec spec' = .ofSpec spec + .ofPatch spec patch := by
  have hresolved : spec'.resolvedGPUs = spec.resolvedGPUs := by
    unfold VMSpec.resolvedGPUs
    rw [hgpus]
  ext
  · rfl
  · simp only [QuotaAmounts.ofSpec, QuotaAmounts.ofPatch, QuotaAmounts.add_cpus, hcpus]
    split_ifs <;> omega
  · simp only [QuotaAmounts.ofSpec, QuotaAmounts.ofPatch, QuotaAmounts.add_ramMB, hram]
    split_ifs <;> omega
  · simp only [QuotaAmounts.ofSpec, QuotaAmounts.ofPatch, QuotaAmounts.add_diskGB, hdisk]
    split_ifs <;> omega
  · simp [QuotaAmounts.ofSpec, QuotaAmounts.ofPatch, QuotaAmounts.add_gpus, hresolved]

theorem add_ofPatch_same {spec : VMSpec} {patch : VMUpdateSpec}
    (hcpus : (if 0 < patch.cpus then patch.cpus else spec.cpus) = spec.cpus)
    (hram : (if 0 < patch.ramMB then patch.ramMB else spec.ramMB) = spec.ramMB)
    (hdisk : (if 0 < patch.diskGB then patch.diskGB else spec.diskGB) = spec.diskGB)
    (usage : QuotaAmounts) : usage + .ofPatch spec patch = usage := by
  have hcast : ∀ a b : Nat, a = b → (a : Int) - b = 0 := by omega
  have h₁ := hcast _ _ hcpus
  have h₂ := hcast _ _ hram
  have h₃ := hcast _ _ hdisk
  ext
  · simp [QuotaAmounts.ofPatch]
  · simp only [QuotaAmounts.ofPatch, QuotaAmounts.add_cpus]
    split_ifs at h₁ ⊢ <;> omega
  · simp only [QuotaAmounts.ofPatch, QuotaAmounts.add_ramMB]
    split_ifs at h₂ ⊢ <;> omega
  · simp only [QuotaAmounts.ofPatch, QuotaAmounts.add_diskGB]
    split_ifs at h₃ ⊢ <;> omega
  · simp [QuotaAmounts.ofPatch]

theorem adds_applyUpdate (hu : w.Later u) {id : String} {vm : VM} (hid : vm.id = id)
    (hvm : w.store.vms.get? id = some vm) {dom : Nat} {p : UpdatePlan} {wasRunning : Bool}
    (hspec : ∀ hash enc, QuotaAmounts.ofSpec (p.apply vm hash enc).spec = .ofSpec vm.spec + change) :
    wp World.sem (Manager.applyUpdate d dom vm p wasRunning) (w.Adds change) u := by
  have herr : ∀ (e : Err) u', w.Later u' → w.Adds change (.error e) u' := fun e u' _ => adds_error e u'
  unfold Manager.applyUpdate
  refine wp_before_any (only_when (Manager.offStore_stopForUpdate _ _)) hu herr fun _ u hu => ?_
  refine wp_before_any (only_when (Manager.offStore_growDisk _ _ _ _)) hu herr fun _ u hu => ?_
  refine wp_before_any (only_when (Manager.aside_changeAddress _ _).offStore) hu herr fun _ u hu => ?_
  refine wp_before_any (Manager.aside_updatedVNC d _ _).offStore hu herr fun vnc u hu => ?_
  refine wp_before_any (only_when (Manager.offStore_redefineForUpdate d _ _ _)) hu herr fun _ u hu => ?_
  refine wp_before_any aside_now.offStore hu herr fun updatedAt u hu => ?_
  refine wp_written hu ?_ fun u' hadds => ?_
  · refine (congrArg (fun id => calculateQuotaUsage (w.store.vms.put id _).values) hid).trans ?_
    exact calculateQuotaUsage_put_old hvm (hspec vnc.1 vnc.2)
  · exact adds_after ((only_when (Manager.offStore_restartAfterUpdate _)).bind fun _ => .ret _) hadds

/-- An update adds what the patch says. -/
theorem adds_update {id : String} {vm : VM} (hid : vm.id = id) (hvm : w.store.vms.get? id = some vm)
    (patch : VMUpdateSpec) :
    wp World.sem (Manager.update d id patch) (w.Adds (.ofPatch vm.spec patch)) w := by
  have herr : ∀ (e : Err) u', w.Later u' → w.Adds (.ofPatch vm.spec patch) (.error e) u' :=
    fun e u' _ => adds_error e u'
  have hw : w.Later w := ⟨rfl, le_rfl⟩
  unfold Manager.update
  refine wp_fetched fun vm' hvm' => ?_
  obtain rfl := Option.some.inj (hvm.symm.trans hvm')
  refine wp_before_any (offStore_lookupDomain _) hw herr fun dom u hu => ?_
  refine wp_before_any (offStore_virtCall _) hu herr fun state u hu => ?_
  dsimp only
  rw [bind_eq, wp_bind, wp_orFail]
  cases hresolve : UpdatePlan.resolve d vm patch (state.toOption = some .running) with
  | error e => exact adds_error e u
  | ok p =>
      obtain ⟨ip, vnc, -, -, -, hp⟩ := UpdatePlan.resolve_ok hresolve
      -- a plan that changes no size is one of a patch that changes none
      have hflags : p.onlyFlags vm = true →
          ∀ usage : QuotaAmounts, usage + .ofPatch vm.spec patch = usage := by
        intro hflags
        unfold UpdatePlan.onlyFlags at hflags
        simp only [Bool.and_eq_true, decide_eq_true_eq] at hflags
        rw [hp] at hflags
        refine add_ofPatch_same ?_ ?_ ?_
        · exact hflags.1.1.1.1.1.1.1.1.1.1
        · exact hflags.1.1.1.1.1.1.1.1.1.2
        · exact hflags.1.1.1.1.1.1.1.1.2
      dsimp only
      split_ifs with hnothing hmeta
      · refine (wp_ret _ _ _).mpr (World.Adds.of_store hu.store (hflags ?_ _) vm)
        unfold UpdatePlan.nothingToDo at hnothing
        simp only [Bool.and_eq_true] at hnothing
        exact hnothing.1.1
      · unfold UpdatePlan.metadataOnly at hmeta
        simp only [Bool.and_eq_true] at hmeta
        unfold Manager.updateFlags
        refine wp_before_any aside_now.offStore hu herr fun updatedAt u hu => ?_
        refine wp_written hu ?_ fun u' hadds => (wp_ret _ _ _).mpr (hadds _)
        refine (congrArg (fun id => calculateQuotaUsage (w.store.vms.put id _).values) hid).trans ?_
        refine calculateQuotaUsage_put_old hvm ?_
        rw [hflags hmeta.1]
        exact VMSpec.SameSizes.ofSpec ⟨rfl, rfl, rfl, rfl⟩
      · refine adds_applyUpdate d hu hid hvm fun hash enc => ?_
        rw [hp]
        refine ofSpec_patched ?_ ?_ ?_ ?_
        · rfl
        · rfl
        · rfl
        · rfl

end Creating

-- addresses are compared here, never worked out
attribute [local irreducible] normalizePCIAddress

/-- Addresses that are canonical and not there yet are all kept. -/
theorem foldl_distinct {gs out : List String} (hcanonical : ∀ g ∈ gs, normalizePCIAddress g = g ∧ g ≠ "")
    (hnew : (out ++ gs).Nodup) :
    gs.foldl (fun out g =>
      let n := normalizePCIAddress g
      if n = "" ∨ n ∈ out then out else out ++ [n]) out = out ++ gs := by
  induction gs generalizing out with
  | nil => simp
  | cons g gs ih =>
      obtain ⟨hg, hne⟩ := hcanonical g List.mem_cons_self
      have hmem : g ∉ out := fun hmem =>
        (List.nodup_append.mp hnew).2.2 g hmem g List.mem_cons_self rfl
      rw [List.foldl_cons]
      dsimp only
      rw [hg, if_neg (by simp [hne, hmem]), ih (fun g' hg' => hcanonical g' (List.mem_cons_of_mem _ hg'))]
      · simp
      · simpa using hnew

theorem resolvedGPUs_nodup (spec : VMSpec) : spec.resolvedGPUs.Nodup := by
  have hfold : ∀ (gs out : List String), out.Nodup → (gs.foldl (fun out g =>
      let n := normalizePCIAddress g
      if n = "" ∨ n ∈ out then out else out ++ [n]) out).Nodup := by
    intro gs
    induction gs with
    | nil => exact fun out hout => hout
    | cons g gs ih =>
        intro out hout
        rw [List.foldl_cons]
        dsimp only
        split_ifs with hskip
        · exact ih out hout
        · refine ih _ ?_
          rw [List.nodup_append]
          refine ⟨hout, List.nodup_singleton _, fun a ha b hb => ?_⟩
          rw [List.mem_singleton.mp hb]
          rintro rfl
          exact hskip (.inr ha)
  exact hfold spec.gpus [] List.nodup_nil

/-- One more GPU is one more resolved. -/
theorem resolvedGPUs_attached {spec : VMSpec} {norm : String} (hcanonical : normalizePCIAddress norm = norm)
    (hne : norm ≠ "") (hnew : norm ∉ spec.resolvedGPUs) :
    ({ spec with gpus := spec.resolvedGPUs ++ [norm] } : VMSpec).resolvedGPUs =
      spec.resolvedGPUs ++ [norm] := by
  refine (foldl_distinct ?_ ?_).trans (List.nil_append _)
  · intro g hg
    rcases List.mem_append.mp hg with hg | hg
    · obtain ⟨hne', raw, -, hraw⟩ := mem_resolvedGPUs.mp hg
      refine ⟨?_, hne'⟩
      rw [← hraw, normalize_normalize]
    · rw [List.mem_singleton.mp hg]
      exact ⟨hcanonical, hne⟩
  · rw [List.nil_append, List.nodup_append]
    refine ⟨resolvedGPUs_nodup spec, List.nodup_singleton _, fun a ha b hb => ?_⟩
    rw [List.mem_singleton.mp hb]
    rintro rfl
    exact hnew ha

/-- An attached GPU adds one. -/
theorem adds_attachGPU (d : Daemon) {id : String} {vm : VM} (hid : vm.id = id)
    (hvm : w.store.vms.get? id = some vm) (pciAddr : String) (force : Bool) :
    wp World.sem (Manager.attachGPU d id pciAddr force) (w.Adds { gpus := 1 }) w := by
  have herr : ∀ (e : Err) u', w.Later u' → w.Adds { gpus := 1 } (.error e) u' :=
    fun e u' _ => adds_error e u'
  have hw : w.Later w := ⟨rfl, le_rfl⟩
  unfold Manager.attachGPU
  dsimp only
  rw [bind_eq, wp_bind, wp_failIf]
  refine ⟨fun _ => adds_error _ _, fun hne => ?_⟩
  refine wp_fetched fun vm' hvm' => ?_
  obtain rfl := Option.some.inj (hvm.symm.trans hvm')
  rw [bind_eq, wp_bind, wp_failIf]
  refine ⟨fun _ => adds_error _ _, fun hnew => ?_⟩
  refine wp_before_any (only_wrapped (offStore_virtCall _) _) hw herr fun dom u hu => ?_
  refine wp_before_any (offStore_domainStateToVMState _) hu herr fun state u hu => ?_
  refine wp_before_any (only_failIf _ _) hu herr fun _ u hu => ?_
  refine wp_before_any (Manager.offStore_redefineDomain d _ _ _) hu herr fun _ u hu => ?_
  refine wp_before_any (only_when (Manager.offStore_liveAttach _ _)) hu herr fun _ u hu => ?_
  refine wp_before_any aside_now.offStore hu herr fun updatedAt u hu => ?_
  refine wp_written hu ?_ fun u' hadds => (wp_ret _ _ _).mpr (hadds _)
  refine (congrArg (fun id => calculateQuotaUsage (w.store.vms.put id _).values) hid).trans ?_
  refine calculateQuotaUsage_put_old hvm ?_
  have hresolved := resolvedGPUs_attached (normalize_normalize pciAddr) hne hnew
  ext
  · rfl
  · simp [QuotaAmounts.ofSpec]
  · simp [QuotaAmounts.ofSpec]
  · simp [QuotaAmounts.ofSpec]
  · simp [QuotaAmounts.ofSpec, hresolved]

end Operations

/-! ### What the checks decide -/

section Checks

variable {w u : World} {F : Failing} {α β : Type} {P : Prop} {cfg : QuotasConfig}

/-- The check passes just when `P` holds, and nothing is stored by it. -/
def World.Decides (w : World) (P : Prop) (res : Except Err Unit) (w' : World) : Prop :=
  (res = .ok () ↔ P) ∧ w'.store = w.store

theorem decides_ok (hu : u.store = w.store) (hP : P) : w.Decides P (.ok ()) u :=
  ⟨iff_of_true rfl hP, hu⟩

theorem decides_error (e : Err) (hu : u.store = w.store) (hP : ¬ P) : w.Decides P (.error e) u :=
  ⟨iff_of_false (by simp) hP, hu⟩

/-- Something is read off the store; reading it does not fail. -/
theorem wp_reading {φ : α → Prop} {p : M α} (hp : Returns Cmd.OffStore p) (hy : Yields φ p)
    {Q : Except Err α → World → Prop} (hok : ∀ a u', φ a → u'.store = u.store → Q (.ok a) u') :
    wp (World.under F) p Q u := by
  refine wp_mono (fun r u' h => ?_) (wp_yields hy
    (wp_of_returns (fun u' => u'.store = u.store) (fun _ _ _ _ => trivial) ?_ hp rfl
      (Q := fun r u' => u'.store = u.store ∧ ∃ a, r = .ok a) fun a u' h => ⟨h, a, rfl⟩))
  · obtain ⟨⟨hstore, a, rfl⟩, ha⟩ := h
    exact hok a u' (ha a rfl) hstore
  · rintro u' c r u'' hu' hc ⟨x, hexec⟩
    exact (World.exec_offStore hc (World.execUnder_eq.mp hexec).2).trans hu'

theorem returns_refresh (vm : VM) : Returns Cmd.OffStore (Manager.refresh vm) := by
  refine (returns_perform (by exact trivial)).bind fun r => ?_
  cases r with
  | error e => exact .ret _
  | ok dom =>
      refine ((returns_perform (by exact trivial)).bind fun _ => .ret _).bind fun state => ?_
      exact (returns_perform (by exact trivial)).bind fun ip => .ret _

theorem spec_refresh (vm : VM) : Yields (fun v => v.spec = vm.spec) (Manager.refresh vm) := by
  refine Yields.last fun r => ?_
  cases r with
  | ok dom => exact Yields.last fun _ => Yields.last fun _ => .ret rfl
  | error _ => exact .ret rfl

theorem withStaticIP_spec (vm : VM) : (Manager.withStaticIP vm).spec = vm.spec := by
  unfold Manager.withStaticIP
  split_ifs
  · rfl
  · rfl

theorem returns_refreshAll (vms : List VM) : Returns Cmd.OffStore (Manager.refreshAll vms) := by
  induction vms with
  | nil => exact .ret _
  | cons vm vms ih =>
      rw [Manager.refreshAll]
      exact (returns_refresh vm).bind fun _ => ih.bind fun _ => .ret _

theorem specs_refreshAll (vms : List VM) :
    Yields (fun vs => vs.map VM.spec = vms.map VM.spec) (Manager.refreshAll vms) := by
  induction vms with
  | nil => exact .ret rfl
  | cons vm vms ih =>
      rw [Manager.refreshAll]
      refine (spec_refresh vm).bind fun v hv => ih.bind fun vs hvs => .ret ?_
      rw [List.map_cons, List.map_cons, withStaticIP_spec, hv, hvs]

/-- The VMs are listed and added up. -/
theorem wp_usage (hu : u.store = w.store) {f : List VM → M β} {Q : Except Err β → World → Prop}
    (hok : ∀ vms u', calculateQuotaUsage vms = w.stored → u'.store = w.store →
      wp (World.under calm) (f vms) Q u') : wp (World.under calm) (Manager.list >>= f) Q u := by
  rw [bind_eq, wp_bind]
  unfold Manager.list listVMs storeCall
  rw [bind_eq, wp_bind, bind_eq, wp_bind]
  have hlisted : ∀ x : Choice, x.fail = calm (.store .listVMs) →
      World.exec (.store .listVMs) x u = some ((Except.ok u.store.vms.values : Except Err (List VM)), u) := by
    intro x hx
    have hx : x.fail = none := hx
    simp [World.exec, StoreState.exec, fallible, hx]
  refine (World.wp_under hlisted _).mpr ?_
  show wp _ (orFail _) _ _
  rw [wp_orFail]
  refine wp_reading (returns_refreshAll _) (specs_refreshAll _) fun vms u' hvms hu' => ?_
  refine hok vms u' ?_ (hu'.trans hu)
  rw [calculateQuotaUsage_congr hvms, World.stored, ← hu]

/-- A stored VM is read. -/
theorem wp_current (hu : u.store = w.store) {id : String} {vm : VM} (hvm : w.store.vms.get? id = some vm)
    {f : VM → M β} {Q : Except Err β → World → Prop}
    (hok : ∀ v u', v.spec = vm.spec → u'.store = w.store → wp (World.under calm) (f v) Q u') :
    wp (World.under calm) (Manager.get id >>= f) Q u := by
  rw [bind_eq, wp_bind]
  unfold Manager.get
  rw [bind_eq, wp_bind]
  refine World.wp_getVM (fun e hwhy => ?_) (fun vm' _ hvm' => ?_)
  · rw [hu, hvm] at hwhy
    exact absurd hwhy (by simp [calm])
  · rw [hu] at hvm'
    obtain rfl := Option.some.inj (hvm.symm.trans hvm')
    dsimp only
    rw [bind_eq, wp_bind]
    refine wp_reading (returns_refresh vm) (spec_refresh vm) fun v u' hv hu' => ?_
    exact (wp_ret _ _ _).mpr (hok _ u' ((withStaticIP_spec v).trans hv) (hu'.trans hu))

theorem wp_checkLimit {limit attempted : Int} {field label : String} {f : Unit → M Unit}
    {Q : Except Err Unit → World → Prop} (herr : ∀ e, QuotasConfig.exceeds limit attempted → Q (.error e) u)
    (hok : ¬ QuotasConfig.exceeds limit attempted → wp (World.under F) (f ()) Q u) :
    wp (World.under F) (QuotaManager.checkLimit limit attempted field label >>= f) Q u := by
  rw [bind_eq, wp_bind]
  unfold QuotaManager.checkLimit
  rw [wp_failIf]
  exact ⟨herr _, hok⟩

theorem decides_validateQuotaDelta (hu : u.store = w.store) (usage delta : QuotaAmounts) :
    wp (World.under F) (QuotaManager.validateQuotaDelta cfg usage delta)
      (w.Decides (cfg.Within (usage + delta))) u := by
  unfold QuotaManager.validateQuotaDelta
  refine wp_checkLimit (fun e h => decides_error e hu fun hw => hw.vms h) fun hvms => ?_
  refine wp_checkLimit (fun e h => decides_error e hu fun hw => hw.cpus h) fun hcpus => ?_
  refine wp_checkLimit (fun e h => decides_error e hu fun hw => hw.ramMB h) fun hram => ?_
  refine wp_checkLimit (fun e h => decides_error e hu fun hw => hw.diskGB h) fun hdisk => ?_
  unfold QuotaManager.checkLimit
  rw [wp_failIf]
  exact ⟨fun h => decides_error _ hu fun hw => hw.gpus h,
    fun hgpus => decides_ok hu ⟨hvms, hcpus, hram, hdisk, hgpus⟩⟩

/-- The API's refusal publishes an event first. -/
theorem wp_checkUsage {limit used : Int} {field what unit : String} {Q : Except Err Unit → World → Prop}
    (herr : ∀ e u', QuotasConfig.exceeds limit used → u'.store = u.store → Q (.error e) u')
    (hok : ¬ QuotasConfig.exceeds limit used → Q (.ok ()) u) :
    wp (World.under F) (Api.checkUsage limit used field what unit) Q u := by
  unfold Api.checkUsage
  rw [wp_onlyIf]
  refine ⟨fun hover => ?_, hok⟩
  unfold Api.quotaExceeded
  rw [bind_eq, wp_bind]
  refine wp_reading (φ := fun _ => True) (returns_perform (by exact trivial)) (yields_true _)
    fun at_ u' _ hu' => ?_
  dsimp only
  rw [bind_eq, wp_bind]
  refine wp_reading (φ := fun _ => True) (returns_perform (by exact trivial)) (yields_true _)
    fun _ u'' _ hu'' => ?_
  exact (wp_throw _ _ _).mpr (herr _ u'' hover (hu''.trans hu'))

theorem decides_validateQuotaUsage (hu : u.store = w.store) (usage : QuotaAmounts) :
    wp (World.under F) (Api.validateQuotaUsage cfg usage) (w.Decides (cfg.Within usage)) u := by
  have herr : ∀ (e : Err) u', u'.store = u.store → ¬ cfg.Within usage →
      w.Decides (cfg.Within usage) (.error e) u' := fun e u' hu' hP => decides_error e (hu'.trans hu) hP
  unfold Api.validateQuotaUsage
  rw [bind_eq, wp_bind]
  refine wp_checkUsage (fun e u' h hu' => herr e u' hu' fun hw => hw.vms h) fun hvms => ?_
  dsimp only
  rw [bind_eq, wp_bind]
  refine wp_checkUsage (fun e u' h hu' => herr e u' hu' fun hw => hw.cpus h) fun hcpus => ?_
  dsimp only
  rw [bind_eq, wp_bind]
  refine wp_checkUsage (fun e u' h hu' => herr e u' hu' fun hw => hw.ramMB h) fun hram => ?_
  dsimp only
  rw [bind_eq, wp_bind]
  refine wp_checkUsage (fun e u' h hu' => herr e u' hu' fun hw => hw.diskGB h) fun hdisk => ?_
  refine wp_checkUsage (fun e u' h hu' => herr e u' hu' fun hw => hw.gpus h) fun hgpus => ?_
  exact decides_ok hu ⟨hvms, hcpus, hram, hdisk, hgpus⟩

/-- With no quota configured nothing can be exceeded. -/
theorem within_of_none (h : ¬ Api.anyQuotaConfigured cfg) (usage : QuotaAmounts) : cfg.Within usage := by
  unfold Api.anyQuotaConfigured at h
  push Not at h
  obtain ⟨h₁, h₂, h₃, h₄, h₅⟩ := h
  exact ⟨fun h => absurd h.1 (by omega), fun h => absurd h.1 (by omega), fun h => absurd h.1 (by omega),
    fun h => absurd h.1 (by omega), fun h => absurd h.1 (by omega)⟩

theorem decides_enforce (hu : u.store = w.store) (change : QuotaAmounts) :
    wp (World.under calm) (onlyIf (Api.anyQuotaConfigured cfg) do
      let usage := Api.collectQuotaUsage (← Manager.list)
      Api.validateQuotaUsage cfg (usage + change)) (w.Decides (cfg.Within (w.stored + change))) u := by
  rw [wp_onlyIf]
  refine ⟨fun _ => ?_, fun hnone => decides_ok hu (within_of_none hnone _)⟩
  refine wp_usage hu fun vms u' hvms hu' => ?_
  rw [← hvms]
  exact decides_validateQuotaUsage hu' _

theorem decides_ensure (hu : u.store = w.store) (change : QuotaAmounts) :
    wp (World.under calm) (do
      let usage := calculateQuotaUsage (← Manager.list)
      QuotaManager.validateQuotaDelta cfg usage change) (w.Decides (cfg.Within (w.stored + change))) u := by
  refine wp_usage hu fun vms u' hvms hu' => ?_
  rw [← hvms]
  exact decides_validateQuotaDelta hu' _ _

/-- Two checks of the same are as one. -/
theorem decides_twice {p q : M Unit} (hp : wp (World.under F) p (w.Decides P) u)
    (hq : ∀ u', u'.store = w.store → wp (World.under F) q (w.Decides P) u') :
    wp (World.under F) (p >>= fun _ => q) (w.Decides P) u := by
  rw [bind_eq, wp_bind]
  refine wp_mono (fun r u' h => ?_) hp
  cases r with
  | error e => exact decides_error e h.2 fun hP => by simpa using h.1.mpr hP
  | ok _ => exact hq u' h.2

/-- An attached GPU is checked against the limit of GPUs alone, which is all it can exceed. -/
theorem decides_attach (hwithin : cfg.Within w.stored) :
    wp (World.under calm) (QuotaManager.ensureAttachWithinQuota cfg)
      (w.Decides (cfg.Within (w.stored + { gpus := 1 }))) w := by
  have hattached : cfg.Within (w.stored + { gpus := 1 }) ↔
      ¬ (0 < cfg.maxTotalGPUs ∧ cfg.maxTotalGPUs < w.stored.gpus + 1) := by
    refine ⟨fun h => h.gpus, fun h => ⟨?_, ?_, ?_, ?_, h⟩⟩
    · simpa using hwithin.vms
    · simpa using hwithin.cpus
    · simpa using hwithin.ramMB
    · simpa using hwithin.diskGB
  unfold QuotaManager.ensureAttachWithinQuota
  rw [wp_onlyIf]
  refine ⟨fun hlimit => ?_, fun hnone => decides_ok rfl (hattached.mpr fun h => hnone h.1)⟩
  refine wp_usage rfl fun vms u' hvms hu' => ?_
  dsimp only
  rw [wp_failIf, hvms]
  exact ⟨fun hover => decides_error _ hu' fun hw => hattached.mp hw ⟨hlimit, hover⟩,
    fun hfits => decides_ok hu' (hattached.mpr fun h => hfits h.2)⟩

end Checks

/-! ### Checked and stored -/

namespace QuotaRequest

/-- The record that a request is about, where it is about one. -/
def subject : QuotaRequest → Option String
  | .create _ => none
  | .clone sourceID _ => some sourceID
  | .update id _ => some id
  | .attachGPU id _ _ => some id

/-- What a request of this VM is checked for. -/
def checked (vm : VM) : QuotaRequest → QuotaAmounts
  | .create spec => .ofSpec spec
  | .clone _ _ => .ofSpec vm.spec
  | .update _ patch => .ofPatch vm.spec patch
  | .attachGPU _ _ _ => { gpus := 1 }

/-- What it adds to the store. -/
def added (d : Daemon) (vm : VM) : QuotaRequest → QuotaAmounts
  | .create spec => .ofSpec (Manager.applyDefaults d spec)
  | .clone _ _ => .ofSpec vm.spec.withoutGPUs
  | .update _ patch => .ofPatch vm.spec patch
  | .attachGPU _ _ _ => { gpus := 1 }

variable {d : Daemon} {cfg : QuotasConfig} {w : World} {req : QuotaRequest} {vm : VM}

/-- The VM is the one the request is about. -/
def About (req : QuotaRequest) (w : World) (vm : VM) : Prop :=
  ∀ id, req.subject = some id → w.store.vms.get? id = some vm

theorem decides_checks (hwithin : cfg.Within w.stored) (habout : req.About w vm) :
    wp (World.under calm) (req.checks cfg) (w.Decides (cfg.Within (w.stored + req.checked vm))) w := by
  cases req with
  | create spec => exact decides_twice (decides_enforce rfl _) fun u' hu' => decides_ensure hu' _
  | clone sourceID newName =>
      refine wp_current rfl (habout sourceID rfl) fun source u hsource hu => ?_
      rw [checked, ← hsource]
      exact decides_ensure hu _
  | update id patch =>
      refine wp_current rfl (habout id rfl) fun current u hcurrent hu => ?_
      rw [checked, ← hcurrent]
      refine decides_twice (decides_enforce hu _) fun u' hu' => ?_
      refine wp_current hu' (habout id rfl) fun again u'' hagain hu'' => ?_
      rw [hcurrent, ← hagain]
      exact decides_ensure hu'' _
  | attachGPU id pciAddr force => exact decides_attach hwithin

theorem adds_operation (hkeyed : w.store.Keyed) (hpast : w.IDsPast) (habout : req.About w vm) :
    wp World.sem (req.operation d) (w.Adds (req.added d vm)) w := by
  cases req with
  | create spec => exact adds_create d hpast spec
  | clone sourceID newName => exact adds_clone d hpast (habout sourceID rfl) newName
  | update id patch => exact adds_update d (hkeyed id vm (habout id rfl)) (habout id rfl) patch
  | attachGPU id pciAddr force =>
      exact adds_attachGPU d (hkeyed id vm (habout id rfl)) (habout id rfl) pciAddr force

/-- A request that succeeds is about a VM that is stored. -/
theorem stored_of_success {f : VM → M VM} {id : String} (hnone : w.store.vms.get? id = none) :
    wp World.sem (getVM id >>= f) (fun r _ => ∀ vm, r ≠ .ok vm) w := by
  rw [bind_eq, wp_bind]
  unfold getVM storeCall
  rw [bind_eq, wp_bind, wp_perform]
  refine ⟨trivial, ?_⟩
  rintro r u ⟨x, hexec⟩
  obtain ⟨s, hs, rfl⟩ := World.exec_store hexec
  obtain ⟨rfl, hr⟩ := StoreState.exec_getVM hs
  show wp _ (orFail r) _ _
  rw [wp_orFail]
  cases r with
  | error e => simp
  | ok vm =>
      rw [hnone] at hr
      exact absurd (hr vm rfl) (by simp)

theorem about_of_success {res : VM} {w' : World}
    (hop : Runs World.sem (req.operation d) w (.ok res) w') : ∃ vm, req.About w vm := by
  have hget : ∀ {id : String} {f : VM → M VM}, Runs World.sem (getVM id >>= f) w (.ok res) w' →
      ∃ vm, w.store.vms.get? id = some vm := by
    intro id f hrun
    cases hstored : w.store.vms.get? id with
    | none => exact absurd rfl (wp_sound (stored_of_success hstored) hrun res)
    | some vm => exact ⟨vm, rfl⟩
  cases req with
  | create spec => exact ⟨res, fun id h => by simp [subject] at h⟩
  | clone sourceID newName =>
      obtain ⟨vm, hvm⟩ := hget hop
      exact ⟨vm, fun id h => Option.some.inj h ▸ hvm⟩
  | update id patch =>
      obtain ⟨vm, hvm⟩ := hget hop
      exact ⟨vm, fun id' h => Option.some.inj h ▸ hvm⟩
  | attachGPU id pciAddr force =>
      have hop : Runs World.sem (Manager.attachGPU d id pciAddr force) w (.ok res) w' := hop
      unfold Manager.attachGPU at hop
      dsimp only at hop
      unfold failIf at hop
      split_ifs at hop
      · exact nomatch hop
      · obtain ⟨vm, hvm⟩ := hget hop
        exact ⟨vm, fun id' h => Option.some.inj h ▸ hvm⟩

/-- What is checked of a request is what it adds, as far as the limits can tell: the defaults
of a creation fit where what was asked for does, and so do the GPUs of a source where all
else of it does. -/
def Measured (cfg : QuotasConfig) (d : Daemon) (w : World) : QuotaRequest → Prop
  | .create spec => cfg.Within (w.stored + .ofSpec spec) →
      (spec.cpus = 0 → ¬ QuotasConfig.exceeds cfg.maxTotalCPUs (w.stored.cpus + d.cfg.defaults.cpus)) ∧
      (spec.ramMB = 0 →
        ¬ QuotasConfig.exceeds cfg.maxTotalRAMMB (w.stored.ramMB + d.cfg.defaults.ramMB)) ∧
      (spec.diskGB = 0 →
        ¬ QuotasConfig.exceeds cfg.maxTotalDiskGB (w.stored.diskGB + d.cfg.defaults.diskGB))
  | .clone sourceID _ => ∀ source, w.store.vms.get? sourceID = some source →
      cfg.Within (w.stored + .ofSpec source.spec.withoutGPUs) →
        ¬ QuotasConfig.exceeds cfg.maxTotalGPUs (w.stored.gpus + source.spec.resolvedGPUs.length)
  | .update _ _ | .attachGPU _ _ _ => True

theorem exceeds_mono {limit a b : Int} (h : a ≤ b) (hb : ¬ QuotasConfig.exceeds limit b) :
    ¬ QuotasConfig.exceeds limit a := by
  unfold QuotasConfig.exceeds at hb ⊢
  omega

theorem within_applyDefaults (usage : QuotaAmounts) (spec : VMSpec) :
    cfg.Within (usage + .ofSpec (Manager.applyDefaults d spec)) ↔
      cfg.Within (usage + .ofSpec spec) ∧
        (spec.cpus = 0 → ¬ QuotasConfig.exceeds cfg.maxTotalCPUs (usage.cpus + d.cfg.defaults.cpus)) ∧
        (spec.ramMB = 0 → ¬ QuotasConfig.exceeds cfg.maxTotalRAMMB (usage.ramMB + d.cfg.defaults.ramMB)) ∧
        (spec.diskGB = 0 →
          ¬ QuotasConfig.exceeds cfg.maxTotalDiskGB (usage.diskGB + d.cfg.defaults.diskGB)) := by
  -- one size: what is left out is stored as the default, and what is given as it is
  have hsize : ∀ (limit used : Int) (asked default_ : Nat),
      ¬ QuotasConfig.exceeds limit (used + (if asked = 0 then default_ else asked : Nat)) ↔
        ¬ QuotasConfig.exceeds limit (used + asked) ∧
          (asked = 0 → ¬ QuotasConfig.exceeds limit (used + default_)) := by
    intro limit used asked default_
    by_cases hzero : asked = 0
    · rw [if_pos hzero, hzero]
      refine ⟨fun h => ⟨exceeds_mono (by omega) h, fun _ => h⟩, fun h => h.2 rfl⟩
    · rw [if_neg hzero]
      exact ⟨fun h => ⟨h, fun hz => absurd hz hzero⟩, And.left⟩
  constructor
  · intro h
    obtain ⟨hcpus, hcpus'⟩ := (hsize _ _ _ _).mp h.cpus
    obtain ⟨hram, hram'⟩ := (hsize _ _ _ _).mp h.ramMB
    obtain ⟨hdisk, hdisk'⟩ := (hsize _ _ _ _).mp h.diskGB
    exact ⟨⟨h.vms, hcpus, hram, hdisk, h.gpus⟩, hcpus', hram', hdisk'⟩
  · rintro ⟨h, hcpus, hram, hdisk⟩
    exact ⟨h.vms, (hsize _ _ _ _).mpr ⟨h.cpus, hcpus⟩, (hsize _ _ _ _).mpr ⟨h.ramMB, hram⟩,
      (hsize _ _ _ _).mpr ⟨h.diskGB, hdisk⟩, h.gpus⟩

theorem within_withoutGPUs (usage : QuotaAmounts) (spec : VMSpec) :
    cfg.Within (usage + .ofSpec spec) ↔ cfg.Within (usage + .ofSpec spec.withoutGPUs) ∧
      ¬ QuotasConfig.exceeds cfg.maxTotalGPUs (usage.gpus + spec.resolvedGPUs.length) := by
  constructor
  · intro h
    refine ⟨⟨h.vms, h.cpus, h.ramMB, h.diskGB, exceeds_mono ?_ h.gpus⟩, h.gpus⟩
    simp [QuotaAmounts.ofSpec, VMSpec.withoutGPUs, VMSpec.resolvedGPUs]
  · rintro ⟨h, hgpus⟩
    exact ⟨h.vms, h.cpus, h.ramMB, h.diskGB, hgpus⟩

/-- What is checked fits just when what is added does, exactly for the requests measured. -/
theorem measured_iff (habout : req.About w vm) :
    ((cfg.Within (w.stored + req.checked vm) ↔ cfg.Within (w.stored + req.added d vm)) ↔
      req.Measured cfg d w) := by
  cases req with
  | create spec =>
      rw [checked, added, within_applyDefaults]
      exact ⟨fun h hfits => (h.mp hfits).2, fun h => ⟨fun hfits => ⟨hfits, h hfits⟩, And.left⟩⟩
  | clone sourceID newName =>
      have hsource := habout sourceID rfl
      rw [checked, added, within_withoutGPUs]
      refine ⟨fun h source hget hfits => ?_, fun h => ⟨And.left, fun hfits => ⟨hfits, h vm hsource hfits⟩⟩⟩
      obtain rfl := Option.some.inj (hsource.symm.trans hget)
      exact (h.mpr hfits).2
  | update id patch => exact ⟨fun _ => trivial, fun _ => Iff.rfl⟩
  | attachGPU id pciAddr force => exact ⟨fun _ => trivial, fun _ => Iff.rfl⟩

end QuotaRequest

open QuotaRequest in
/-- The checks of a request come to an end, and they pass exactly when the store is within the
limits after its operation, for just the requests whose defaults, or whose source's GPUs,
make no difference to the limits. -/
theorem quotas_measure (d : Daemon) (cfg : QuotasConfig) (req : QuotaRequest) {w : World}
    (hwithin : cfg.Within w.stored) (hkeyed : w.store.Keyed) (hpast : w.IDsPast) {vm : VM} {w' : World}
    (hop : Runs World.sem (req.operation d) w (.ok vm) w') :
    (∃ res u, Runs (World.under calm) (req.checks cfg) w res u) ∧
      ∀ res u, Runs (World.under calm) (req.checks cfg) w res u →
        ((res = .ok () ↔ cfg.Within w'.stored) ↔ req.Measured cfg d w) := by
  obtain ⟨subject, habout⟩ := about_of_success hop
  refine ⟨World.under_ends calm _ w, fun res u hrun => ?_⟩
  have hchecked := (wp_sound (decides_checks hwithin habout) hrun).1
  have hadded := wp_sound (adds_operation (d := d) hkeyed hpast habout) hop vm rfl
  rw [hchecked, hadded]
  exact measured_iff habout

/-! ### A host with no VM -/

open RequestSys (emptyHost)

theorem emptyHost_within (cfg : QuotasConfig) : cfg.Within emptyHost.stored := by
  have hzero : ∀ limit : Int, ¬ QuotasConfig.exceeds limit 0 := fun limit h => by
    have h₁ := h.1
    have h₂ := h.2
    omega
  exact ⟨hzero _, hzero _, hzero _, hzero _, hzero _⟩

theorem emptyHost_keyed : emptyHost.store.Keyed := by simp [emptyHost, StoreState.Keyed]

theorem emptyHost_idsPast : emptyHost.IDsPast := fun _ _ => rfl

/-- How the host answers a creation. -/
def creating : List Choice :=
  List.replicate 18 { flag := true, nat := 1, text := "52:54:00:00:00:01" }

/-- One CPU, for all VMs together. -/
def oneCPU : QuotasConfig := { maxTotalCPUs := 1 }

theorem quotas_measure_oneCPU : ∃ vm w',
    Runs World.sem (Manager.create .plain { name := "web", image := "rocky9", cpus := 1 }) emptyHost
      (.ok vm) w' ∧
    ∀ res u, Runs (World.under calm)
      ((QuotaRequest.create { name := "web", image := "rocky9", cpus := 1 }).checks oneCPU) emptyHost
        res u → (res = .ok () ↔ oneCPU.Within w'.stored) := by
  have hrun : ((Prog.run World.exec (Manager.create .plain { name := "web", image := "rocky9", cpus := 1 })
      creating emptyHost).any fun p => p.1.isOk) = true := by decide +kernel
  obtain ⟨⟨res, w'⟩, hrun, hok⟩ := (Option.any_eq_true _ _).mp hrun
  cases res with
  | error e => exact absurd hok (by simp [Except.isOk, Except.toBool])
  | ok vm =>
      have hop := Prog.runs_of_run hrun
      refine ⟨vm, w', hop, fun res u hchecks => ?_⟩
      refine ((quotas_measure .plain oneCPU (.create { name := "web", image := "rocky9", cpus := 1 })
        (emptyHost_within _) emptyHost_keyed emptyHost_idsPast hop).2 res u hchecks).mpr fun _ => ?_
      refine ⟨fun h => absurd h (by decide), fun _ h => ?_, fun _ h => ?_⟩
      · exact absurd h.1 (by decide)
      · exact absurd h.1 (by decide)

/-- A creation that leaves the CPUs to the default is let through, and gets two of one. -/
theorem quotas_mismeasure : ¬ ∀ (d : Daemon) (cfg : QuotasConfig) (req : QuotaRequest) (w : World),
    cfg.Within w.stored → w.store.Keyed → w.IDsPast → ∀ vm w',
      Runs World.sem (req.operation d) w (.ok vm) w' →
        ∀ res u, Runs (World.under calm) (req.checks cfg) w res u →
          (res = .ok () ↔ cfg.Within w'.stored) := by
  intro hall
  have hrun : ((Prog.run World.exec (Manager.create .plain { name := "web", image := "rocky9" })
      creating emptyHost).any fun p => p.1.isOk) = true := by decide +kernel
  obtain ⟨⟨res, w'⟩, hrun, hok⟩ := (Option.any_eq_true _ _).mp hrun
  cases res with
  | error e => exact absurd hok (by simp [Except.isOk, Except.toBool])
  | ok vm =>
      have hop := Prog.runs_of_run hrun
      have hadded := wp_sound (adds_create .plain emptyHost_idsPast _) hop vm rfl
      obtain ⟨checked, u, hchecks⟩ := World.under_ends calm
        ((QuotaRequest.create { name := "web", image := "rocky9" }).checks oneCPU) emptyHost
      have habout : (QuotaRequest.create { name := "web", image := "rocky9" }).About emptyHost vm :=
        fun _ h => by simp [QuotaRequest.subject] at h
      have hpass := (wp_sound (QuotaRequest.decides_checks (emptyHost_within oneCPU) habout) hchecks).1
      have hfits := (hall .plain oneCPU (.create { name := "web", image := "rocky9" }) emptyHost
        (emptyHost_within _) emptyHost_keyed emptyHost_idsPast vm w' hop checked u hchecks).mp (hpass.mpr ?_)
      · rw [hadded] at hfits
        exact hfits.cpus ⟨by decide, by decide⟩
      · rw [QuotaRequest.checked]
        exact ⟨fun h => absurd h.1 (by decide), fun h => absurd h.2 (by decide),
          fun h => absurd h.1 (by decide), fun h => absurd h.1 (by decide), fun h => absurd h.1 (by decide)⟩

end VMSmith
