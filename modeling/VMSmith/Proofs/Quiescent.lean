/-
`qemu-img` on a VM's disk, and the domain meanwhile.

A clone, an update that grows the disk and an export each look at the domain once and have
`qemu-img` work on its disk later.  The look of a clone and of an update takes every domain that
does not run for one that is shut off, and nothing keeps a domain from being started between
the look and the end of `qemu-img`.

`Held` is the condition on a step that excludes both.
-/
import VMSmith.VM.DiskSys
import VMSmith.VM.Document
import VMSmith.VM.OffStore

namespace VMSmith

open Prog

/-! ### What a call does -/

/-- Which commands a call may issue, after what it has been answered. -/
def DiskNote.ok (v : DiskNote) : Cmd → Prop
  | .store (.getVM _) => v = {}
  | .store (.putVM vm) => (∀ r, v.record = some r → r.spec.name = r.name) → vm.spec.name = vm.name
  | .store _ => False
  | .virt (.lookupDomainByName name) => ∃ r, v.record = some r ∧ name = r.name
  | .virt (.getState dom) | .virt (.getUUIDString dom) | .virt (.waitForShutoff dom) => v.dom = some dom
  | .virt (.domainDefineXML xml) => xml.uuid = none ∨ xml.uuid = v.uuid ∧
      ∃ r, v.record = some r ∧ (r.spec.name = r.name → xml.name = r.name)
  | .virt (.revertToSnapshot _ _) => False
  | .file (.convertDisk p _) | .file (.resizeDisk p _) => v.settled = true ∧ ∃ r, v.record = some r ∧ p = r.diskPath
  | _ => True

theorem Cmd.Aside.diskOk {c : Cmd} {v : DiskNote} (h : c.Aside) : v.ok c := by
  cases c with
  | store c | virt c => exact h.elim
  | net c | host c => exact trivial
  | file c => cases c <;> first | exact h.elim | exact trivial

theorem Cmd.Aside.diskAdd {c : Cmd} {v : DiskNote} {op : DiskCall} (h : c.Aside) (res : c.Resp) :
    v.add op c res = v := by
  cases c with
  | store c | virt c => exact h.elim
  | net c | host c => rfl
  | file c => cases c <;> first | exact h.elim | rfl

namespace DiskCall

abbrev diskSem (op : DiskCall) : Sem Cmd Cmd.Resp DiskNote := Sem.account (DiskNote.add op) DiskNote.ok

variable {op : DiskCall} {v : DiskNote} {r : VM} {dom : Nat} {α β : Type}

/-- What works on no disk leaves the note alone. -/
theorem wp_aside {p : M α} (hp : Aside p) {Q : Except Err α → DiskNote → Prop} (hQ : ∀ res, Q res v) :
    wp (diskSem op) p Q v := by
  refine wp_of_only (fun v' => v' = v) (fun v' c _ hc => hc.diskOk) (fun v' c res v'' hv hc hnext => ?_) hp rfl
    fun res v' hv => hv ▸ hQ res
  have hnext : v'' = v'.add op c res := hnext
  rw [hnext, hc.diskAdd, hv]

theorem wp_aside_then {p : M α} (hp : Aside p) {f : α → M β}
    (hf : ∀ a, wp (diskSem op) (f a) (fun _ _ => True) v) :
    wp (diskSem op) (p >>= f) (fun _ _ => True) v := by
  rw [bind_eq, wp_bind]
  refine wp_aside hp ?_
  rintro (e | a)
  · trivial
  · exact hf a

theorem wp_onlyIf_aside {c : Prop} [Decidable c] {p : M Unit} (hp : Aside p) {f : Unit → M β}
    (hf : ∀ a, wp (diskSem op) (f a) (fun _ _ => True) v) :
    wp (diskSem op) (onlyIf c p >>= f) (fun _ _ => True) v := wp_aside_then (only_when hp) hf

/-! ### The calls that move the run state -/

theorem wp_putState {state : VMState} (hrecord : v.record = some r) :
    wp (diskSem op) (Manager.putState r state) (fun _ _ => True) v := by
  refine wp_account_call.mpr ⟨trivial, fun at_ => ?_⟩
  refine wp_account_call.mpr ⟨fun h => h r hrecord, ?_⟩
  rintro (e | u)
  · exact (wp_throw _ _ _).mpr trivial
  · exact (wp_ret _ _ _).mpr trivial

/-- The record and the domain, and what follows. -/
theorem wp_located {id : String} {f : VM → Nat → M α} (hv : v = {})
    (hf : ∀ r dom v', v'.record = some r → v'.dom = some dom → wp (diskSem op) (f r dom) (fun _ _ => True) v') :
    wp (diskSem op) (getVM id >>= fun vm => lookupDomain vm.name >>= f vm) (fun _ _ => True) v := by
  rw [bind_eq, wp_bind]
  refine wp_account_call.mpr ⟨hv, ?_⟩
  rintro (e | r)
  · exact (wp_throw _ _ _).mpr trivial
  refine (wp_ret _ _ _).mpr ?_
  dsimp only
  rw [bind_eq, wp_bind]
  refine wp_account_call.mpr ⟨⟨r, rfl, rfl⟩, ?_⟩
  rintro (e | dom)
  · exact (wp_throw _ _ _).mpr trivial
  refine (wp_ret _ _ _).mpr ?_
  exact hf r dom _ rfl rfl

theorem wp_start (id : String) : wp (diskSem op) (Manager.start id) (fun _ _ => True) {} := by
  unfold Manager.start
  refine wp_located rfl fun r dom v hrecord hdom => ?_
  rw [bind_eq, wp_bind]
  refine wp_account_call.mpr ⟨trivial, ?_⟩
  rintro (e | u)
  · exact (wp_throw _ _ _).mpr trivial
  refine (wp_ret _ _ _).mpr ?_
  exact wp_putState hrecord

/-- What the domain's state is, and what follows. -/
theorem wp_getState {f : DomainState → M α} (hdom : v.dom = some dom)
    (hf : ∀ st, wp (diskSem op) (f st) (fun _ _ => True) { v with settled := op.passes v.record (.ok st) }) :
    wp (diskSem op) (getState dom >>= f) (fun _ _ => True) v := by
  rw [bind_eq, wp_bind]
  refine wp_account_call.mpr ⟨hdom, ?_⟩
  rintro (e | st)
  · exact (wp_throw _ _ _).mpr trivial
  refine (wp_ret _ _ _).mpr ?_
  exact hf st

theorem wp_failIf_then {c : Prop} [Decidable c] {e : Err} {f : Unit → M α}
    (hf : ¬ c → wp (diskSem op) (f ()) (fun _ _ => True) v) :
    wp (diskSem op) (failIf c e >>= f) (fun _ _ => True) v := by
  rw [bind_eq, wp_bind, wp_failIf]
  exact ⟨fun _ => trivial, hf⟩

theorem wp_suspend (id : String) : wp (diskSem op) (Manager.suspend id) (fun _ _ => True) {} := by
  unfold Manager.suspend
  refine wp_located rfl fun r dom v hrecord hdom => wp_getState hdom fun st => ?_
  refine wp_failIf_then fun _ => wp_failIf_then fun _ => ?_
  rw [bind_eq, wp_bind]
  refine wp_account_call.mpr ⟨trivial, ?_⟩
  rintro (e | u)
  · exact (wp_throw _ _ _).mpr trivial
  refine (wp_ret _ _ _).mpr ?_
  exact wp_putState hrecord

theorem wp_resume (id : String) : wp (diskSem op) (Manager.resume id) (fun _ _ => True) {} := by
  unfold Manager.resume
  refine wp_located rfl fun r dom v hrecord hdom => wp_getState hdom fun st => ?_
  refine wp_failIf_then fun _ => ?_
  rw [bind_eq, wp_bind]
  refine wp_account_call.mpr ⟨trivial, ?_⟩
  rintro (e | u)
  · exact (wp_throw _ _ _).mpr trivial
  refine (wp_ret _ _ _).mpr ?_
  exact wp_putState hrecord

/-! ### Export -/

theorem wp_removedAfter {dir : HostPath} {p : M α} {Q : Except Err α → DiskNote → Prop}
    (hp : wp (diskSem op) p (fun _ _ => True) v) (hQ : ∀ res v', Q res v') :
    wp (diskSem op) (removedAfter dir p) Q v := by
  unfold removedAfter
  rw [bind_eq, wp_bind, wp_attempt]
  refine wp_mono (fun res v' _ => ?_) hp
  dsimp only
  refine wp_account_call.mpr ⟨trivial, fun _ => ?_⟩
  rw [ret_bind, wp_orFail]
  exact hQ _ _

theorem wp_exportOVA (outputPath : HostPath) (vm : VM) (hsettled : v.settled = true) (hrecord : v.record = some r)
    (hdisk : vm.diskPath = r.diskPath) :
    wp (diskSem op) (Storage.exportOVA vm outputPath) (fun _ _ => True) v := by
  unfold Storage.exportOVA
  refine wp_failIf_then fun _ => wp_aside_then (aside_fileCall _ (by trivial)) fun there => wp_failIf_then fun _ => ?_
  refine wp_aside_then (only_wrapped (aside_fileCall _ (by trivial)) _) fun workDir => ?_
  refine wp_removedAfter ?_ fun _ _ => trivial
  unfold Storage.exportOVAIn
  rw [bind_eq, wp_bind]
  refine wp_account_call.mpr ⟨⟨hsettled, r, hrecord, hdisk⟩, ?_⟩
  rintro (e | u)
  · exact (wp_throw _ _ _).mpr trivial
  refine (wp_ret _ _ _).mpr ?_
  exact wp_aside (only_orFailed (aside_fileCall _ (by trivial))) fun _ => trivial

theorem withStaticIP_diskPath (vm : VM) :
    (Manager.withStaticIP vm).diskPath = vm.diskPath ∧ (Manager.withStaticIP vm).state = vm.state := by
  unfold Manager.withStaticIP
  split_ifs <;> exact ⟨rfl, rfl⟩

/-- A VM that is seen stopped is one whose domain is taken for shut off. -/
theorem wp_get {id : String} (hv : v = {}) (hop : op = .exportOVA id) {f : VM → M α}
    (hf : ∀ vm v', (vm.state = .stopped → v'.settled = true ∧ ∃ r, v'.record = some r ∧ vm.diskPath = r.diskPath) →
      wp (diskSem op) (f vm) (fun _ _ => True) v') :
    wp (diskSem op) (Manager.get id >>= f) (fun _ _ => True) v := by
  subst hop
  unfold Manager.get
  rw [bind_eq, wp_bind, bind_eq, wp_bind]
  refine wp_account_call.mpr ⟨hv, ?_⟩
  rintro (e | r)
  · exact (wp_throw _ _ _).mpr trivial
  refine (wp_ret _ _ _).mpr ?_
  dsimp only
  rw [bind_eq, wp_bind]
  unfold Manager.refresh
  refine wp_account_call.mpr ⟨⟨r, rfl, rfl⟩, ?_⟩
  have hstatic : ∀ (vm : VM) (v' : DiskNote), (vm.state = .stopped → v'.settled = true) →
      v'.record = some r → vm.diskPath = r.diskPath →
      wp (diskSem (.exportOVA id)) (f (Manager.withStaticIP vm)) (fun _ _ => True) v' := by
    intro vm v' hstopped hrecord hdisk
    obtain ⟨hdisk', hstate⟩ := withStaticIP_diskPath vm
    refine hf _ _ fun hs => ⟨hstopped (hstate.symm.trans hs), r, hrecord, hdisk'.trans hdisk⟩
  rintro (e | dom)
  · refine (wp_ret _ _ _).mpr ((wp_ret _ _ _).mpr ?_)
    refine hstatic r _ (fun hs => ?_) rfl rfl
    show DiskCall.believes (some r) (.exportOVA id) = true
    simpa [DiskCall.believes] using hs
  · refine wp_account_call.mpr ⟨rfl, fun state => ?_⟩
    refine wp_account_call.mpr ⟨trivial, fun ip => ?_⟩
    refine (wp_ret _ _ _).mpr ((wp_ret _ _ _).mpr ?_)
    refine hstatic _ _ (fun hs => ?_) rfl rfl
    show DiskCall.passes (some r) (.exportOVA id) state = true
    rcases state with e | st
    · simp [vmStateOf] at hs
    · cases st <;> simp [vmStateOf] at hs ⊢
      rfl

theorem wp_exportVMOVA (id : String) :
    wp (diskSem (.exportOVA id)) (Api.exportVMOVA id) (fun _ _ => True) {} := by
  unfold Api.exportVMOVA
  refine wp_get rfl rfl fun vm v hvm => wp_failIf_then fun hstate => ?_
  obtain ⟨hsettled, r, hrecord, hdisk⟩ := hvm (not_not.mp hstate)
  refine wp_aside_then ((aside_fileCall _ (by trivial)).bind fun res => only_ofExcept _ _) fun workDir => ?_
  refine wp_removedAfter ?_ fun _ _ => trivial
  rw [bind_eq, wp_bind, wp_attempt]
  refine wp_mono (fun res v' _ => ?_) (wp_exportOVA _ vm hsettled hrecord hdisk)
  refine wp_aside_then (only_ofExcept _ _) fun _ => ?_
  exact wp_aside (Api.aside_publishAppEvent ..) fun _ => trivial

/-! ### Clone -/

theorem defineClone_xml {d : Daemon} {spec : VMSpec} {natMAC : String} {diskPath : HostPath} {xml : DomainXML}
    (h : DomainParams.generateDomainXML (DomainParams.render d spec diskPath natMAC) = .ok xml) : xml.uuid = none :=
  (DomainParams.generateDomainXML_name h).2.trans (DomainParams.render_name ..).2

theorem wp_defineClone (d : Daemon) (spec : VMSpec) (natMAC : String) (diskPath : HostPath)
    {Q : Except Err Nat → DiskNote → Prop} (hQ : ∀ res, Q res v) :
    wp (diskSem op) (Manager.defineClone d spec natMAC diskPath) Q v := by
  unfold Manager.defineClone
  rw [bind_eq, wp_bind]
  refine wp_aside (only_wrapped (aside_fileCall _ (by trivial)) _) ?_
  rintro (e | u)
  · exact hQ _
  dsimp only
  rw [bind_eq, wp_bind, wp_orWrap]
  cases hxml : DomainParams.generateDomainXML (DomainParams.render d spec diskPath natMAC) with
  | error e => exact hQ _
  | ok xml =>
      refine wp_account_call.mpr ⟨.inl (defineClone_xml hxml), ?_⟩
      rintro (e | dom)
      · exact (wp_throw _ _ _).mpr (hQ _)
      · exact (wp_ret _ _ _).mpr (hQ _)

theorem wp_finishClone (d : Daemon) (source : VM) (spec : VMSpec) (id natMAC : String) (reserved : Option String)
    (diskPath : HostPath) :
    wp (diskSem op) (Manager.finishClone d source spec id natMAC reserved diskPath) (fun _ _ => True) v := by
  have hcleanup : ∀ (e : Err), wp (diskSem op) (do
      Manager.cleanupClone natMAC reserved diskPath.dir
      .throw e : M VM) (fun _ _ => True) v := fun e =>
    wp_aside_then (Manager.aside_cleanupClone _ _ _) fun _ => (wp_throw _ _ _).mpr trivial
  unfold Manager.finishClone
  rw [bind_eq, wp_bind, wp_attempt]
  refine wp_defineClone d spec natMAC diskPath ?_
  rintro (e | dom)
  · exact hcleanup e
  dsimp only
  refine wp_aside_then aside_now fun createdAt => wp_aside_then aside_now fun updatedAt => ?_
  refine wp_account_call.mpr ⟨fun _ => rfl, ?_⟩
  rintro (e | u)
  · exact wp_account_call.mpr ⟨trivial, fun _ => hcleanup _⟩
  · exact (wp_ret _ _ _).mpr trivial

theorem wp_clone (d : Daemon) (sourceID newName : String) :
    wp (diskSem (.clone sourceID newName)) (Manager.clone d sourceID newName) (fun _ _ => True) {} := by
  unfold Manager.clone
  refine wp_located rfl fun r dom v hrecord hdom => ?_
  rw [bind_eq, wp_bind]
  refine wp_account_call.mpr ⟨hdom, ?_⟩
  rintro (e | st)
  · exact (wp_throw _ _ _).mpr trivial
  refine (wp_ret _ _ _).mpr ?_
  dsimp only
  refine wp_failIf_then fun hrun => ?_
  have hsettled : (v.add (.clone sourceID newName) (.virt (.getState dom)) (.ok st)).settled = true := by
    show DiskCall.passes v.record (.clone sourceID newName) (.ok st) = true
    simpa [DiskCall.passes, Except.toOption] using hrun
  have hrecord' : (v.add (.clone sourceID newName) (.virt (.getState dom)) (.ok st)).record = some r := hrecord
  generalize v.add (.clone sourceID newName) (.virt (.getState dom)) (.ok st) = v at hsettled hrecord' ⊢
  refine wp_aside_then (only_wrapped (aside_netCall _) _) fun _ => ?_
  refine wp_aside_then (Manager.aside_cloneVMSpec _ _) fun spec => ?_
  refine wp_aside_then (Manager.aside_cloneLocation d _) fun loc => ?_
  refine wp_aside_then aside_now fun nanos => ?_
  refine wp_aside_then (only_wrapped (aside_fileCall _ (by trivial)) _) fun _ => ?_
  rw [bind_eq, wp_bind]
  unfold Manager.copyDisk
  refine wp_account_call.mpr ⟨⟨hsettled, r, hrecord', rfl⟩, ?_⟩
  rintro (e | u)
  · refine wp_account_call.mpr ⟨trivial, fun _ => ?_⟩
    exact (wp_throw _ _ _).mpr trivial
  refine (wp_ret _ _ _).mpr ?_
  dsimp only
  refine wp_aside_then (aside_hostCall _) fun natMAC => ?_
  refine wp_aside_then (Manager.aside_cloneAddress d _ _) fun reserved => ?_
  exact wp_finishClone d r _ _ natMAC reserved _

/-! ### Update -/

theorem wp_orFail_then {res : Except Err α} {f : α → M β} {Q : Except Err β → DiskNote → Prop}
    (herr : ∀ e, Q (.error e) v) (hok : ∀ a, res = .ok a → wp (diskSem op) (f a) Q v) :
    wp (diskSem op) (orFail res >>= f) Q v := by
  rw [bind_eq, wp_bind, wp_orFail]
  cases res with
  | error e => exact herr e
  | ok a => exact hok a rfl

theorem wp_orWrap_then {res : Except Err α} {context : String} {f : α → M β} {Q : Except Err β → DiskNote → Prop}
    (herr : ∀ e, Q (.error e) v) (hok : ∀ a, res = .ok a → wp (diskSem op) (f a) Q v) :
    wp (diskSem op) (orWrap context res >>= f) Q v := by
  rw [bind_eq, wp_bind, wp_orWrap]
  cases res with
  | error e => exact herr _
  | ok a => exact hok a rfl

theorem dropMissingInstallISO_name (h : Host) (p : DomainParams) : (p.dropMissingInstallISO h).name = p.name := by
  unfold DomainParams.dropMissingInstallISO
  split_ifs <;> rfl

/-- A redefinition is of the domain looked up, under the record's name. -/
theorem wp_redefineForUpdate (d : Daemon) {p : UpdatePlan} (hrecord : v.record = some r) (hdom : v.dom = some dom) :
    wp (diskSem op) (Manager.redefineForUpdate d dom r p)
      (fun _ v' => v'.record = some r) v := by
  unfold Manager.redefineForUpdate
  refine wp_account_call.mpr ⟨hdom, fun uuid => ?_⟩
  rw [ret_bind]
  refine wp_orFail_then (fun e => hrecord) fun params hparams => ?_
  have hnames : params.name = r.spec.name ∧ params.uuid = uuid := by
    have hname := (dropMissingInstallISO_name d.host (DomainParams.render d (p.renderSpec r) r.diskPath r.natMAC)).trans
      (DomainParams.render_name ..).1
    split_ifs at hparams
    · rw [← Except.ok.inj hparams]
      exact ⟨hname, rfl⟩
    · obtain ⟨vncPassword, rfl⟩ := withStoredVNC_ok hparams
      exact ⟨hname, rfl⟩
  refine wp_orWrap_then (fun e => hrecord) fun xml hxml => ?_
  obtain ⟨hname, huuid⟩ := DomainParams.generateDomainXML_name hxml
  refine wp_account_call.mpr ⟨.inr ⟨huuid.trans hnames.2, r, hrecord, fun h => ?_⟩, ?_⟩
  · exact (hname.trans hnames.1).trans h
  rintro (e | u)
  · exact (wp_throw _ _ _).mpr hrecord
  · exact (wp_ret _ _ _).mpr hrecord

theorem wp_restartAfterUpdate {vm : VM} (hrecord : v.record = some r) (hname : vm.name = r.name) :
    wp (diskSem op) (Manager.restartAfterUpdate vm) (fun _ _ => True) v := by
  unfold Manager.restartAfterUpdate
  rw [bind_eq, wp_bind]
  refine wp_account_call.mpr ⟨⟨r, hrecord, hname⟩, ?_⟩
  rintro (e | dom)
  · exact (wp_throw _ _ _).mpr trivial
  refine (wp_ret _ _ _).mpr ?_
  dsimp only
  refine wp_account_call.mpr ⟨trivial, ?_⟩
  rintro (e | u)
  · exact (wp_throw _ _ _).mpr trivial
  · exact (wp_ret _ _ _).mpr trivial

/-- What follows the growth of the disk. -/
theorem wp_grown (d : Daemon) {p : UpdatePlan} {wasRunning : Bool} (hrecord : v.record = some r)
    (hdom : v.dom = some dom) :
    wp (diskSem op) (do
      onlyIf (p.ipChanged = true) (Manager.changeAddress r p)
      let vnc ← Manager.updatedVNC d r p
      onlyIf (p.redefines r = true) (Manager.redefineForUpdate d dom r p)
      let updated := { p.apply r vnc.1 vnc.2 with updatedAt := ← now }
      storeCall (.putVM updated) >>= orWrap "storing updated VM"
      onlyIf (wasRunning = true) (Manager.restartAfterUpdate updated)
      return { updated with state := if wasRunning then .running else .stopped } : M VM)
      (fun _ _ => True) v := by
  refine wp_aside_then (only_when (Manager.aside_changeAddress _ _)) fun _ => ?_
  refine wp_aside_then (Manager.aside_updatedVNC d _ _) fun vnc => ?_
  have hrest : ∀ v', v'.record = some r → wp (diskSem op) (do
      let updated := { p.apply r vnc.1 vnc.2 with updatedAt := ← now }
      storeCall (.putVM updated) >>= orWrap "storing updated VM"
      onlyIf (wasRunning = true) (Manager.restartAfterUpdate updated)
      return { updated with state := if wasRunning then .running else .stopped } : M VM) (fun _ _ => True) v' := by
    intro v' hrecord'
    refine wp_aside_then aside_now fun at_ => ?_
    dsimp only
    rw [bind_eq, wp_bind]
    refine wp_account_call.mpr ⟨fun h => h r hrecord', ?_⟩
    rintro (e | u)
    · exact (wp_throw _ _ _).mpr trivial
    refine (wp_ret _ _ _).mpr ?_
    dsimp only
    rw [bind_eq, wp_bind, wp_onlyIf]
    refine ⟨fun _ => wp_mono ?_ (wp_restartAfterUpdate hrecord' rfl), fun _ => (wp_ret _ _ _).mpr trivial⟩
    rintro (e | u) v'' -
    · trivial
    · exact (wp_ret _ _ _).mpr trivial
  rw [bind_eq, wp_bind, wp_onlyIf]
  refine ⟨fun _ => wp_mono ?_ (wp_redefineForUpdate d hrecord hdom), fun _ => hrest v hrecord⟩
  rintro (e | u) v' hv'
  · trivial
  · exact hrest v' hv'

/-- The guest is stopped, and seen off. -/
theorem wp_stopForUpdate (name : String) {Q : Except Err Unit → DiskNote → Prop} (hdom : v.dom = some dom)
    (hok : Q (.ok ()) { v with settled := op.grows v.record }) (herr : ∀ e, Q (.error e) v) :
    wp (diskSem op) (Manager.stopForUpdate dom name) Q v := by
  have hwait : ∀ {α : Type} {f : Bool → M α} {Q : Except Err α → DiskNote → Prop},
      wp (diskSem op) (f true) Q { v with settled := op.grows v.record } → wp (diskSem op) (f false) Q v →
      wp (diskSem op) (virtCall (.waitForShutoff dom) >>= f) Q v := by
    intro α f Q htrue hfalse
    refine wp_account_call.mpr ⟨hdom, ?_⟩
    rintro (_ | _)
    · exact hfalse
    · exact htrue
  have hforce : ∀ {Q : Except Err Unit → DiskNote → Prop} {context : String}, Q (.ok ()) v → (∀ e, Q (.error e) v) →
      wp (diskSem op) (virtCall (.destroy dom) >>= orWrap context) Q v := by
    intro Q context hok herr
    refine wp_account_call.mpr ⟨trivial, ?_⟩
    rintro (e | u)
    · exact (wp_throw _ _ _).mpr (herr _)
    · exact (wp_ret _ _ _).mpr hok
  have hafter : wp (diskSem op) (do
      let off ← virtCall (.waitForShutoff dom)
      onlyIf (off = false) do
        let _ ← virtCall (.destroy dom)
        let off ← virtCall (.waitForShutoff dom)
        failIf (off = false)
          (.ext ("stopping domain " ++ name ++ " for update: still running after forced stop")) : M Unit) Q v := by
    refine hwait ?_ ?_
    · rw [wp_onlyIf]
      exact ⟨fun h => by simp at h, fun _ => hok⟩
    · rw [wp_onlyIf]
      refine ⟨fun _ => ?_, fun h => absurd rfl h⟩
      refine wp_account_call.mpr ⟨trivial, fun _ => ?_⟩
      refine hwait ?_ ?_
      · rw [wp_failIf]
        exact ⟨fun h => by simp at h, fun _ => hok⟩
      · rw [wp_failIf]
        exact ⟨fun _ => herr _, fun h => absurd rfl h⟩
  unfold Manager.stopForUpdate Manager.shutdownOrDestroy
  rw [bind_eq, wp_bind]
  refine wp_account_call.mpr ⟨trivial, ?_⟩
  rintro (e | u)
  · exact hforce hafter herr
  · exact (wp_ret _ _ _).mpr hafter

theorem wp_growDisk {sizeGB : Nat} {wasRunning : Bool} {Q : Except Err Unit → DiskNote → Prop}
    (hsettled : v.settled = true) (hrecord : v.record = some r) (hok : Q (.ok ()) { v with settled := false })
    (herr : ∀ e, Q (.error e) { v with settled := false }) :
    wp (diskSem op) (Manager.growDisk dom r sizeGB wasRunning) Q v := by
  unfold Manager.growDisk
  refine wp_account_call.mpr ⟨⟨hsettled, r, hrecord, rfl⟩, ?_⟩
  rintro (e | u)
  · rw [ret_bind]
    dsimp only
    rw [bind_eq, wp_bind, wp_onlyIf]
    refine ⟨fun _ => ?_, fun _ => (wp_throw _ _ _).mpr (herr _)⟩
    refine wp_account_call.mpr ⟨trivial, fun _ => ?_⟩
    exact (wp_ret _ _ _).mpr ((wp_throw _ _ _).mpr (herr _))
  · exact (wp_ret _ _ _).mpr hok

theorem wp_applyUpdate (d : Daemon) {p : UpdatePlan} {wasRunning : Bool} (hrecord : v.record = some r)
    (hdom : v.dom = some dom) (hgrows : r.spec.diskGB < p.diskGB → op.grows v.record = true)
    (hsettled : wasRunning = false → r.spec.diskGB < p.diskGB → v.settled = true) :
    wp (diskSem op) (Manager.applyUpdate d dom r p wasRunning) (fun _ _ => True) v := by
  unfold Manager.applyUpdate
  have hgrow : ∀ v' : DiskNote, v'.record = some r → v'.dom = some dom →
      (r.spec.diskGB < p.diskGB → v'.settled = true) → wp (diskSem op) (do
        onlyIf (r.spec.diskGB < p.diskGB) (Manager.growDisk dom r p.diskGB wasRunning)
        onlyIf (p.ipChanged = true) (Manager.changeAddress r p)
        let vnc ← Manager.updatedVNC d r p
        onlyIf (p.redefines r = true) (Manager.redefineForUpdate d dom r p)
        let updated := { p.apply r vnc.1 vnc.2 with updatedAt := ← now }
        storeCall (.putVM updated) >>= orWrap "storing updated VM"
        onlyIf (wasRunning = true) (Manager.restartAfterUpdate updated)
        return { updated with state := if wasRunning then .running else .stopped } : M VM) (fun _ _ => True) v' := by
    intro v' hrecord' hdom' hsettled'
    rw [bind_eq, wp_bind, wp_onlyIf]
    refine ⟨fun hlt => wp_growDisk (hsettled' hlt) hrecord' ?_ fun _ => trivial, fun _ => wp_grown d hrecord' hdom'⟩
    exact wp_grown d hrecord' hdom'
  rw [bind_eq, wp_bind, wp_onlyIf]
  refine ⟨fun _ => wp_stopForUpdate _ hdom (hgrow _ hrecord hdom hgrows) fun _ => trivial, fun hoff => ?_⟩
  exact hgrow v hrecord hdom (hsettled (by simpa using hoff))

theorem resolve_diskGB {d : Daemon} {vm : VM} {patch : VMUpdateSpec} {wasRunning : Bool} {p : UpdatePlan}
    (h : UpdatePlan.resolve d vm patch wasRunning = .ok p) (hlt : vm.spec.diskGB < p.diskGB) :
    vm.spec.diskGB < patch.diskGB := by
  obtain ⟨ip, vnc, -, -, -, rfl⟩ := UpdatePlan.resolve_ok h
  unfold UpdatePlan.assemble at hlt
  dsimp only at hlt
  split_ifs at hlt
  · exact hlt
  · omega

theorem wp_update (d : Daemon) (id : String) (patch : VMUpdateSpec) :
    wp (diskSem (.update id patch)) (Manager.update d id patch) (fun _ _ => True) {} := by
  unfold Manager.update
  refine wp_located rfl fun r dom v hrecord hdom => ?_
  refine wp_account_call.mpr ⟨hdom, fun state => ?_⟩
  rw [ret_bind]
  dsimp only
  rw [bind_eq, wp_bind, wp_orFail]
  cases hp : UpdatePlan.resolve d r patch (decide (state.toOption = some .running)) with
  | error e => trivial
  | ok p =>
      dsimp only
      have hgrows : r.spec.diskGB < p.diskGB → DiskCall.grows (some r) (.update id patch) = true := by
        intro hlt
        simpa [DiskCall.grows] using resolve_diskGB hp hlt
      split_ifs
      · exact (wp_ret _ _ _).mpr trivial
      · unfold Manager.updateFlags
        refine wp_aside_then aside_now fun at_ => ?_
        dsimp only
        rw [bind_eq, wp_bind]
        refine wp_account_call.mpr ⟨fun h => h r hrecord, ?_⟩
        rintro (e | u)
        · exact (wp_throw _ _ _).mpr trivial
        · exact (wp_ret _ _ _).mpr ((wp_ret _ _ _).mpr trivial)
      · refine wp_applyUpdate d (by exact hrecord) (by exact hdom) (fun hlt => ?_) fun hoff hlt => ?_
        · show DiskCall.grows v.record _ = true
          rw [hrecord]
          exact hgrows hlt
        · show DiskCall.passes v.record (.update id patch) state = true
          rw [hrecord]
          unfold DiskCall.passes
          rw [hgrows hlt]
          simpa using hoff

theorem wp_body (d : Daemon) (op : DiskCall) : wp (diskSem op) (op.body d) (fun _ _ => True) {} := by
  have hdone : ∀ {p : M VM}, wp (diskSem op) p (fun _ _ => True) {} → wp (diskSem op) (do
      let _ ← p
      return () : M Unit) (fun _ _ => True) {} := by
    intro p hp
    refine wp_bind.mpr (wp_mono ?_ hp)
    rintro (e | vm) v -
    · trivial
    · exact (wp_ret _ _ _).mpr trivial
  cases op with
  | clone sourceID newName => exact hdone (wp_clone d sourceID newName)
  | update id patch => exact hdone (wp_update d id patch)
  | exportOVA id => exact wp_exportVMOVA id
  | start id => exact wp_start id
  | suspend id => exact wp_suspend id
  | resume id => exact wp_resume id

/-- **Every call is in order**, by its log. -/
theorem alone (d : Daemon) (op : DiskCall) :
    wp (Sem.alone fun log c => (log.account (DiskNote.add op) {}).ok c) (op.body d) (fun _ _ => True) [] :=
  wp_alone_of_account (Q := fun _ _ => True) (wp_body d op)

end DiskCall

/-! ### Notes -/

namespace DiskNote

variable {op : DiskCall} {v : DiskNote}

/-- The domain is found, or nothing new is known of which it is. -/
theorem add_record {c : Cmd} (res : c.Resp) (hc : ∀ id, c ≠ .store (.getVM id)) :
    (v.add op c res).record = v.record := by
  unfold add
  split
  case h_1 => exact absurd rfl (hc _)
  all_goals rfl

theorem add_dom {c : Cmd} (res : c.Resp) (hc : ∀ name, c ≠ .virt (.lookupDomainByName name)) :
    (v.add op c res).dom = v.dom := by
  unfold add
  split
  case h_2 => exact absurd rfl (hc _)
  all_goals rfl

theorem add_uuid {c : Cmd} (res : c.Resp) (hc : ∀ dom, c ≠ .virt (.getUUIDString dom)) :
    (v.add op c res).uuid = v.uuid := by
  unfold add
  split
  case h_4 => exact absurd rfl (hc _)
  all_goals rfl

/-- What the note says of the domain is true of the one with the record's name. -/
structure Knows (f : Nat → String) (s : VirtState) (v : DiskNote) : Prop where
  spec : ∀ r, v.record = some r → r.spec.name = r.name
  dom : ∀ r, v.record = some r → ∀ u, v.dom = some u → f u = r.name ∧ u < s.nextUUID
  uuid : ∀ r, v.record = some r → ∀ u, v.uuid = some u → f u = r.name ∧ u < s.nextUUID

theorem Knows.later {f f' : Nat → String} {s s' : VirtState} (h : Knows f s v)
    (hf : ∀ u < s.nextUUID, f' u = f u) (hnext : s.nextUUID ≤ s'.nextUUID) : Knows f' s' v where
  spec := h.spec
  dom r hr u hu := by
    obtain ⟨hname, hlt⟩ := h.dom r hr u hu
    exact ⟨(hf u hlt).trans hname, Nat.lt_of_lt_of_le hlt hnext⟩
  uuid r hr u hu := by
    obtain ⟨hname, hlt⟩ := h.uuid r hr u hu
    exact ⟨(hf u hlt).trans hname, Nat.lt_of_lt_of_le hlt hnext⟩

end DiskNote

/-! ### The condition on a step -/

namespace DiskSys

/-- The call has taken the domain of this name for shut off, and is to run `qemu-img`, or runs it. -/
def holds (t : DiskThread) (name : String) : Bool :=
  !t.prog.isDone && (DiskThread.note t).settled && (DiskThread.note t).record.any (·.name = name)

/-- The look of a clone or an update is not misled: the domain is shut off, or it runs and is seen to. -/
def seesTrue (w : World) (x : Choice) (t : DiskThread) (dom : Nat) : Bool :=
  ((DiskThread.note t).record.bind fun r => w.virt.findName? r.name).all fun d =>
    d.state = .shutoff ||
      match t.op with
      | .clone _ _ => d.state = .running || x.fail.isSome
      | .update _ _ =>
          d.state = .running && d.uuid = dom && x.fail.isNone || !t.op.grows (DiskThread.note t).record
      | _ => true

/-- The record an export goes by, where it cannot find the domain, tells the truth. -/
def recordsTrue (w : World) (x : Choice) (t : DiskThread) : Bool :=
  x.fail.isNone || !t.op.believes (DiskThread.note t).record ||
    (DiskThread.note t).record.all fun r => w.virt.asleep r.name

def mayGo (s : DiskSys) (x : Choice) (t : DiskThread) : Cmd → Bool
  | .virt (.create dom) => x.fail.isSome ||
      (s.pool.world.virt.shape dom).all fun a => s.pool.threads.all fun u => !holds u a.name
  | .virt (.getState dom) => seesTrue s.pool.world x t dom
  | .virt (.lookupDomainByName _) => recordsTrue s.pool.world x t
  | _ => true

def held (s : DiskSys) (x : Choice) (t : DiskThread) : Bool :=
  match t.prog with
  | .call c _ => mayGo s x t c
  | _ => true

/-- **The condition on a step.**  A look that lets `qemu-img` be run is at a domain that runs or
is shut off, and no domain is started between such a look and the end of `qemu-img`. -/
def Held (s : DiskSys) : DiskLabel → Prop
  | .step i x => ∀ t ∈ s.pool.threads[i]?, held s x t = true
  | _ => True

instance : ∀ (s : DiskSys) (l : DiskLabel), Decidable (Held s l)
  | s, .step i x => inferInstanceAs (Decidable (∀ t ∈ s.pool.threads[i]?, held s x t = true))
  | _, .call _ | _, .spawn _ | _, .guest _ _ => .isTrue trivial

/-! ### The invariant -/

/-- A world whose domains are libvirt's, and whose records name their domains throughout. -/
structure Orderly (w : World) : Prop where
  numbered : w.virt.Numbered
  names : ∀ p ∈ w.virt.idents, ∀ q ∈ w.virt.idents, p.2 = q.2 → p.1 = q.1
  spec : ∀ id r, w.store.vms.get? id = some r → r.spec.name = r.name

structure Inv (s : DiskSys) : Prop where
  sound : s.pool.Sound (fun op log c => (log.account (DiskNote.add op) {}).ok c) fun _ _ _ => True
  spec : ∀ id r, s.pool.world.store.vms.get? id = some r → r.spec.name = r.name
  named : ∃ f, s.pool.world.virt.Named f ∧
    ∀ t ∈ s.pool.threads, (DiskThread.note t).Knows f s.pool.world.virt
  quiet : ∀ t ∈ s.pool.threads, ∀ name, holds t name = true → s.pool.world.virt.asleep name = true
  busy : ∀ i ∈ s.busy, s.images i = true

variable {d : Daemon} {s s' : DiskSys}

theorem holds_iff {t : DiskThread} {name : String} : holds t name = true ↔
    t.prog.isDone = false ∧ (DiskThread.note t).settled = true ∧
      ∃ r, (DiskThread.note t).record = some r ∧ r.name = name := by
  unfold holds
  rw [Bool.and_eq_true, Bool.and_eq_true, Bool.not_eq_true', Option.any_eq_true]
  simp [and_assoc]

theorem inv_init {w : World} (h : Orderly w) : Inv (init w) where
  sound := by simp [Pool.Sound, init]
  spec := h.spec
  named := by
    refine ⟨fun u => ((w.virt.find? u).map Domain.name).getD "", ⟨h.numbered.below, fun p hp => ?_, h.names⟩,
      by simp [init]⟩
    have hsome : (w.virt.find? p.1).isSome = true := by
      obtain ⟨e, he, rfl⟩ := List.mem_map.mp hp
      rw [VirtState.find?, List.find?_isSome]
      exact ⟨e, he, decide_eq_true rfl⟩
    obtain ⟨e, he⟩ := Option.isSome_iff_exists.mp hsome
    rw [he]
    exact congrArg Prod.snd (h.numbered.unique p hp _ (VirtState.find?_idents he) rfl)
  quiet := by simp [init]
  busy := by simp [init]

/-! ### One step -/

theorem inv_call (hs : Inv s) {op : DiskCall} (h : step d s (.call op) = some s') : Inv s' := by
  simp only [step, Option.map_eq_some_iff] at h
  obtain ⟨pool, hpool, rfl⟩ := h
  have hsound := Pool.sound_step (DiskCall.alone d) hs.sound hpool
  obtain rfl : s.pool.add op (op.body d) = pool := Option.some.inj hpool
  obtain ⟨f, hf, hknows⟩ := hs.named
  refine ⟨hsound, hs.spec, ⟨f, hf, fun t ht => ?_⟩, fun t ht name hholds => ?_, fun i hi => ?_⟩
  · rcases List.mem_append.mp ht with hold | hnew
    · exact hknows t hold
    · rw [List.mem_singleton.mp hnew]
      exact ⟨fun r hr => by simp [DiskThread.note, Log.account] at hr,
        fun r hr => by simp [DiskThread.note, Log.account] at hr,
        fun r hr => by simp [DiskThread.note, Log.account] at hr⟩
  · rcases List.mem_append.mp ht with hold | hnew
    · exact hs.quiet t hold name hholds
    · rw [List.mem_singleton.mp hnew, holds_iff] at hholds
      simp [DiskThread.note, Log.account] at hholds
  · have himages := hs.busy i hi
    obtain ⟨t, ht, himg⟩ := (Option.any_eq_true _ _).mp himages
    have hlt := (List.getElem?_eq_some_iff.mp ht).1
    refine (Option.any_eq_true _ _).mpr ⟨t, ?_, himg⟩
    show (s.pool.threads ++ _)[i]? = some t
    rw [List.getElem?_append_left hlt, ht]

theorem inv_spawn (hs : Inv s) {i : Nat} (h : step d s (.spawn i) = some s') : Inv s' := by
  simp only [step] at h
  split_ifs at h with hspawn
  rw [← Option.some.inj h]
  refine ⟨hs.sound, hs.spec, hs.named, hs.quiet, fun j hj => ?_⟩
  rcases List.mem_cons.mp hj with rfl | hold
  · exact hspawn.1
  · exact hs.busy j hold

theorem inv_guest (hs : Inv s) {dom : Nat} {state : DomainState} (h : step d s (.guest dom state) = some s') :
    Inv s' := by
  simp only [step, Option.map_eq_some_iff] at h
  obtain ⟨pool, hpool, rfl⟩ := h
  have hsound := Pool.sound_step (DiskCall.alone d) hs.sound hpool
  obtain ⟨w, hw, rfl⟩ := Pool.step_env hpool
  obtain ⟨virt, hvirt, rfl⟩ := Option.map_eq_some_iff.mp hw
  obtain ⟨f, hf, hknows⟩ := hs.named
  have hshrinks := VirtState.guestMove_shrinks hvirt
  refine ⟨hsound, hs.spec, ⟨f, hf.shrinks hshrinks, fun t ht => ?_⟩, fun t ht name hholds => ?_, hs.busy⟩
  · exact (hknows t ht).later (fun _ _ => rfl) hshrinks.nextUUID.symm.le
  · exact VirtState.asleep_guestMove hf (hs.quiet t ht name hholds) hvirt

/-! A command of a call. -/

section Command

variable {f f' : Nat → String} {w w' : World} {op : DiskCall} {v : DiskNote} {x : Choice} {c : Cmd} {res : c.Resp}

/-- Names stay, whatever a call does. -/
theorem named_exec (hf : w.virt.Named f) (hknows : v.Knows f w.virt) (hok : v.ok c)
    (hexec : World.exec c x w = some (res, w')) :
    ∃ f', (∀ u < w.virt.nextUUID, f' u = f u) ∧ w.virt.nextUUID ≤ w'.virt.nextUUID ∧ w'.virt.Named f' := by
  by_cases hc : ∃ y, c = .virt y
  · obtain ⟨y, rfl⟩ := hc
    obtain ⟨virt, hvirt, rfl⟩ := World.exec_virt hexec
    refine hf.exec (fun xml u hxml hu => ?_) hvirt
    subst hxml
    rcases hok with hnone | ⟨huuid, r, hr, hname⟩
    · rw [hnone] at hu
      simp at hu
    · obtain ⟨hfu, hlt⟩ := hknows.uuid r hr u (huuid.symm.trans hu)
      exact ⟨hlt, hfu.trans (hname (hknows.spec r hr)).symm⟩
  · have hsame : w'.virt = w.virt := by
      cases c with
      | virt y => exact absurd ⟨y, rfl⟩ hc
      | store c =>
          obtain ⟨t, -, rfl⟩ := World.exec_store hexec
          rfl
      | net c | file c | host c => exact (World.exec_outside (by exact trivial) hexec).2
    rw [hsame]
    exact ⟨f, fun _ _ => rfl, Nat.le_refl _, hf⟩

/-- Records keep naming their domains. -/
theorem spec_exec (hspec : ∀ id r, w.store.vms.get? id = some r → r.spec.name = r.name)
    (hknows : v.Knows f w.virt) (hok : v.ok c) (hexec : World.exec c x w = some (res, w')) :
    ∀ id r, w'.store.vms.get? id = some r → r.spec.name = r.name := by
  by_cases hc : c.OffStore
  · rwa [World.exec_offStore hc hexec]
  cases c with
  | virt c | net c | file c | host c => exact absurd trivial hc
  | store c =>
      obtain ⟨t, ht, rfl⟩ := World.exec_store hexec
      cases c with
      | getVM id =>
          rw [(StoreState.exec_getVM ht).1]
          exact hspec
      | putVM vm =>
          rcases StoreState.exec_putVM ht with ⟨-, -, rfl⟩ | ⟨e, -, rfl⟩
          · intro id r hr
            rcases Bucket.mem_put hr with ⟨-, rfl⟩ | ⟨-, hold⟩
            · exact hok hknows.spec
            · exact hspec id r hold
          · exact hspec
      | _ => exact hok.elim

/-- What a call notes is true. -/
theorem knows_exec (hspec : ∀ id r, w.store.vms.get? id = some r → r.spec.name = r.name) (hf : w.virt.Named f)
    (hknows : v.Knows f w.virt) (hok : v.ok c) (hf' : ∀ u < w.virt.nextUUID, f' u = f u)
    (hnext : w.virt.nextUUID ≤ w'.virt.nextUUID) (hexec : World.exec c x w = some (res, w')) :
    (v.add op c res).Knows f' w'.virt := by
  have hlater := hknows.later hf' hnext
  by_cases hread : ∃ id, c = .store (.getVM id)
  · obtain ⟨id, rfl⟩ := hread
    obtain rfl : v = {} := hok
    obtain ⟨t, ht, rfl⟩ := World.exec_store hexec
    cases res with
    | error e => exact hlater
    | ok r =>
        refine ⟨fun r' hr' => ?_, fun r' _ u hu => by simp [DiskNote.add] at hu,
          fun r' _ u hu => by simp [DiskNote.add] at hu⟩
        obtain rfl : r = r' := Option.some.inj hr'
        exact hspec id _ ((StoreState.exec_getVM ht).2 _ rfl)
  have hrecord : (v.add op c res).record = v.record := DiskNote.add_record res fun id hc => hread ⟨id, hc⟩
  refine ⟨fun r hr => hknows.spec r (hrecord ▸ hr), fun r hr u hu => ?_, fun r hr u hu => ?_⟩
  · rw [hrecord] at hr
    by_cases hlook : ∃ name, c = .virt (.lookupDomainByName name)
    · obtain ⟨name, rfl⟩ := hlook
      obtain ⟨virt, hvirt, rfl⟩ := World.exec_virt hexec
      cases res with
      | error e => exact hlater.dom r hr u hu
      | ok dom =>
          obtain rfl : dom = u := Option.some.inj hu
          obtain ⟨r', hr', rfl⟩ := hok
          obtain rfl := Option.some.inj (hr.symm.trans hr')
          have hmem := (VirtState.exec_lookup hvirt).2 dom rfl
          have hlt := hf.below _ hmem
          exact ⟨(hf' dom hlt).trans (hf.name _ hmem).symm, Nat.lt_of_lt_of_le hlt hnext⟩
    · rw [DiskNote.add_dom res fun name hc => hlook ⟨name, hc⟩] at hu
      exact hlater.dom r hr u hu
  · rw [hrecord] at hr
    by_cases huuid : ∃ dom, c = .virt (.getUUIDString dom)
    · obtain ⟨dom, rfl⟩ := huuid
      obtain ⟨virt, hvirt, rfl⟩ := World.exec_virt hexec
      obtain rfl : res = some u := hu
      have hdom : u = dom := by
        simp only [VirtState.exec] at hvirt
        split_ifs at hvirt
        · simp at hvirt
        · have := (Prod.mk.inj (Option.some.inj hvirt)).1
          obtain ⟨e, he, rfl⟩ := Option.map_eq_some_iff.mp this
          exact VirtState.uuid_of_find? he
      rw [hdom]
      exact hlater.dom r hr dom hok
    · rw [DiskNote.add_uuid res fun dom hc => huuid ⟨dom, hc⟩] at hu
      exact hlater.uuid r hr u hu

/-- What a call does wakes no domain, but for a start. -/
theorem asleep_exec {name : String} (hf : w.virt.Named f) (hf' : w'.virt.Named f') (hok : v.ok c)
    (hs : w.virt.asleep name = true)
    (hcreate : ∀ dom, c = .virt (.create dom) → x.fail.isSome = true ∨
      ∀ a, w.virt.shape dom = some a → a.name ≠ name)
    (hexec : World.exec c x w = some (res, w')) : w'.virt.asleep name = true := by
  cases c with
  | store c =>
      obtain ⟨t, -, rfl⟩ := World.exec_store hexec
      exact hs
  | net c | file c | host c => rwa [(World.exec_outside (by exact trivial) hexec).2]
  | virt c =>
      obtain ⟨virt, hvirt, rfl⟩ := World.exec_virt hexec
      by_cases hwakes : ∃ u, c.Wakes u
      · obtain ⟨u, hu⟩ := hwakes
        cases c with
        | create dom =>
            rcases hcreate dom rfl with hfail | hother
            · rcases VirtState.exec_move hvirt with ⟨-, rfl⟩ | ⟨a, -, hx, -⟩
              · exact hs
              · simp [hx] at hfail
            · refine VirtState.asleep_exec hf hf' hs (fun u a hu ha => ?_) hvirt
              obtain rfl : dom = u := hu
              exact hother a ha
        | revertToSnapshot => exact hok.elim
        | _ => exact hu.elim
      · exact VirtState.asleep_exec hf hf' hs (fun u a hu _ => absurd ⟨u, hu⟩ hwakes) hvirt

/-- **A look that lets `qemu-img` be run**, and is not misled, is at a domain that is shut off. -/
theorem asleep_of_look {t : DiskThread} {r : VM} {dom : Nat} {state : Except Err DomainState} {virt : VirtState}
    (hf : w.virt.Named f) (hrecord : (DiskThread.note t).record = some r)
    (hname : f dom = r.name) (hsees : seesTrue w x t dom = true)
    (hpasses : t.op.passes (some r) state = true)
    (hexec : w.virt.exec x (.getState dom) = some (state, virt)) : w.virt.asleep r.name = true := by
  unfold VirtState.asleep
  unfold seesTrue at hsees
  rw [hrecord, Option.bind_some] at hsees
  cases hd : w.virt.findName? r.name with
  | none => rfl
  | some d =>
      rw [hd, Option.all_some, Bool.or_eq_true] at hsees
      rw [Option.all_some]
      rcases hsees with hoff | hop
      · exact hoff
      -- a state that was read is that of the domain
      have hread : ∀ st, state = .ok st → x.fail = none ∧ st = d.state := by
        rintro st rfl
        rcases fallible_eq hexec with ⟨e, he, -⟩ | ⟨st', hx, hact, heq⟩
        · simp at he
        obtain rfl := Except.ok.inj heq
        obtain ⟨e, he, hact⟩ := VirtState.onDomain_ok hact
        have hshape := VirtState.shape_of_find? he
        obtain ⟨d', hd', -, hdd'⟩ := hf.findName?_of_shape hshape
        have hename : e.name = r.name := (hf.name _ (VirtState.find?_idents he)).trans hname
        rw [show e.shape.name = r.name from hename, hd] at hd'
        obtain rfl := Option.some.inj hd'
        refine ⟨hx, ?_⟩
        rw [← (Prod.mk.inj (Except.ok.inj hact)).1]
        exact (congrArg DomainShape.state hdd').symm
      cases hop' : t.op with
      | clone sourceID newName =>
          rw [hop'] at hop hpasses
          obtain ⟨st, hst, hne⟩ := (Option.any_eq_true _ _).mp hpasses
          cases state with
          | error e => simp [Except.toOption] at hst
          | ok st' =>
              obtain rfl : st' = st := Option.some.inj hst
              obtain ⟨hx, rfl⟩ := hread _ rfl
              simp [hx] at hop
              simp [hop] at hne
      | update id patch =>
          rw [hop'] at hop hpasses
          unfold DiskCall.passes at hpasses
          rw [Bool.and_eq_true] at hpasses
          simp only [Bool.or_eq_true, Bool.and_eq_true, decide_eq_true_eq, hpasses.1, Bool.not_true,
            Bool.false_eq_true, or_false, Option.isNone_iff_eq_none] at hop
          obtain ⟨⟨hrun, rfl⟩, hx⟩ := hop
          have hfind := hf.find? hd
          rw [VirtState.exec, VirtState.onDomain, hfind] at hexec
          simp only [fallible, hx, Option.some.injEq, Prod.mk.injEq] at hexec
          rw [← hexec.1, hrun] at hpasses
          simp [Except.toOption] at hpasses
      | exportOVA id =>
          rw [hop'] at hpasses
          cases state with
          | error e => simp [DiskCall.passes, Except.toOption] at hpasses
          | ok st =>
              obtain ⟨-, rfl⟩ := hread _ rfl
              simpa [DiskCall.passes, Except.toOption] using hpasses
      | start id | suspend id | resume id =>
          rw [hop'] at hpasses
          simp [DiskCall.passes] at hpasses

/-- Only a look at the domain settles anything. -/
theorem settled_of_add (h : (v.add op c res).settled = true)
    (hlookup : ∀ name, c ≠ .virt (.lookupDomainByName name)) (hstate : ∀ dom, c ≠ .virt (.getState dom))
    (hwait : ∀ dom, c ≠ .virt (.waitForShutoff dom)) : v.settled = true := by
  unfold DiskNote.add at h
  split at h
  case h_2 | h_3 => exact absurd rfl (hlookup _)
  case h_5 => exact absurd rfl (hstate _)
  case h_6 => exact absurd rfl (hwait _)
  case h_7 | h_8 => simp at h
  all_goals exact h

/-- **The call itself** holds a disk only with the domain shut off. -/
theorem asleep_own {s : DiskSys} {t : DiskThread} {r : VM} (hf : s.pool.world.virt.Named f) (hf' : w'.virt.Named f')
    (hknows : (DiskThread.note t).Knows f s.pool.world.virt) (hok : (DiskThread.note t).ok c)
    (hlater : ∀ u < s.pool.world.virt.nextUUID, f' u = f u)
    (hquiet : (DiskThread.note t).settled = true → (DiskThread.note t).record = some r →
      w'.virt.asleep r.name = true)
    (hgo : mayGo s x t c = true) (hsettled : ((DiskThread.note t).add t.op c res).settled = true)
    (hrecord : ((DiskThread.note t).add t.op c res).record = some r)
    (hexec : World.exec c x s.pool.world = some (res, w')) : w'.virt.asleep r.name = true := by
  by_cases hread : ∃ id, c = .store (.getVM id)
  · obtain ⟨id, rfl⟩ := hread
    have hempty : DiskThread.note t = {} := hok
    rw [hempty] at hsettled
    cases res <;> simp [DiskNote.add] at hsettled
  have hrecord' : (DiskThread.note t).record = some r :=
    (DiskNote.add_record res fun id hc => hread ⟨id, hc⟩).symm.trans hrecord
  have hkept : (DiskThread.note t).settled = true → w'.virt.asleep r.name = true := fun h => hquiet h hrecord'
  by_cases hlookup : ∃ name, c = .virt (.lookupDomainByName name)
  · obtain ⟨name, rfl⟩ := hlookup
    obtain ⟨virt, hvirt, rfl⟩ := World.exec_virt hexec
    cases res with
    | ok dom => exact hkept hsettled
    | error e =>
        have hbelieves : t.op.believes (DiskThread.note t).record = true := hsettled
        have hgo : recordsTrue s.pool.world x t = true := hgo
        unfold recordsTrue at hgo
        rw [hbelieves, hrecord', Option.all_some, Bool.not_true, Bool.or_false, Bool.or_eq_true] at hgo
        rw [(VirtState.exec_lookup hvirt).1]
        rcases hgo with hx | hasleep
        · obtain ⟨r', hr', rfl⟩ := hok
          obtain rfl := Option.some.inj (hrecord'.symm.trans hr')
          rw [Option.isNone_iff_eq_none] at hx
          simp only [VirtState.exec, fallible, hx] at hvirt
          unfold VirtState.asleep
          cases hd : s.pool.world.virt.findName? r.name with
          | none => rfl
          | some d => simp [hd] at hvirt
        · exact hasleep
  by_cases hstate : ∃ dom, c = .virt (.getState dom)
  · obtain ⟨dom, rfl⟩ := hstate
    obtain ⟨virt, hvirt, rfl⟩ := World.exec_virt hexec
    rw [(VirtState.exec_getState hvirt).1]
    have hpasses : t.op.passes (DiskThread.note t).record res = true := hsettled
    rw [hrecord'] at hpasses
    exact asleep_of_look hf hrecord' (hknows.dom r hrecord' dom hok).1 hgo hpasses hvirt
  by_cases hwait : ∃ dom, c = .virt (.waitForShutoff dom)
  · obtain ⟨dom, rfl⟩ := hwait
    obtain ⟨virt, hvirt, rfl⟩ := World.exec_virt hexec
    cases res with
    | false => exact hkept hsettled
    | true =>
        obtain ⟨a, ha, hoff⟩ := VirtState.exec_waitForShutoff hvirt
        obtain ⟨hname, hlt⟩ := hknows.dom r hrecord' dom hok
        refine hf'.asleep_of_shape ha ?_ hoff
        exact (hf'.name _ (VirtState.mem_idents_of_shape ha)).trans ((hlater dom hlt).trans hname)
  exact hkept (settled_of_add hsettled (fun name hc => hlookup ⟨name, hc⟩) (fun dom hc => hstate ⟨dom, hc⟩)
    fun dom hc => hwait ⟨dom, hc⟩)

end Command

theorem inv_command (hs : Inv s) {i : Nat} {x : Choice} (hheld : Held s (.step i x))
    (h : step d s (.step i x) = some s') : Inv s' := by
  simp only [step] at h
  split_ifs at h with hbusy
  rw [Option.map_eq_some_iff] at h
  obtain ⟨pool, hpool, rfl⟩ := h
  have hsound := Pool.sound_step (DiskCall.alone d) hs.sound hpool
  obtain ⟨t, c, k, res, w', ht, -, hprog, hexec, rfl⟩ := Pool.step_step hpool
  have hmem := List.mem_of_getElem? ht
  have hok : (DiskThread.note t).ok c := hs.sound.allowed ht hprog
  have hgo : mayGo s x t c = true := by
    have := hheld t (Option.mem_def.mpr ht)
    simpa only [held, hprog] using this
  obtain ⟨f, hf, hknows⟩ := hs.named
  obtain ⟨f', hlater, hnext, hf'⟩ := named_exec hf (hknows t hmem) hok hexec
  -- a disk that is held stays so with its domain shut off
  have hquiet : ∀ u ∈ s.pool.threads, ∀ name, holds u name = true → w'.virt.asleep name = true := by
    intro u hu name hholds
    refine asleep_exec hf hf' hok (hs.quiet u hu name hholds) (fun dom hc => ?_) hexec
    subst hc
    rcases (Bool.or_eq_true _ _).mp hgo with hfail | hall
    · exact .inl hfail
    · refine .inr fun a ha hname => ?_
      rw [ha, Option.all_some, List.all_eq_true] at hall
      have := hall u hu
      rw [hname, hholds] at this
      simp at this
  refine ⟨hsound, spec_exec hs.spec (hknows t hmem) hok hexec, ⟨f', hf', fun u hu => ?_⟩, fun u hu name hholds => ?_,
    fun j hj => ?_⟩
  · obtain ⟨j, hj⟩ := List.mem_iff_getElem?.mp hu
    rcases Pool.getElem?_advance ht hj with ⟨-, rfl⟩ | ⟨-, hold⟩
    · exact knows_exec hs.spec hf (hknows t hmem) hok hlater hnext hexec
    · exact (hknows u (List.mem_of_getElem? hold)).later hlater hnext
  · obtain ⟨j, hj⟩ := List.mem_iff_getElem?.mp hu
    rcases Pool.getElem?_advance ht hj with ⟨-, rfl⟩ | ⟨-, hold⟩
    · obtain ⟨-, hsettled, r, hr, rfl⟩ := holds_iff.mp hholds
      refine asleep_own hf hf' (hknows t hmem) hok hlater (fun hset hrec => ?_) hgo hsettled hr hexec
      exact hquiet t hmem r.name (holds_iff.mpr ⟨by rw [hprog]; rfl, hset, r, hrec, rfl⟩)
    · exact hquiet u (List.mem_of_getElem? hold) name hholds
  · obtain ⟨hj, hji⟩ := List.mem_filter.mp hj
    rw [decide_eq_true_eq] at hji
    obtain ⟨u, hu, himg⟩ := (Option.any_eq_true _ _).mp (hs.busy j hj)
    refine (Option.any_eq_true _ _).mpr ⟨u, ?_, himg⟩
    show (s.pool.threads.set i _)[j]? = some u
    rw [List.getElem?_set_ne (Ne.symm hji), hu]

theorem inv_step (s : DiskSys) (l : DiskLabel) (s' : DiskSys) (hs : Inv s) (hheld : Held s l)
    (h : step d s l = some s') : Inv s' := by
  cases l with
  | call op => exact inv_call hs h
  | step i x => exact inv_command hs hheld h
  | spawn i => exact inv_spawn hs h
  | guest dom state => exact inv_guest hs h

/-- A call whose `qemu-img` is running has it work on the disk of the VM it read, and that VM's
domain is shut off. -/
def Quiescent (s : DiskSys) : Prop := ∀ i ∈ s.busy, ∃ t vm, s.pool.threads[i]? = some t ∧
  (DiskThread.note t).record = some vm ∧ DiskThread.qemuImg t = some vm.diskPath ∧
  s.pool.world.virt.asleep vm.name = true

theorem Inv.quiescent (hs : Inv s) : Quiescent s := by
  intro i hi
  obtain ⟨t, ht, himg⟩ := (Option.any_eq_true _ _).mp (hs.busy i hi)
  unfold DiskThread.qemuImg at himg
  split at himg
  next c k hprog =>
    have hok : (DiskThread.note t).ok c := hs.sound.allowed ht hprog
    have hnote : (DiskThread.note t).settled = true ∧
        ∃ r, (DiskThread.note t).record = some r ∧ c.qemuImg = some r.diskPath := by
      unfold Cmd.qemuImg at himg
      split at himg
      · exact ⟨hok.1, hok.2.imp fun r hr => ⟨hr.1, congrArg some hr.2⟩⟩
      · exact ⟨hok.1, hok.2.imp fun r hr => ⟨hr.1, congrArg some hr.2⟩⟩
      · simp at himg
    obtain ⟨hsettled, r, hr, hpath⟩ := hnote
    refine ⟨t, r, ht, hr, ?_, hs.quiet t (List.mem_of_getElem? ht) r.name ?_⟩
    · rw [DiskThread.qemuImg, hprog]
      exact hpath
    · exact holds_iff.mpr ⟨by rw [hprog]; rfl, hsettled, r, hr, rfl⟩
  next => simp at himg

/-- **Disks are quiescent** while they are copied or resized, in every run whose steps all meet the
condition. -/
theorem disk_quiescent (d : Daemon) (w : World) (hw : Orderly w) (ls : List DiskLabel)
    (hheld : Run.Guarded (step d) Held (init w) ls) (s : DiskSys)
    (hs : Run.exec (step d) (init w) ls = some s) : Quiescent s :=
  (Run.exec_invariant Inv inv_step ls _ s (inv_init hw) hheld hs).quiescent

theorem single_orderly (vm : VM) (hspec : vm.spec.name = vm.name) (state : DomainState) :
    Orderly (World.single vm state) where
  numbered := ⟨by simp [World.single, VirtState.idents, domainOf], by simp [World.single, VirtState.idents]⟩
  names := by simp [World.single, VirtState.idents]
  spec id r hr := by
    rcases Bucket.mem_put hr with ⟨-, rfl⟩ | ⟨-, hold⟩
    · exact hspec
    · simp at hold

/-- A clone, as far as its `qemu-img`, and `ls` while that runs. -/
def cloning (ls : List DiskLabel) : List DiskLabel :=
  .call (.clone "vm-1" "copy") :: List.replicate 7 (.step 0 { flag := true }) ++ .spawn 0 :: ls

/-- The VM is suspended while its disk is copied, in vain. -/
theorem disk_quiescent_cloned : ∃ s, Run.exec (step .plain) (init (World.single webVM .shutoff))
    (cloning [.call (.suspend "vm-1"), .step 1 {}, .step 1 {}, .step 1 {}]) = some s ∧ 0 ∈ s.busy ∧ Quiescent s := by
  have hheld : Run.Guarded (step .plain) Held (init (World.single webVM .shutoff))
      (cloning [.call (.suspend "vm-1"), .step 1 {}, .step 1 {}, .step 1 {}]) := by decide +kernel
  have hrun : (Run.exec (step .plain) (init (World.single webVM .shutoff))
      (cloning [.call (.suspend "vm-1"), .step 1 {}, .step 1 {}, .step 1 {}])).any (fun s => 0 ∈ s.busy) = true := by
    decide +kernel
  obtain ⟨s, hs, hbusy⟩ := (Option.any_eq_true _ _).mp hrun
  exact ⟨s, hs, decide_eq_true_eq.mp hbusy,
    disk_quiescent .plain _ (single_orderly webVM rfl .shutoff) _ hheld s hs⟩

/-- A domain that is up while the disk of its VM is worked on. -/
def awake (s : DiskSys) : Bool :=
  s.busy.any fun i => s.pool.threads[i]?.any fun t =>
    (DiskThread.note t).record.all fun vm => !s.pool.world.virt.asleep vm.name

theorem not_quiescent (h : awake s = true) : ¬ Quiescent s := by
  intro hq
  obtain ⟨i, hi, h⟩ := List.any_eq_true.mp h
  obtain ⟨t, vm, ht, hvm, -, hasleep⟩ := hq i hi
  rw [ht, Option.any_some, hvm, Option.all_some, hasleep] at h
  simp at h

/-- The disk of a paused VM is copied; and a VM is started while its disk is. -/
theorem disk_not_quiescent :
    (∃ s, Run.exec (step .plain) (init (World.single webVM .paused)) (cloning []) = some s ∧ ¬ Quiescent s) ∧
    ∃ s, Run.exec (step .plain) (init (World.single webVM .shutoff))
      (cloning [.call (.start "vm-1"), .step 1 {}, .step 1 {}, .step 1 {}]) = some s ∧ ¬ Quiescent s := by
  have hpaused : (Run.exec (step .plain) (init (World.single webVM .paused)) (cloning [])).any awake = true := by
    decide +kernel
  have hstarted : (Run.exec (step .plain) (init (World.single webVM .shutoff))
      (cloning [.call (.start "vm-1"), .step 1 {}, .step 1 {}, .step 1 {}])).any awake = true := by decide +kernel
  obtain ⟨s, hs, h⟩ := (Option.any_eq_true _ _).mp hpaused
  obtain ⟨s', hs', h'⟩ := (Option.any_eq_true _ _).mp hstarted
  exact ⟨⟨s, hs, not_quiescent h⟩, s', hs', not_quiescent h'⟩

end DiskSys

end VMSmith
