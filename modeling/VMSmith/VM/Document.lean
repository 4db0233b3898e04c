/-
The document a domain is defined with.

A redefinition reads the domain's UUID, renders the record with it, and defines the domain so.
-/
import VMSmith.VM.GPU

namespace VMSmith

open Prog

/-- What `redefineDomain` defines the domain with. -/
def recordXML (d : Daemon) (vm : VM) (spec : VMSpec) (uuid : Option Nat) : Except Err DomainXML :=
  match withStoredVNC d vm.vncPasswordEnc
      { DomainParams.render d spec vm.diskPath vm.natMAC with uuid := uuid } with
  | .error e => .error e
  | .ok params => (DomainParams.generateDomainXML params).mapError (.wrap "generating domain XML")

variable {d : Daemon} {vm : VM} {spec : VMSpec} {uuid : Option Nat}

theorem Manager.redefineDomain_eq (dom : Nat) :
    Manager.redefineDomain d dom vm spec = (do
      let uuid ← virtCall (.getUUIDString dom)
      let xml ← orFail (recordXML d vm spec uuid)
      let _ ← virtCall (.domainDefineXML xml) >>= orWrap "redefining domain") := by
  unfold redefineDomain recordXML
  congr 1
  funext uuid
  dsimp only
  generalize withStoredVNC d vm.vncPasswordEnc _ = params
  cases params with
  | error e => rfl
  | ok params =>
      dsimp only
      generalize hxml : DomainParams.generateDomainXML params = xml
      cases xml with
      | error e =>
          show (orWrap _ (DomainParams.generateDomainXML params) >>= _) = _
          rw [hxml]
          rfl
      | ok xml =>
          show (orWrap _ (DomainParams.generateDomainXML params) >>= _) = _
          rw [hxml]
          rfl

namespace DomainParams

theorem generateDomainXML_diskPath {p : DomainParams} {x : DomainXML} (h : generateDomainXML p = .ok x) :
    x.diskPath = p.diskPath := by
  obtain ⟨hostdevs, -, rfl⟩ := generateDomainXML_ok h
  rfl

theorem applyDiskBus_diskPath (p : DomainParams) (bus : String) :
    (p.applyDiskBus bus).diskPath = p.diskPath := by
  unfold applyDiskBus
  split_ifs <;> rfl

theorem render_diskPath (d : Daemon) (spec : VMSpec) (diskPath : HostPath) (natMAC : String) :
    (render d spec diskPath natMAC).diskPath = diskPath := by
  have hGPU : ∀ p, (applyGPUs d.host spec p).diskPath = p.diskPath := by
    intro p
    unfold applyGPUs
    split_ifs <;> rfl
  have hwin : ∀ p, (applyVirtioWin d spec p).diskPath = p.diskPath := by
    intro p
    unfold applyVirtioWin
    split_ifs <;> rfl
  unfold render
  simp only [hGPU, hwin, fromSpec, applyDiskBus_diskPath]
  split_ifs <;> rfl

end DomainParams

theorem withStoredVNC_ok {enc : String} {p q : DomainParams} (h : withStoredVNC d enc p = .ok q) :
    ∃ vncPassword, q = { p with vncPassword := vncPassword } := by
  unfold withStoredVNC at h
  split_ifs at h
  · exact ⟨p.vncPassword, (Except.ok.inj h).symm⟩
  · split at h
    next plain _ => exact ⟨plain, (Except.ok.inj h).symm⟩
    next => simp at h

/-- The document names the domain after the spec and has the record's disk. -/
theorem recordXML_ok {xml : DomainXML} (h : recordXML d vm spec uuid = .ok xml) :
    xml.name = spec.name ∧ xml.uuid = uuid ∧ xml.diskPath = vm.diskPath := by
  unfold recordXML at h
  split at h
  next => simp at h
  next params hparams =>
    obtain ⟨vncPassword, rfl⟩ := withStoredVNC_ok hparams
    cases hxml : DomainParams.generateDomainXML
        { DomainParams.render d spec vm.diskPath vm.natMAC with uuid := uuid, vncPassword := vncPassword } with
    | error e => simp [hxml, Except.mapError] at h
    | ok x =>
        rw [hxml] at h
        obtain rfl : x = xml := Except.ok.inj h
        obtain ⟨hname, huuid⟩ := DomainParams.generateDomainXML_name hxml
        exact ⟨hname.trans (DomainParams.render_name ..).1, huuid,
          (DomainParams.generateDomainXML_diskPath hxml).trans (DomainParams.render_diskPath ..)⟩

end VMSmith
