/-
GPUs stay in step with the definition as long as no call stops halfway.

A call replaces the definition first and writes the record last.  What fails before the
definition is replaced changes nothing; what fails after leaves the new definition and
the old record.  So the two agree after every call that is turned away early or
finishes, and an error of such a call has changed neither.
-/
import Mathlib
import VMSmith.Proofs.IOMMU
import VMSmith.VM.GPUSys
import VMSmith.Proofs.SnapshotOps

namespace VMSmith

open Go (trimSpace toLower isSpace)
open Prog (bind_eq wp_bind)

/-! ### Requested and resolved GPUs -/

theorem not_space_of_range {c : Char} (hlo : 46 ≤ c.toNat) (hhi : c.toNat ≤ 102) : isSpace c = false := by
  unfold isSpace
  simp only [List.mem_cons, List.not_mem_nil, or_false, Bool.or_eq_false_iff, decide_eq_false_iff_not,
    Bool.and_eq_false_imp, decide_eq_true_eq]
  omega

theorem isHexDigit_not_space {c : Char} (h : isHexDigit c = true) : isSpace c = false := by
  unfold isHexDigit at h
  simp only [Bool.or_eq_true, Bool.and_eq_true, decide_eq_true_eq] at h
  rcases h with (⟨hlo, hhi⟩ | ⟨hlo, hhi⟩) | ⟨hlo, hhi⟩
  · have hlo : 48 ≤ c.toNat := hlo
    have hhi : c.toNat ≤ 57 := hhi
    exact not_space_of_range (by omega) (by omega)
  · have hlo : 97 ≤ c.toNat := hlo
    have hhi : c.toNat ≤ 102 := hhi
    exact not_space_of_range (by omega) (by omega)
  · have hlo : 65 ≤ c.toNat := hlo
    have hhi : c.toNat ≤ 70 := hhi
    exact not_space_of_range (by omega) (by omega)

theorem isShortPCI_not_space {cs : List Char} (h : isShortPCI cs = true) :
    ∀ c ∈ cs, isSpace c = false := by
  unfold isShortPCI at h
  split at h
  next b₁ b₂ s₁ s₂ f =>
    simp only [Bool.and_eq_true, Bool.or_eq_true, beq_iff_eq, decide_eq_true_eq] at h
    obtain ⟨⟨⟨⟨⟨hb₁, hb₂⟩, hs₁⟩, hs₂⟩, hlo⟩, hhi⟩ := h
    have hlo : 48 ≤ f.toNat := hlo
    have hhi : f.toNat ≤ 55 := hhi
    intro c hc
    simp only [List.mem_cons, List.not_mem_nil, or_false] at hc
    rcases hc with rfl | rfl | rfl | rfl | rfl | rfl | rfl
    · exact isHexDigit_not_space hb₁
    · exact isHexDigit_not_space hb₂
    · decide
    · rcases hs₁ with rfl | rfl <;> decide
    · exact isHexDigit_not_space hs₂
    · decide
    · exact not_space_of_range (by omega) (by omega)
  next => simp at h

theorem isLongPCI_not_space {cs : List Char} (h : isLongPCI cs = true) :
    ∀ c ∈ cs, isSpace c = false := by
  unfold isLongPCI at h
  split at h
  · simp only [Bool.and_eq_true, List.all_eq_true, List.mem_cons, List.not_mem_nil, or_false,
      forall_eq_or_imp, forall_eq] at h
    obtain ⟨⟨hd₁, hd₂, hd₃, hd₄⟩, hshort⟩ := h
    intro c hc
    simp only [List.mem_cons] at hc
    rcases hc with rfl | rfl | rfl | rfl | rfl | hc
    · exact isHexDigit_not_space hd₁
    · exact isHexDigit_not_space hd₂
    · exact isHexDigit_not_space hd₃
    · exact isHexDigit_not_space hd₄
    · decide
    · exact isShortPCI_not_space hshort c hc
  · simp at h

theorem toLower_toLower (s : String) : toLower (toLower s) = toLower s := by
  simp [toLower, Function.comp_def]

/-- A canonical address is its own canonical form. -/
theorem normalize_normalize (raw : String) :
    normalizePCIAddress (normalizePCIAddress raw) = normalizePCIAddress raw := by
  have hself : ∀ s : String, isLongPCI s.toList = true → toLower s = s → normalizePCIAddress s = s := by
    intro s hlong hlower
    have htrim := Go.trimSpace_eq_self (isLongPCI_not_space hlong)
    rw [String.ofList_toList] at htrim
    rw [normalizePCIAddress, htrim, hlower, if_pos hlong]
  have hlower := toLower_toLower (trimSpace raw)
  generalize hs : toLower (trimSpace raw) = s at hlower
  have hraw : normalizePCIAddress raw =
      if isLongPCI s.toList then s else if isShortPCI s.toList then "0000:" ++ s else "" := by
    rw [← hs]
    rfl
  rw [hraw]
  by_cases hlong : isLongPCI s.toList = true
  · rw [if_pos hlong]
    exact hself s hlong hlower
  · rw [if_neg hlong]
    by_cases hshort : isShortPCI s.toList = true
    · rw [if_pos hshort]
      refine hself _ ?_ ?_
      · rw [String.toList_append]
        show (['0', '0', '0', '0'].all isHexDigit && isShortPCI s.toList) = true
        rw [hshort]
        decide
      · rw [toLower, String.toList_append, List.map_append, String.ofList_append]
        exact congrArg ("0000:" ++ ·) hlower
    · rw [if_neg hshort]
      decide

theorem mem_foldl_distinct (f : String → String) {gs out : List String} {n : String} :
    n ∈ gs.foldl (fun out g =>
        let n := f g
        if n = "" ∨ n ∈ out then out else out ++ [n]) out ↔
      n ∈ out ∨ n ≠ "" ∧ ∃ g ∈ gs, f g = n := by
  induction gs generalizing out with
  | nil => simp
  | cons g gs ih =>
      rw [List.foldl_cons, ih]
      dsimp only
      split_ifs with hskip
      · simp only [List.mem_cons, exists_eq_or_imp]
        refine ⟨fun h => h.imp_right fun hg => ⟨hg.1, .inr hg.2⟩, ?_⟩
        rintro (hout | ⟨hne, rfl | hg⟩)
        · exact .inl hout
        · exact .inl (hskip.resolve_left hne)
        · exact .inr ⟨hne, hg⟩
      · simp only [List.mem_append, List.mem_cons, List.not_mem_nil, or_false, exists_eq_or_imp,
          not_or] at hskip ⊢
        constructor
        · rintro ((hout | rfl) | ⟨hne, hg⟩)
          · exact .inl hout
          · exact .inr ⟨hskip.1, .inl rfl⟩
          · exact .inr ⟨hne, .inr hg⟩
        · rintro (hout | ⟨hne, rfl | hg⟩)
          · exact .inl (.inl hout)
          · exact .inl (.inr rfl)
          · exact .inr ⟨hne, hg⟩

/-- The resolved GPUs are the canonical forms of the valid entries. -/
theorem mem_resolvedGPUs {spec : VMSpec} {n : String} :
    n ∈ spec.resolvedGPUs ↔ n ≠ "" ∧ ∃ g ∈ spec.gpus, normalizePCIAddress g = n := by
  rw [VMSpec.resolvedGPUs, mem_foldl_distinct]
  simp only [List.not_mem_nil, false_or]

namespace Sysfs

variable {s : Sysfs}

/-- Requests that name the same devices are expanded alike. -/
theorem expandIOMMUGroups_congr {as bs : List String}
    (h : ∀ n, n ≠ "" → ((∃ g ∈ as, normalizePCIAddress g = n) ↔ ∃ g ∈ bs, normalizePCIAddress g = n)) :
    s.expandIOMMUGroups as = s.expandIOMMUGroups bs := by
  refine eq_of_pairwise_lt (s.expandIOMMUGroups_pairwise _) (s.expandIOMMUGroups_pairwise _) fun x => ?_
  rw [mem_expandIOMMUGroups, mem_expandIOMMUGroups]
  constructor
  · rintro ⟨raw, hraw, hne, hx⟩
    obtain ⟨g, hg, hsame⟩ := (h _ hne).mp ⟨raw, hraw, rfl⟩
    rw [← hsame] at hne hx
    exact ⟨g, hg, hne, hx⟩
  · rintro ⟨raw, hraw, hne, hx⟩
    obtain ⟨g, hg, hsame⟩ := (h _ hne).mpr ⟨raw, hraw, rfl⟩
    rw [← hsame] at hne hx
    exact ⟨g, hg, hne, hx⟩

/-- The record's GPUs are expanded as the resolved ones are. -/
theorem expandIOMMUGroups_resolved (spec : VMSpec) :
    s.expandIOMMUGroups spec.resolvedGPUs = s.expandIOMMUGroups spec.gpus := by
  refine expandIOMMUGroups_congr fun n hne => ⟨?_, ?_⟩
  · rintro ⟨g, hg, hn⟩
    obtain ⟨-, raw, hraw, hname⟩ := mem_resolvedGPUs.mp hg
    rw [← hname, normalize_normalize, hname] at hn
    exact ⟨raw, hraw, hname.trans hn⟩
  · rintro ⟨raw, hraw, hn⟩
    exact ⟨n, mem_resolvedGPUs.mpr ⟨hne, raw, hraw, hn⟩, by rw [← hn, normalize_normalize]⟩

/-- More requests, more devices. -/
theorem expandIOMMUGroups_mono {as bs : List String} (h : ∀ a ∈ as, a ∈ bs) :
    ∀ x ∈ s.expandIOMMUGroups as, x ∈ s.expandIOMMUGroups bs := by
  intro x hx
  obtain ⟨raw, hraw, hne, hmem⟩ := mem_expandIOMMUGroups.mp hx
  exact mem_expandIOMMUGroups.mpr ⟨raw, h raw hraw, hne, hmem⟩

theorem expandIOMMUGroups_nil : s.expandIOMMUGroups [] = [] := rfl

end Sysfs

/-! ### Definitions -/

namespace DomainParams

/-- What is rendered asks for the expansion of the record's GPUs. -/
theorem render_gpuAddresses (d : Daemon) (s : Sysfs) (spec : VMSpec) (diskPath : HostPath)
    (natMAC : String) :
    (render (d.on s) spec diskPath natMAC).gpuAddresses = s.expandIOMMUGroups spec.gpus := by
  have hbus : ∀ (p : DomainParams) (bus : String), (p.applyDiskBus bus).gpuAddresses = p.gpuAddresses := by
    intro p bus
    unfold applyDiskBus
    split_ifs <;> rfl
  have hwin : ∀ (p : DomainParams), (applyVirtioWin (d.on s) spec p).gpuAddresses = p.gpuAddresses := by
    intro p
    unfold applyVirtioWin
    split_ifs <;> rfl
  have hspec : ∀ p : DomainParams, p.gpuAddresses = spec.resolvedGPUs →
      (applyGPUs (d.on s).host spec p).gpuAddresses = s.expandIOMMUGroups spec.gpus := by
    intro p hp
    rw [← Sysfs.expandIOMMUGroups_resolved]
    unfold applyGPUs
    split_ifs with hnone
    · rw [hp, hnone, Sysfs.expandIOMMUGroups_nil]
    · rfl
  unfold render
  refine hspec _ ?_
  rw [hwin]
  unfold fromSpec
  dsimp only
  rw [hbus]
  dsimp only
  split_ifs <;> rfl

end DomainParams

/-- A definition has the devices of its spec's GPUs, the spec's name and the given UUID. -/
theorem definitionFor_ok {d : Daemon} {s : Sysfs} {vm : VM} {spec : VMSpec}
    {uuid : Option Nat} {xml : DomainXML} (h : definitionFor (d.on s) vm spec uuid = .ok xml) :
    (s.expandIOMMUGroups spec.gpus).mapM DomainParams.gpuHostdevXML = .ok xml.hostdevs ∧
      xml.name = spec.name ∧ xml.uuid = uuid := by
  unfold definitionFor at h
  obtain ⟨p, hp, hxml⟩ : ∃ p, withStoredVNC (d.on s) vm.vncPasswordEnc
      { DomainParams.render (d.on s) spec vm.diskPath vm.natMAC with uuid := uuid } = .ok p ∧
        DomainParams.generateDomainXML p = .ok xml := by
    cases hp : withStoredVNC (d.on s) vm.vncPasswordEnc
        { DomainParams.render (d.on s) spec vm.diskPath vm.natMAC with uuid := uuid } with
    | error e => simp [hp, Except.bind] at h
    | ok p =>
        rw [hp] at h
        exact ⟨p, rfl, h⟩
  have hsame : p.gpuAddresses = s.expandIOMMUGroups spec.gpus ∧ p.name = spec.name ∧
      p.uuid = uuid := by
    unfold withStoredVNC at hp
    have hgpus := DomainParams.render_gpuAddresses d s spec vm.diskPath vm.natMAC
    have hname := (DomainParams.render_name (d.on s) spec vm.diskPath vm.natMAC).1
    split_ifs at hp
    · rw [← Except.ok.inj hp]
      exact ⟨hgpus, hname, rfl⟩
    · split at hp
      · rw [← Except.ok.inj hp]
        exact ⟨hgpus, hname, rfl⟩
      · simp at hp
  obtain ⟨hostdevs, hdevs, rfl⟩ := DomainParams.generateDomainXML_ok hxml
  rw [hsame.1] at hdevs
  exact ⟨hdevs, hsame.2.1, hsame.2.2⟩

/-! ### The calls -/

-- addresses and their expansion are compared here, never worked out
attribute [local irreducible] normalizePCIAddress VMSpec.resolvedGPUs Sysfs.expandIOMMUGroups

namespace World

variable {d : Daemon} {s : Sysfs} {F : Failing} {w : World} {id : String}

/-- A redefinition is refused and changes nothing, or puts the new definition in place. -/
theorem wp_redefineDomain {vm : VM} {spec : VMSpec} {dom : Domain}
    (hdom : w.virt.find? dom.uuid = some dom) (hname : w.virt.findName? spec.name = some dom)
    {Q : Except Err Unit → World → Prop} (herr : ∀ e, Q (.error e) w)
    (hok : ∀ xml, F (.virt (.getUUIDString dom.uuid)) = none →
      definitionFor (d.on s) vm spec (some dom.uuid) = .ok xml →
      F (.virt (.domainDefineXML xml)) = none →
      Q (.ok ()) { w with
        virt := w.virt.set { dom with definition := some { xml with uuid := none } } [.defined] }) :
    Prog.wp (under F) (Manager.redefineDomain (d.on s) dom.uuid vm spec) Q w := by
  -- whatever the UUID that was read: what is defined is the definition under it
  have hrest : ∀ uuid : Option Nat, uuid = none ∨ uuid = some dom.uuid →
      (uuid = some dom.uuid → F (.virt (.getUUIDString dom.uuid)) = none) →
      Prog.wp (under F) (do
        let params ← orFail (withStoredVNC (d.on s) vm.vncPasswordEnc
          { DomainParams.render (d.on s) spec vm.diskPath vm.natMAC with uuid := uuid })
        let xmlDoc ← orWrap "generating domain XML" (DomainParams.generateDomainXML params)
        let _ ← virtCall (.domainDefineXML xmlDoc) >>= orWrap "redefining domain") Q w := by
    intro uuid huuid hread
    rw [bind_eq, wp_bind, wp_orFail]
    cases hvnc : withStoredVNC (d.on s) vm.vncPasswordEnc
        { DomainParams.render (d.on s) spec vm.diskPath vm.natMAC with uuid := uuid } with
    | error e => exact herr e
    | ok params =>
        dsimp only
        rw [bind_eq, wp_bind, wp_orWrap]
        cases hxml : DomainParams.generateDomainXML params with
        | error e => exact herr _
        | ok xml =>
            have hdefinition : definitionFor (d.on s) vm spec uuid = .ok xml := by
              unfold definitionFor
              rw [hvnc]
              exact hxml
            obtain ⟨-, hxmlName, hxmlUUID⟩ := definitionFor_ok hdefinition
            show Prog.wp _ (_ >>= _) _ _
            rw [bind_eq, wp_bind, bind_eq, wp_bind]
            refine wp_redefine hdom ⟨dom, by rw [hxmlName]; exact hname⟩ ?_ (fun e => ?_)
              (fun hF hsome _ => ?_)
            · rw [hxmlUUID]
              exact huuid
            · show Prog.wp _ (orWrap _ _) _ _
              rw [wp_orWrap]
              exact herr _
            · show Prog.wp _ (orWrap _ _) _ _
              rw [wp_orWrap]
              rw [hxmlUUID] at hsome
              rw [hsome] at hdefinition
              exact (Prog.wp_ret _ _ _).mpr (hok xml (hread hsome) hdefinition hF)
  unfold Manager.redefineDomain
  rw [bind_eq, wp_bind]
  refine wp_getUUIDString hdom (fun e he => ?_) (fun hF => ?_)
  · exact hrest none (.inl rfl) fun h => absurd h (by simp)
  · exact hrest (some dom.uuid) (.inr rfl) fun _ => hF

/-- Devices that can be taken apart are attached to a running domain. -/
theorem wp_liveAttach {uuid : Nat} {dom : Domain} (hdom : w.virt.find? uuid = some dom)
    (hstate : dom.state ≠ .shutoff) {addrs : List String}
    (haddrs : ∀ a ∈ addrs, ∃ p, DomainParams.gpuHostdevXML a = .ok p)
    (hF : ∀ dom addr, F (.virt (.attachDevice dom addr)) = none)
    {Q : Except Err Unit → World → Prop} (h : Q (.ok ()) w) :
    Prog.wp (under F) (Manager.liveAttach uuid addrs) Q w := by
  obtain rfl : dom.uuid = uuid := by simpa using List.find?_some hdom
  induction addrs with
  | nil => exact (Prog.wp_ret _ _ _).mpr h
  | cons a addrs ih =>
      obtain ⟨p, hp⟩ := haddrs a List.mem_cons_self
      unfold Manager.liveAttach
      rw [bind_eq, wp_bind, wp_orFail, hp]
      show Prog.wp _ (_ >>= _) _ _
      rw [bind_eq, wp_bind, bind_eq, wp_bind]
      refine wp_attachDevice hdom hstate (fun e he => ?_) (fun _ => ?_)
      · rw [hF] at he
        exact absurd he (by simp)
      · show Prog.wp _ (orWrap _ _) _ _
        rw [wp_orWrap]
        exact ih fun b hb => haddrs b (List.mem_cons_of_mem _ hb)

/-- What a call that has finished leaves: the new definition and the new record. -/
theorem inStep_of_finished (hk : w.Kept id) {vm : VM} {dom : Domain} {spec : VMSpec} {xml : DomainXML}
    (hvm : w.store.vms.get? id = some vm) (hdom : w.virt.findName? vm.name = some dom)
    (hspec : spec.name = vm.name)
    (hxml : definitionFor (d.on s) vm spec (some dom.uuid) = .ok xml) {t : Nat} {w' : World}
    (hvirt : w'.virt =
      w.virt.set { dom with definition := some { xml with uuid := none } } [.defined])
    (hstore : w'.store = { w.store with
      vms := w.store.vms.put vm.id { vm with spec := spec, updatedAt := t } }) :
    GPUsInStep s id w' ∧ w'.Kept id := by
  have hid : vm.id = id := hk.keyed id vm hvm
  have hget : w'.store.vms.get? id = some { vm with spec := spec, updatedAt := t } := by
    rw [hstore, hid]
    exact Bucket.get?_put_self _ _ _
  have hmem : dom ∈ w.virt.domains := List.mem_of_find?_eq_some hdom
  have hdomName : dom.name = vm.name := by simpa using List.find?_some hdom
  obtain ⟨hdistinct, hnew⟩ := hk.distinct.set hmem
    (e := { dom with definition := some { xml with uuid := none } }) rfl rfl
    (hk.distinct.snapshots dom hmem) [.defined]
  rw [← hvirt] at hdistinct hnew
  have hfor : w'.domainFor id = some { dom with definition := some { xml with uuid := none } } := by
    unfold domainFor
    rw [hget, Option.bind_some]
    have hfind := hdistinct.findName?_eq hnew
    rw [← hdomName]
    exact hfind
  refine ⟨⟨_, xml.hostdevs, hget, ?_, (definitionFor_ok hxml).1⟩, hdistinct, ?_, ?_⟩
  · unfold hostdevs
    rw [hfor]
    rfl
  · rw [hstore]
    exact hk.keyed.put { vm with spec := spec, updatedAt := t }
  · intro v hv
    rw [hget, Option.some.injEq] at hv
    rw [← hv]
    exact hspec

/-- The record and the definition are as they were, or in step again. -/
def AfterCall (s : Sysfs) (id : String) (w : World) {α : Type} (res : Except Err α) (w' : World) : Prop :=
  (GPUsInStep s id w' ∧ w'.Kept id) ∧ ∀ e, res = .error e → w.SameDomains w'

theorem afterCall_unchanged (h : GPUsInStep s id w) (hk : w.Kept id) {α : Type} (res : Except Err α) :
    AfterCall s id w res w := ⟨⟨h, hk⟩, fun _ _ => ⟨rfl, rfl⟩⟩

/-- The record is written, and that is the end of the call. -/
theorem wp_writeRecord (hk : w.Kept id) {vm : VM} {dom : Domain} (spec : VMSpec) {xml : DomainXML}
    (hvm : w.store.vms.get? id = some vm) (hdom : w.virt.findName? vm.name = some dom)
    (hspec : spec.name = vm.name)
    (hxml : definitionFor (d.on s) vm spec (some dom.uuid) = .ok xml)
    (hF : ∀ vm, F (.store (.putVM vm)) = none) (w₁ : World)
    (hvirt : w₁.virt =
      w.virt.set { dom with definition := some { xml with uuid := none } } [.defined])
    (hstore : w₁.store = w.store) (rest : VM → M VM) (hrest : ∀ vm Q w', Q (.ok vm) w' →
      Prog.wp (under F) (rest vm) Q w') :
    Prog.wp (under F) (do
      let updated := { vm with spec := spec, updatedAt := ← now }
      storeCall (.putVM updated) >>= orWrap "persisting vm"
      rest updated) (AfterCall s id w) w₁ := by
  rw [bind_eq, wp_bind]
  refine wp_now fun t => ?_
  show Prog.wp _ (_ >>= _) _ _
  rw [bind_eq, wp_bind, bind_eq, wp_bind]
  refine wp_putVM (fun e he => ?_) (fun _ => ?_)
  · rw [hF] at he
    exact absurd he (by simp)
  · show Prog.wp _ (orWrap _ _) _ _
    rw [wp_orWrap]
    refine hrest _ _ _ ⟨?_, fun e he => by simp at he⟩
    refine inStep_of_finished hk hvm hdom hspec hxml (t := t) hvirt ?_
    rw [hstore]

/-- The state of a domain as a record has it, or unknown. -/
theorem wp_domainState {dom : Domain} (hdom : w.virt.find? dom.uuid = some dom)
    {Q : Except Err VMState → World → Prop}
    (hunknown : (F (.virt (.getState dom.uuid))).isSome = true → Q (.ok .unknown) w)
    (hok : F (.virt (.getState dom.uuid)) = none → Q (.ok (vmStateOf (.ok dom.state))) w) :
    Prog.wp (under F) (domainStateToVMState dom.uuid) Q w := by
  unfold domainStateToVMState
  rw [bind_eq, wp_bind]
  refine wp_getState hdom (fun e he => ?_) (fun hF => ?_)
  · exact (Prog.wp_ret _ _ _).mpr (hunknown (by rw [he]; rfl))
  · exact (Prog.wp_ret _ _ _).mpr (hok hF)

/-- A state that is read for nothing. -/
theorem wp_readState {dom : Nat} {Q : Except Err (Except Err DomainState) → World → Prop}
    (h : ∀ r, Q (.ok r) w) : Prog.wp (under F) (virtCall (.getState dom)) Q w := by
  refine wp_under_any fun x r w' _ hexec => ?_
  obtain ⟨v, hv, rfl⟩ := exec_virt hexec
  have hsame : v = w.virt := fallible_same (VirtState.onDomain_same fun dom a t ht =>
    (Prod.mk.inj (Except.ok.inj ht)).2.symm) hv
  rw [hsame]
  exact h r

theorem vmStateOf_running {state : DomainState} : vmStateOf (.ok state) = .running ↔ state = .running := by
  cases state <;> decide

/-- The devices of one of the GPUs can be taken apart when all of them could. -/
theorem spelt_of_mapM {as bs : List String} (hsub : ∀ a ∈ as, a ∈ bs) {devs : List PCIAddress}
    (h : bs.mapM DomainParams.gpuHostdevXML = .ok devs) :
    ∀ a ∈ as, ∃ p, DomainParams.gpuHostdevXML a = .ok p := by
  intro a ha
  have hb := hsub a ha
  clear hsub ha
  induction bs generalizing devs with
  | nil => exact absurd hb List.not_mem_nil
  | cons b bs ih =>
      rw [List.mapM_cons] at h
      cases hp : DomainParams.gpuHostdevXML b with
      | error e =>
          rw [hp] at h
          exact absurd h (by simp [bind, Except.bind])
      | ok p =>
          rw [hp] at h
          rcases List.mem_cons.mp hb with rfl | hb
          · exact ⟨p, hp⟩
          · cases hrest : bs.mapM DomainParams.gpuHostdevXML with
            | error e =>
                rw [hrest] at h
                exact absurd h (by simp [bind, Except.bind])
            | ok rest => exact ih hrest hb

theorem wp_attachGPU (h : GPUsInStep s id w) (hk : w.Kept id) {pciAddr : String} {force : Bool}
    (hF : (GPUCall.attach pciAddr force).TurnedAway (d.on s) id w F ∨
      (GPUCall.attach pciAddr force).Finishes F) :
    Prog.wp (under F) (Manager.attachGPU (d.on s) id pciAddr force) (AfterCall s id w) w := by
  have hsame : ∀ res : Except Err VM, AfterCall s id w res w := fun res => afterCall_unchanged h hk res
  unfold Manager.attachGPU
  dsimp only
  rw [bind_eq, wp_bind, wp_failIf]
  refine ⟨fun _ => hsame _, fun haddr => ?_⟩
  dsimp only
  rw [bind_eq, wp_bind]
  refine wp_getVM (fun e _ => hsame _) (fun vm hget hvm => ?_)
  dsimp only
  rw [bind_eq, wp_bind, wp_failIf]
  refine ⟨fun _ => hsame _, fun hplaced => ?_⟩
  dsimp only
  rw [bind_eq, wp_bind, bind_eq, wp_bind]
  refine wp_lookup (fun e _ => ?_) (fun dom hlookup hname => ?_)
  · dsimp only
    rw [wp_orWrap]
    exact hsame _
  dsimp only
  rw [wp_orWrap]
  have hdom : w.virt.find? dom.uuid = some dom :=
    hk.distinct.find?_eq (List.mem_of_find?_eq_some hname)
  show Prog.wp _ (_ >>= _) _ _
  rw [bind_eq, wp_bind]
  -- from the state on, whatever it was read as
  have hrest : ∀ state : VMState,
      (state = .running → dom.state = .running) →
      (F (.virt (.getState dom.uuid)) = none → dom.state = .running → state = .running) →
      Prog.wp (under F) (do
        failIf (state = .running ∧ force = false) (.api "vm_running"
          "vm is running; stop it first, or pass force to live-attach (risky — vfio rebinding can wedge the host driver, and the guest needs a reboot to initialise the device)")
        let newSpec := { vm.spec with gpus := vm.spec.resolvedGPUs ++ [normalizePCIAddress pciAddr] }
        Manager.redefineDomain (d.on s) dom.uuid vm newSpec
        onlyIf (state = .running ∧ force = true)
          (Manager.liveAttach dom.uuid ((d.on s).host.expandIOMMUGroups [normalizePCIAddress pciAddr]))
        let updated := { vm with spec := newSpec, updatedAt := ← now }
        storeCall (.putVM updated) >>= orWrap "persisting vm"
        return updated) (AfterCall s id w) w := by
    intro state hrunning hread
    rw [bind_eq, wp_bind, wp_failIf]
    refine ⟨fun _ => hsame _, fun hforce => ?_⟩
    dsimp only
    rw [bind_eq, wp_bind]
    refine wp_redefineDomain hdom (by rw [← hk.named vm hvm] at hname; exact hname) (fun e => hsame _)
      (fun xml huuid hxml hdefine => ?_)
    obtain ⟨hattach, hput⟩ : (GPUCall.attach pciAddr force).Finishes F := by
      refine hF.resolve_left ?_
      rintro (hempty | hfail | haway)
      · exact haddr hempty
      · rw [hget] at hfail
        exact absurd hfail (by simp)
      · rcases haway vm hvm with hmis | hfail | haway
        · exact hplaced hmis
        · rw [hlookup] at hfail
          exact absurd hfail (by simp)
        · rcases haway dom hname with ⟨hnot, hrun, hstate⟩ | hfail | haway
          · exact hforce ⟨hread hstate hrun, hnot⟩
          · rw [huuid] at hfail
            exact absurd hfail (by simp)
          · have hfail := haway xml hxml
            rw [hdefine] at hfail
            exact absurd hfail (by simp)
    have hwrite := wp_writeRecord hk
      { vm.spec with gpus := vm.spec.resolvedGPUs ++ [normalizePCIAddress pciAddr] } hvm hname
      (hk.named vm hvm) hxml hput { w with
        virt := w.virt.set { dom with definition := some { xml with uuid := none } } [.defined] }
      rfl rfl Prog.ret fun vm Q w' hQ => (Prog.wp_ret _ _ _).mpr hQ
    dsimp only
    rw [bind_eq, wp_bind, wp_onlyIf]
    refine ⟨fun ⟨hstate, _⟩ => ?_, fun _ => hwrite⟩
    obtain ⟨hdistinct, hnew⟩ := hk.distinct.set (List.mem_of_find?_eq_some hname)
      (e := { dom with definition := some { xml with uuid := none } }) rfl rfl
      (hk.distinct.snapshots dom (List.mem_of_find?_eq_some hname)) [.defined]
    have hfind := hdistinct.find?_eq hnew
    refine wp_liveAttach hfind ?_ ?_ hattach hwrite
    · show dom.state ≠ .shutoff
      rw [hrunning hstate]
      decide
    · exact spelt_of_mapM (Sysfs.expandIOMMUGroups_mono fun a ha => List.mem_append_right _ ha)
        (definitionFor_ok hxml).1
  refine wp_domainState hdom (fun hfail => ?_) (fun _ => ?_)
  · refine hrest .unknown (fun h => absurd h (by simp)) fun hnone => ?_
    rw [hnone] at hfail
    exact absurd hfail (by simp)
  · exact hrest _ vmStateOf_running.mp fun _ => vmStateOf_running.mpr

theorem wp_detachGPU (h : GPUsInStep s id w) (hk : w.Kept id) {pciAddr : String}
    (hF : (GPUCall.detach pciAddr).TurnedAway (d.on s) id w F ∨ (GPUCall.detach pciAddr).Finishes F) :
    Prog.wp (under F) (Manager.detachGPU (d.on s) id pciAddr) (AfterCall s id w) w := by
  have hsame : ∀ res : Except Err VM, AfterCall s id w res w := fun res => afterCall_unchanged h hk res
  unfold Manager.detachGPU
  dsimp only
  rw [bind_eq, wp_bind, wp_failIf]
  refine ⟨fun _ => hsame _, fun haddr => ?_⟩
  dsimp only
  rw [bind_eq, wp_bind]
  refine wp_getVM (fun e _ => hsame _) (fun vm hget hvm => ?_)
  dsimp only
  rw [bind_eq, wp_bind, wp_failIf]
  refine ⟨fun _ => hsame _, fun hplaced => ?_⟩
  dsimp only
  rw [bind_eq, wp_bind, bind_eq, wp_bind]
  refine wp_lookup (fun e _ => ?_) (fun dom hlookup hname => ?_)
  · dsimp only
    rw [wp_orWrap]
    exact hsame _
  dsimp only
  rw [wp_orWrap]
  have hdom : w.virt.find? dom.uuid = some dom :=
    hk.distinct.find?_eq (List.mem_of_find?_eq_some hname)
  show Prog.wp _ (_ >>= _) _ _
  rw [bind_eq, wp_bind]
  refine wp_redefineDomain hdom (by rw [← hk.named vm hvm] at hname; exact hname) (fun e => hsame _)
    (fun xml huuid hxml hdefine => ?_)
  have hput : (GPUCall.detach pciAddr).Finishes F := by
    refine hF.resolve_left ?_
    rintro (hempty | hfail | haway)
    · exact haddr hempty
    · rw [hget] at hfail
      exact absurd hfail (by simp)
    · rcases haway vm hvm with hmis | hfail | haway
      · exact hplaced hmis
      · rw [hlookup] at hfail
        exact absurd hfail (by simp)
      · rcases haway dom hname with ⟨hnot, -⟩ | hfail | haway
        · exact absurd hnot (by simp [GPUCall.forced])
        · rw [huuid] at hfail
          exact absurd hfail (by simp)
        · have hfail := haway xml hxml
          rw [hdefine] at hfail
          exact absurd hfail (by simp)
  refine wp_writeRecord hk
    { vm.spec with gpus := vm.spec.resolvedGPUs.filter (· ≠ normalizePCIAddress pciAddr) } hvm hname
    (hk.named vm hvm) hxml hput { w with
      virt := w.virt.set { dom with definition := some { xml with uuid := none } } [.defined] }
    rfl rfl (fun updated => do
      let _ ← domainStateToVMState dom.uuid
      return updated) fun vm' Q w' hQ => ?_
  unfold domainStateToVMState
  rw [bind_eq, wp_bind, bind_eq, wp_bind]
  exact wp_readState fun r => (Prog.wp_ret _ _ _).mpr ((Prog.wp_ret _ _ _).mpr hQ)

/-- What a call leaves, when it is turned away early or finishes. -/
theorem wp_gpuCall (h : GPUsInStep s id w) (hk : w.Kept id) {call : GPUCall}
    (hF : call.TurnedAway (d.on s) id w F ∨ call.Finishes F) :
    Prog.wp (under F) (call.run (d.on s) id) (AfterCall s id w) w := by
  cases call with
  | attach pciAddr force => exact wp_attachGPU h hk hF
  | detach pciAddr => exact wp_detachGPU h hk hF

end World

/-- Whatever the calls, each turned away before the definition is replaced or finishing once
it is: in every world they lead to the definition has the devices that the record's GPUs
are expanded to, and a call that ends in an error from there has changed neither record nor
definition. -/
theorem gpus_inStep (d : Daemon) (s : Sysfs) (id : String) {w w' : World} (h : GPUsInStep s id w)
    (hk : w.Kept id) (hrun : GPURun (d.on s) id w w') :
    GPUsInStep s id w' ∧ ∀ (F : Failing) (call : GPUCall),
      call.TurnedAway (d.on s) id w' F ∨ call.Finishes F →
        ∀ e t, Prog.Runs (World.under F) (call.run (d.on s) id) w' (.error e) t →
          t.store.vms.get? id = w'.store.vms.get? id ∧ t.domainFor id = w'.domainFor id := by
  have hkept : GPUsInStep s id w' ∧ w'.Kept id := by
    induction hrun with
    | refl w => exact ⟨h, hk⟩
    | call hF hrun _ ih =>
        obtain ⟨⟨hstep, hkept⟩, -⟩ := Prog.wp_sound (World.wp_gpuCall h hk hF) hrun
        exact ih hstep hkept
  refine ⟨hkept.1, fun F call hF e t hrun => ?_⟩
  have hsame := (Prog.wp_sound (World.wp_gpuCall hkept.1 hkept.2 hF) hrun).2 e rfl
  exact ⟨by rw [hsame.vms], hsame.domainFor⟩

/-! ### A VM and a card -/

theorem World.single_distinct (vm : VM) (state : DomainState) : (World.single vm state).virt.Distinct := by
  refine ⟨?_, ?_, ?_⟩ <;> simp [World.single, domainOf]

theorem webVM_kept : (World.single webVM .shutoff).Kept "vm-1" where
  distinct := World.single_distinct webVM .shutoff
  keyed := World.single_keyed webVM .shutoff
  named := by
    intro vm hvm
    have hget : (World.single webVM .shutoff).store.vms.get? "vm-1" = some webVM := rfl
    rw [hget, Option.some.injEq] at hvm
    rw [← hvm]
    rfl

theorem webVM_inStep (s : Sysfs) : GPUsInStep s "vm-1" (World.single webVM .shutoff) := by
  refine ⟨webVM, [], rfl, by decide +kernel, ?_⟩
  have hgpus : webVM.spec.gpus = [] := rfl
  rw [hgpus, Sysfs.expandIOMMUGroups_nil]
  rfl

theorem gpus_inStep_card :
    ∃ res t, Prog.Runs (World.under calm)
        ((GPUCall.attach "01:00.0" false).run (Daemon.plain.on (Layout.card true).sysfs) "vm-1")
        (World.single webVM .shutoff) res t ∧ GPUsInStep (Layout.card true).sysfs "vm-1" t := by
  obtain ⟨res, t, hrun⟩ := World.under_ends calm
    ((GPUCall.attach "01:00.0" false).run (Daemon.plain.on (Layout.card true).sysfs) "vm-1")
    (World.single webVM .shutoff)
  have hF : (GPUCall.attach "01:00.0" false).Finishes calm := ⟨fun _ _ => rfl, fun _ => rfl⟩
  exact ⟨res, t, hrun, (gpus_inStep Daemon.plain (Layout.card true).sysfs "vm-1" (webVM_inStep _) webVM_kept
    (.call (.inr hF) hrun (.refl t))).1⟩

/-- The store takes no more records. -/
def putFails : Failing
  | .store (.putVM _) => some (.ext "database not open")
  | _ => none

/-- A record that cannot be written leaves the new definition in place. -/
theorem gpus_outOfStep : ¬ ∀ (d : Daemon) (s : Sysfs) (id : String) (w : World), GPUsInStep s id w →
    w.Kept id → ∀ (F : Failing) (call : GPUCall) (res : Except Err VM) (t : World),
      Prog.Runs (World.under F) (call.run (d.on s) id) w res t → GPUsInStep s id t := by
  intro hall
  have hrun : (Prog.run (World.execUnder putFails)
      ((GPUCall.attach "01:00.0" false).run (Daemon.plain.on (Layout.card true).sysfs) "vm-1")
      [{}, {}, {}, {}, {}, {}, { fail := some (.ext "database not open") }]
      (World.single webVM .shutoff)).map
        (fun p => (p.2.hostdevs "vm-1", (p.2.store.vms.get? "vm-1").map fun vm => vm.spec.gpus)) =
      some (some [⟨"0x0000", "0x01", "0x00", "0x0"⟩, ⟨"0x0000", "0x01", "0x00", "0x1"⟩], some []) := by
    decide +kernel
  obtain ⟨⟨res, t⟩, hrun, heq⟩ := Option.map_eq_some_iff.mp hrun
  obtain ⟨hdevs, hgpus⟩ := Prod.mk.inj heq
  obtain ⟨vm, devs, hvm, hhost, hspelt⟩ := hall _ _ _ _ (webVM_inStep _) webVM_kept _ _ res t
    (Prog.runs_of_run hrun)
  rw [hvm, Option.map_some, Option.some.injEq] at hgpus
  rw [hgpus, Sysfs.expandIOMMUGroups_nil] at hspelt
  rw [hdevs, Option.some.injEq] at hhost
  rw [← hhost] at hspelt
  exact absurd hspelt (by simp [pure, Except.pure])

end VMSmith
