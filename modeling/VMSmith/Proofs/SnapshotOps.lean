/-
What the operations on snapshots do, however their commands are answered.

A meaning of the commands keeps a world in its states and says what answers it allows; what the
manager's operations then do to the snapshots of a VM follows from that alone.
-/
import VMSmith.Scheduler.SnapshotSys
import VMSmith.VM.OffStore

namespace VMSmith

open Prog

/-! ### What commands do to the snapshots -/

/-- The commands that change no record of a VM and no domain. -/
def Cmd.Looks : Cmd → Prop
  | .store (.putVM _) | .store (.deleteVM _) => False
  | .store _ => True
  | .virt (.lookupDomainByName _) | .virt (.getState _) | .virt (.getDomainIP _)
  | .virt (.snapshotLookup _ _) | .virt (.snapshotXML _ _ _) | .virt (.listSnapshots _) => True
  | .virt _ => False
  | .net _ | .file _ | .host _ => True

/-- The records of VMs and the domains are as they were. -/
structure World.SameDomains (w w' : World) : Prop where
  vms : w'.store.vms = w.store.vms
  domains : w'.virt.domains = w.virt.domains

theorem World.SameDomains.trans {w w' w'' : World} (h : w.SameDomains w') (h' : w'.SameDomains w'') :
    w.SameDomains w'' := ⟨h'.vms.trans h.vms, h'.domains.trans h.domains⟩

theorem World.SameDomains.symm {w w' : World} (h : w.SameDomains w') : w'.SameDomains w :=
  ⟨h.vms.symm, h.domains.symm⟩

theorem World.SameDomains.findName? {w w' : World} (h : w.SameDomains w') (name : String) :
    w'.virt.findName? name = w.virt.findName? name := by
  unfold VirtState.findName?
  rw [h.domains]

theorem fallible_same {σ α : Type} {x : Choice} {s s' : σ} {act : Except Err (α × σ)} {r : Except Err α}
    (hact : ∀ a t, act = .ok (a, t) → t = s) (h : fallible x s act = some (r, s')) : s' = s := by
  rcases fallible_eq h with ⟨e, -, rfl⟩ | ⟨a, -, ha, -⟩
  · rfl
  · exact hact a _ ha

namespace VirtState

variable {s s' : VirtState}

theorem onDomain_same {α : Type} {dom : Nat} {act : Domain → Except Err (α × VirtState)}
    (hact : ∀ d a t, act d = .ok (a, t) → t = s) :
    ∀ a t, s.onDomain dom act = .ok (a, t) → t = s := by
  intro a t h
  unfold onDomain at h
  cases hd : s.find? dom with
  | none => simp [hd] at h
  | some d =>
      rw [hd] at h
      exact hact d a t h

end VirtState

theorem World.exec_looks {c : Cmd} (hc : c.Looks) {x : Choice} {w w' : World} {r : c.Resp}
    (h : World.exec c x w = some (r, w')) : w.SameDomains w' := by
  cases c with
  | net c | file c | host c =>
      obtain ⟨hstore, hvirt⟩ := World.exec_outside (by exact trivial) h
      exact ⟨by rw [hstore], by rw [hvirt]⟩
  | store c =>
      obtain ⟨s, hs, rfl⟩ := World.exec_store h
      refine ⟨?_, rfl⟩
      cases c with
      | putVM vm | deleteVM id => exact hc.elim
      | getVM id => rw [(StoreState.exec_getVM hs).1]
      | listVMs | putSnapshotTags vmID name tags | getSnapshotTags vmID name | listSnapshotTags vmID
      | deleteSnapshotTags vmID name | listPortForwards | putPortForward rule | deletePortForward id =>
          rcases fallible_ok hs with ⟨-, -, rfl⟩ | ⟨-, -, rfl⟩
          · rfl
          · rfl
  | virt c =>
      obtain ⟨v, hv, rfl⟩ := World.exec_virt h
      have hsame : ∀ {α : Type} {a a' : α} {t : VirtState},
          (Except.ok (a, w.virt) : Except Err (α × VirtState)) = .ok (a', t) → t = w.virt := by
        intro α a a' t ht
        exact (Prod.mk.inj (Except.ok.inj ht)).2.symm
      refine ⟨rfl, congrArg VirtState.domains ?_⟩
      cases c with
      | lookupDomainByName name =>
          refine fallible_same (fun a t ht => ?_) hv
          split at ht
          · exact hsame ht
          · exact absurd ht (by simp)
      | getState dom | listSnapshots dom =>
          exact fallible_same (VirtState.onDomain_same fun _ _ _ ht => hsame ht) hv
      | getDomainIP dom => exact (Prod.mk.inj (Option.some.inj hv)).2.symm
      | snapshotLookup dom name =>
          refine fallible_same (VirtState.onDomain_same fun d a t ht => ?_) hv
          split_ifs at ht
          exact hsame ht
      | snapshotXML dom name secure =>
          refine fallible_same (VirtState.onDomain_same fun d a t ht => ?_) hv
          split at ht
          · exact hsame ht
          · exact absurd ht (by simp)
      | create dom | shutdown dom | destroy dom | reboot dom | suspend dom | resume dom
      | undefineFlags dom | undefine dom | waitForShutoff dom | getUUIDString dom | domainDefineXML xml
      | attachDevice dom addr | createSnapshot dom name description | redefineSnapshot dom xml
      | revertToSnapshot dom name | deleteSnapshot dom name => exact hc.elim

namespace VirtState

variable {s s' : VirtState} {x : Choice} {d : Domain}

theorem mem_unique {α β : Type} {f : α → β} {xs : List α} (h : (xs.map f).Nodup) {a b : α} (ha : a ∈ xs)
    (hb : b ∈ xs) (heq : f a = f b) : a = b := List.inj_on_of_nodup_map h ha hb heq

theorem Distinct.find?_eq (h : s.Distinct) (hd : d ∈ s.domains) : s.find? d.uuid = some d := by
  obtain ⟨e, he⟩ : ∃ e, s.find? d.uuid = some e := by
    rw [← Option.isSome_iff_exists, find?, List.find?_isSome]
    exact ⟨d, hd, by simp⟩
  have hid : e.uuid = d.uuid := by simpa using List.find?_some he
  rw [he, mem_unique h.uuids (List.mem_of_find?_eq_some he) hd hid]

theorem Distinct.findName?_eq (h : s.Distinct) (hd : d ∈ s.domains) : s.findName? d.name = some d := by
  obtain ⟨e, he⟩ : ∃ e, s.findName? d.name = some e := by
    rw [← Option.isSome_iff_exists, findName?, List.find?_isSome]
    exact ⟨d, hd, by simp⟩
  have hname : e.name = d.name := by simpa using List.find?_some he
  rw [he, mem_unique h.names (List.mem_of_find?_eq_some he) hd hname]

/-- One domain is replaced by its new self. -/
theorem Distinct.set (h : s.Distinct) (hd : d ∈ s.domains) {e : Domain} (huuid : e.uuid = d.uuid)
    (hname : e.name = d.name) (hsnaps : (e.snapshots.map SnapshotXML.name).Nodup)
    (events : List LifecycleEvent) :
    (s.set e events).Distinct ∧ e ∈ (s.set e events).domains := by
  have hkeep : ∀ {β : Type} (f : Domain → β), f e = f d →
      (s.set e events).domains.map f = s.domains.map f := by
    intro β f hf
    simp only [VirtState.set, List.map_map]
    refine List.map_congr_left fun e' he' => ?_
    simp only [Function.comp_apply]
    split_ifs with hsame
    · rw [hf, mem_unique h.uuids hd he' (huuid.symm.trans hsame.symm)]
    · rfl
  refine ⟨⟨?_, ?_, fun e' he' => ?_⟩, List.mem_map.mpr ⟨d, hd, if_pos huuid.symm⟩⟩
  · rw [hkeep _ huuid]
    exact h.uuids
  · rw [hkeep _ hname]
    exact h.names
  · obtain ⟨e₀, he₀, rfl⟩ := List.mem_map.mp he'
    split_ifs
    · exact hsnaps
    · exact h.snapshots e₀ he₀

/-- One domain's snapshots are replaced. -/
theorem Distinct.set_snapshots (h : s.Distinct) (hd : d ∈ s.domains) {snaps : List SnapshotXML}
    (hsnaps : (snaps.map SnapshotXML.name).Nodup) :
    (s.set { d with snapshots := snaps } []).Distinct ∧
      { d with snapshots := snaps } ∈ (s.set { d with snapshots := snaps } []).domains := by
  refine h.set hd ?_ ?_ hsnaps []
  · rfl
  · rfl

theorem exec_createSnapshot {name description : String} {r : Except Err Unit} (hd : s.find? d.uuid = some d)
    (hexec : s.exec x (.createSnapshot d.uuid name description) = some (r, s')) :
    ((∃ e, r = .error e) ∧ s' = s) ∨ r = .ok () ∧ name ∉ d.snapshots.map SnapshotXML.name ∧
      ∃ xml, d.definition = some xml ∧ s' = s.set { d with
        snapshots := d.snapshots ++
          [{ name := name, description := description, creationTime := x.nat, definition := xml }] } [] := by
  rcases fallible_eq hexec with ⟨e, rfl, rfl⟩ | ⟨u, -, hact, rfl⟩
  · exact .inl ⟨⟨e, rfl⟩, rfl⟩
  · refine .inr ⟨rfl, ?_⟩
    unfold onDomain at hact
    simp only [hd] at hact
    cases hxml : d.definition with
    | none => simp [hxml] at hact
    | some xml =>
        simp only [hxml] at hact
        split_ifs at hact with hname
        obtain ⟨-, rfl⟩ := Prod.mk.inj (Except.ok.inj hact)
        exact ⟨hname, xml, rfl, rfl⟩

theorem exec_deleteSnapshot {name : String} {r : Except Err Unit} (hd : s.find? d.uuid = some d)
    (hexec : s.exec x (.deleteSnapshot d.uuid name) = some (r, s')) :
    ((∃ e, r = .error e) ∧ s' = s ∧ (x.fail = none → name ∉ d.snapshots.map SnapshotXML.name)) ∨
      r = .ok () ∧ s' = s.set { d with snapshots := d.snapshots.filter fun y => y.name ≠ name } [] := by
  unfold exec fallible onDomain at hexec
  simp only [hd] at hexec
  cases hx : x.fail with
  | some e =>
      simp only [hx, Option.some.injEq, Prod.mk.injEq] at hexec
      obtain ⟨rfl, rfl⟩ := hexec
      exact .inl ⟨⟨e, rfl⟩, rfl, fun h => by simp at h⟩
  | none =>
      simp only [hx] at hexec
      by_cases hname : name ∈ d.snapshots.map SnapshotXML.name
      · simp only [if_pos hname, Option.some.injEq, Prod.mk.injEq] at hexec
        exact .inr ⟨hexec.1.symm, hexec.2.symm⟩
      · simp only [if_neg hname, Option.some.injEq, Prod.mk.injEq] at hexec
        exact .inl ⟨⟨_, hexec.1.symm⟩, hexec.2.symm, fun _ => hname⟩

end VirtState

namespace World

variable {w w' : World} {vmID : String} {d : Domain}

/-- The VM has this domain. -/
def Holds (w : World) (vmID : String) (d : Domain) : Prop := w.virt.Distinct ∧ w.domainFor vmID = some d

theorem SameDomains.distinct (h : w.SameDomains w') (hd : w.virt.Distinct) : w'.virt.Distinct := by
  have hdom := h.domains
  exact ⟨hdom ▸ hd.uuids, hdom ▸ hd.names, fun d hmem => hd.snapshots d (hdom ▸ hmem)⟩

theorem SameDomains.domainFor (h : w.SameDomains w') : w'.domainFor vmID = w.domainFor vmID := by
  unfold World.domainFor
  simp only [h.vms, h.findName?]

theorem Holds.same (h : w.Holds vmID d) (hsame : w.SameDomains w') : w'.Holds vmID d :=
  ⟨hsame.distinct h.1, hsame.domainFor.trans h.2⟩

theorem Holds.mem (h : w.Holds vmID d) : d ∈ w.virt.domains := by
  obtain ⟨vm, -, hfind⟩ := Option.bind_eq_some_iff.mp h.2
  exact List.mem_of_find?_eq_some hfind

theorem Holds.find? (h : w.Holds vmID d) : w.virt.find? d.uuid = some d := h.1.find?_eq h.mem

theorem Holds.nodup (h : w.Holds vmID d) : (d.snapshots.map SnapshotXML.name).Nodup := h.1.snapshots d h.mem

theorem Holds.snapshotNames (h : w.Holds vmID d) : w.snapshotNames vmID = d.snapshots.map SnapshotXML.name := by
  unfold World.snapshotNames
  rw [h.2]
  rfl

/-- Its snapshots are replaced. -/
theorem Holds.set (h : w.Holds vmID d) {snaps : List SnapshotXML} (hsnaps : (snaps.map SnapshotXML.name).Nodup) :
    ({ w with virt := w.virt.set { d with snapshots := snaps } [] } : World).Holds vmID
      { d with snapshots := snaps } := by
  obtain ⟨hdistinct, hmem⟩ := h.1.set_snapshots h.mem hsnaps
  obtain ⟨vm, hvm, hfind⟩ := Option.bind_eq_some_iff.mp h.2
  have hname : d.name = vm.name := by simpa using List.find?_some hfind
  refine ⟨hdistinct, Option.bind_eq_some_iff.mpr ⟨vm, hvm, ?_⟩⟩
  rw [← hname]
  exact hdistinct.findName?_eq hmem

end World

/-- A meaning of commands over states that hold a world and something else. -/
structure Worldly (σ ρ : Type) where
  exec : (c : Cmd) → Choice → σ → Option (c.Resp × σ)
  world : σ → World
  rest : σ → ρ
  /-- How a command may be answered. -/
  fits : ρ → Cmd → Choice → Prop
  next : ρ → (c : Cmd) → c.Resp → ρ
  exec_eq : ∀ {c : Cmd} {x : Choice} {s : σ} {r : c.Resp} {s' : σ}, exec c x s = some (r, s') →
    fits (rest s) c x ∧ World.exec c x (world s) = some (r, world s') ∧ rest s' = next (rest s) c r
  /-- Only a snapshot that is taken matters to the rest. -/
  next_eq : ∀ (q : ρ) {c : Cmd} {r : c.Resp}, Making.takes c r = false → next q c r = q

namespace Worldly

variable {σ ρ α : Type} (W : Worldly σ ρ)

abbrev sem : Prog.Sem Cmd Cmd.Resp σ := Prog.Sem.ofExec W.exec

/-- Records and domains are as they were, and so is the rest. -/
structure Same (s s' : σ) : Prop where
  world : (W.world s).SameDomains (W.world s')
  rest : W.rest s' = W.rest s

/-- The VM has this domain. -/
def Has (s : σ) (vmID : String) (d : Domain) : Prop := (W.world s).Holds vmID d

/-- What a deletion needs is not refused. -/
def Sure (q : ρ) : Prop := ∀ c x, Making.deletes c = true → W.fits q c x → x.fail = none

variable {W} {s s' s'' : σ} {vmID : String} {d : Domain}

theorem Same.trans (h : W.Same s s') (h' : W.Same s' s'') : W.Same s s'' :=
  ⟨h.world.trans h'.world, h'.rest.trans h.rest⟩

theorem Has.same (h : W.Has s vmID d) (hsame : W.Same s s') : W.Has s' vmID d :=
  World.Holds.same h hsame.world

theorem same_of_looks {c : Cmd} (hc : c.Looks) {x : Choice} {r : c.Resp} (h : W.exec c x s = some (r, s')) :
    W.Same s s' := by
  obtain ⟨-, hexec, hrest⟩ := W.exec_eq h
  refine ⟨World.exec_looks hc hexec, hrest.trans (W.next_eq _ ?_)⟩
  unfold Making.takes
  split
  · exact hc.elim
  · rfl

theorem wp_looks {p : M α} (hp : Only Cmd.Looks p) {Q : Except Err α → σ → Prop}
    (hQ : ∀ r s', W.Same s s' → Q r s') : wp W.sem p Q s := by
  refine wp_of_only (W.Same s) (fun _ _ _ _ => trivial) ?_ hp ⟨⟨rfl, rfl⟩, rfl⟩ hQ
  rintro s' c r s'' hsame hc ⟨x, hexec⟩
  exact hsame.trans (same_of_looks hc hexec)

/-- The record and the domain come first; they are found if they are there and nothing is
refused. -/
theorem wp_withDomain {context : String} {f : VM → Nat → M α} {Q : Except Err α → σ → Prop}
    (herr : (W.Sure (W.rest s) → (W.world s).domainFor vmID = none) → ∀ e s', W.Same s s' → Q (.error e) s')
    (hok : ∀ vm d s', (W.world s).domainFor vmID = some d → W.Same s s' → wp W.sem (f vm d.uuid) Q s') :
    wp W.sem (getVM vmID >>= fun vm =>
      (virtCall (.lookupDomainByName vm.name) >>= orWrap context) >>= f vm) Q s := by
  rw [bind_eq, wp_bind]
  refine (wp_call _ _ _ _).mpr ⟨trivial, ?_⟩
  rintro r s₁ ⟨x, h₁⟩
  have hsame₁ := same_of_looks (by exact trivial) h₁
  obtain ⟨hfits, hexec, -⟩ := W.exec_eq h₁
  obtain ⟨t, ht, -⟩ := World.exec_store hexec
  cases r with
  | error e =>
      refine (wp_throw _ _ _).mpr (herr (fun hsure => ?_) e s₁ hsame₁)
      cases hvm : (W.world s).store.vms.get? vmID with
      | none => simp [World.domainFor, hvm]
      | some vm => simp [StoreState.exec, fallible, hsure _ _ rfl hfits, hvm] at ht
  | ok vm =>
      have hvm := (StoreState.exec_getVM ht).2 vm rfl
      refine (wp_ret _ _ _).mpr ?_
      show wp _ ((virtCall (.lookupDomainByName vm.name) >>= orWrap context) >>= f vm) _ _
      rw [bind_eq, wp_bind]
      refine (wp_call _ _ _ _).mpr ⟨trivial, ?_⟩
      rintro r s₂ ⟨x, h₂⟩
      have hsame₂ := hsame₁.trans (same_of_looks (by exact trivial) h₂)
      obtain ⟨hfits, hexec, -⟩ := W.exec_eq h₂
      obtain ⟨v, hv, -⟩ := World.exec_virt hexec
      have hfind := hsame₁.world.findName? vm.name
      cases r with
      | error e =>
          refine (wp_throw _ _ _).mpr (herr (fun hsure => ?_) _ s₂ hsame₂)
          cases hd : (W.world s).virt.findName? vm.name with
          | none => simp [World.domainFor, hvm, hd]
          | some d =>
              have hx := hsure _ _ rfl (hsame₁.rest ▸ hfits)
              simp [VirtState.exec, fallible, hx, hfind, hd] at hv
      | ok dom =>
          rcases fallible_eq hv with ⟨e, he, -⟩ | ⟨a, -, hact, ha⟩
          · simp at he
          · cases hd : (W.world s).virt.findName? vm.name with
            | none => simp [hfind, hd] at hact
            | some d =>
                simp only [hfind, hd, Except.ok.injEq, Prod.mk.injEq] at hact
                obtain rfl : d.uuid = dom := hact.1.trans (Except.ok.inj ha).symm
                have hfor : (W.world s).domainFor vmID = some d := by
                  simp only [World.domainFor, hvm, Option.bind_some, hd]
                exact (wp_ret _ _ _).mpr (hok vm d s₂ hfor hsame₂)

/-- The same, of a VM that has a domain. -/
theorem Has.wp_withDomain {context : String} {f : VM → Nat → M α} {Q : Except Err α → σ → Prop}
    (h : W.Has s vmID d) (herr : ¬ W.Sure (W.rest s) → ∀ e s', W.Same s s' → Q (.error e) s')
    (hok : ∀ vm s', W.Same s s' → wp W.sem (f vm d.uuid) Q s') :
    wp W.sem (getVM vmID >>= fun vm =>
      (virtCall (.lookupDomainByName vm.name) >>= orWrap context) >>= f vm) Q s := by
  refine Worldly.wp_withDomain (fun hnone => herr fun hsure => ?_) fun vm e s' he => ?_
  · exact absurd (h.2.symm.trans (hnone hsure)) (Option.some_ne_none d)
  · obtain rfl : d = e := Option.some.inj (h.2.symm.trans he)
    exact hok vm s'

/-- Deleting a snapshot. -/
theorem wp_deleteSnapshot (h : W.Has s vmID d) (name : String) : wp W.sem (Manager.deleteSnapshot vmID name)
    (fun r s' => W.rest s' = W.rest s ∧
      ((r = .ok () ∧ W.Has s' vmID { d with snapshots := d.snapshots.filter fun y => y.name ≠ name }) ∨
        (∃ e, r = .error e) ∧ W.Has s' vmID d ∧
          (W.Sure (W.rest s) → name ∉ d.snapshots.map SnapshotXML.name))) s := by
  have herr : ∀ {e : Err} {s' : σ}, W.Same s s' →
      (W.Sure (W.rest s) → name ∉ d.snapshots.map SnapshotXML.name) → _ := fun {e s'} hsame hgone =>
    (⟨hsame.rest, .inr ⟨⟨e, rfl⟩, h.same hsame, hgone⟩⟩ : W.rest s' = W.rest s ∧
      (((.error e : Except Err Unit) = .ok () ∧
          W.Has s' vmID { d with snapshots := d.snapshots.filter fun y => y.name ≠ name }) ∨
        (∃ e', (.error e : Except Err Unit) = .error e') ∧ W.Has s' vmID d ∧
          (W.Sure (W.rest s) → name ∉ d.snapshots.map SnapshotXML.name)))
  refine h.wp_withDomain (fun hnot e s' hsame => herr hsame fun hsure => absurd hsure hnot) fun vm s₁ hsame => ?_
  rw [bind_eq, wp_bind]
  refine (wp_call _ _ _ _).mpr ⟨trivial, ?_⟩
  rintro r s₂ ⟨x, h₂⟩
  have hsame₂ := hsame.trans (same_of_looks (by exact trivial) h₂)
  obtain ⟨hfits, hexec, -⟩ := W.exec_eq h₂
  obtain ⟨v, hv, -⟩ := World.exec_virt hexec
  cases r with
  | error e =>
      refine (wp_throw _ _ _).mpr (herr hsame₂ fun hsure hname => ?_)
      have hx := hsure _ _ rfl (hsame.rest ▸ hfits)
      simp only [VirtState.exec, fallible, hx, VirtState.onDomain, (h.same hsame).find?, if_pos hname,
        Option.some.injEq, Prod.mk.injEq] at hv
      exact absurd hv.1 (by simp)
  | ok u =>
      refine (wp_ret _ _ _).mpr ?_
      show wp _ ((virtCall (.deleteSnapshot d.uuid name) >>= orFail) >>= _) _ _
      rw [bind_eq, wp_bind]
      refine (wp_call _ _ _ _).mpr ⟨trivial, ?_⟩
      rintro r s₃ ⟨x, h₃⟩
      obtain ⟨hfits, hexec, hrest⟩ := W.exec_eq h₃
      obtain ⟨v, hv, hw⟩ := World.exec_virt hexec
      have hrest₃ : W.rest s₃ = W.rest s := by rw [hrest, W.next_eq _ rfl, hsame₂.rest]
      rcases VirtState.exec_deleteSnapshot (h.same hsame₂).find? hv with ⟨⟨e, rfl⟩, rfl, hgone⟩ | ⟨rfl, rfl⟩
      · refine (wp_throw _ _ _).mpr (herr ⟨?_, hrest₃⟩ fun hsure => hgone (hsure _ _ rfl (hsame₂.rest ▸ hfits)))
        rw [hw]
        exact hsame₂.world
      · have hhas : W.Has s₃ vmID { d with snapshots := d.snapshots.filter fun y => y.name ≠ name } := by
          unfold Has
          rw [hw]
          refine (h.same hsame₂).set ?_
          exact h.nodup.sublist ((List.filter_sublist ..).map _)
        refine (wp_ret _ _ _).mpr ((wp_call _ _ _ _).mpr ⟨trivial, ?_⟩)
        rintro r s₄ ⟨x, h₄⟩
        have hsame₄ := same_of_looks (by exact trivial) h₄
        exact (wp_ret _ _ _).mpr ⟨hsame₄.rest.trans hrest₃, .inl ⟨rfl, hhas.same hsame₄⟩⟩

theorem filter_notMem_cons {y : SnapshotXML → String} (name : String) (names : List String)
    (snaps : List SnapshotXML) : (snaps.filter fun x => y x ≠ name).filter (fun x => y x ∉ names) =
      snaps.filter fun x => y x ∉ name :: names := by
  rw [List.filter_filter]
  refine List.filter_congr fun x _ => ?_
  simp only [List.mem_cons, not_or, Bool.decide_and, Bool.and_comm]

/-- A snapshot of a VM's gone, the others of a list are still there. -/
theorem names_left {names : List String} {snap : Snapshot} {snaps : List Snapshot}
    (hsub : ∀ s ∈ snap :: snaps, s.name ∈ names) (hnodup : ((snap :: snaps).map Snapshot.name).Nodup) :
    (∀ s ∈ snaps, s.name ∈ names.filter (· ≠ snap.name)) ∧ (snaps.map Snapshot.name).Nodup := by
  rw [List.map_cons, List.nodup_cons] at hnodup
  refine ⟨fun s hs => List.mem_filter.mpr ⟨hsub s (List.mem_cons_of_mem _ hs), ?_⟩, hnodup.2⟩
  rw [decide_eq_true_eq]
  exact fun heq => hnodup.1 (heq ▸ List.mem_map_of_mem hs)

/-- Without these snapshots. -/
def without (d : Domain) (gone : List String) : Domain :=
  { d with snapshots := d.snapshots.filter fun y => y.name ∉ gone }

theorem length_without (hnodup : (d.snapshots.map SnapshotXML.name).Nodup) {gone : List String}
    (hgone : gone.Nodup) (hsub : ∀ name ∈ gone, name ∈ d.snapshots.map SnapshotXML.name) :
    (without d gone).snapshots.length + gone.length = d.snapshots.length := by
  have hperm : ((d.snapshots.map SnapshotXML.name).filter (· ∈ gone)).Perm gone := by
    refine (List.perm_ext_iff_of_nodup (hnodup.filter _) hgone).mpr fun name => ?_
    simp only [List.mem_filter, decide_eq_true_eq]
    exact ⟨And.right, fun h => ⟨hsub name h, h⟩⟩
  have hcount : ((d.snapshots.map SnapshotXML.name).filter (· ∉ gone)).length +
      ((d.snapshots.map SnapshotXML.name).filter (· ∈ gone)).length = d.snapshots.length := by
    rw [← List.length_map SnapshotXML.name, Nat.add_comm, ← List.countP_eq_length_filter,
      ← List.countP_eq_length_filter, List.length_eq_countP_add_countP (· ∈ gone)]
    simp
  rw [hperm.length_eq, List.filter_map, List.length_map] at hcount
  exact hcount

/-- The first of some snapshots in another order are there, each once. -/
theorem oldest_there {names : List String} {snaps sorted : List Snapshot} (hperm : sorted.Perm snaps)
    (hsub : ∀ s ∈ snaps, s.name ∈ names) (hnodup : (snaps.map Snapshot.name).Nodup) (k : Nat) :
    (∀ s ∈ sorted.take k, s.name ∈ names) ∧ ((sorted.take k).map Snapshot.name).Nodup := by
  refine ⟨fun s hs => hsub s (hperm.mem_iff.mp (List.mem_of_mem_take hs)), ?_⟩
  rw [List.map_take]
  exact ((hperm.map _).nodup_iff.mpr hnodup).sublist (List.take_sublist _ _)

theorem wp_deleteEach {snaps : List Snapshot} (h : W.Has s vmID d)
    (hsub : ∀ a ∈ snaps, a.name ∈ d.snapshots.map SnapshotXML.name) (hnodup : (snaps.map Snapshot.name).Nodup) :
    wp W.sem (QuotaManager.deleteEach vmID snaps) (fun r s' => r = .ok () ∧ W.rest s' = W.rest s ∧
      ∃ gone, gone.Sublist (snaps.map Snapshot.name) ∧ W.Has s' vmID (without d gone) ∧
        (W.Sure (W.rest s) → gone = snaps.map Snapshot.name)) s := by
  induction snaps generalizing s d with
  | nil => exact (wp_ret _ _ _).mpr ⟨rfl, rfl, [], .slnil, by simpa [without] using h, fun _ => rfl⟩
  | cons snap snaps ih =>
      obtain ⟨hsub', hnodup'⟩ := names_left hsub hnodup
      rw [QuotaManager.deleteEach, bind_eq, wp_bind, wp_attempt]
      refine wp_mono (fun r s₁ hr => ?_) (wp_deleteSnapshot h snap.name)
      obtain ⟨hrest, ⟨rfl, hhas⟩ | ⟨⟨e, rfl⟩, hhas, hgone⟩⟩ := hr
      · have hnames : (d.snapshots.filter fun y => y.name ≠ snap.name).map SnapshotXML.name =
            (d.snapshots.map SnapshotXML.name).filter (· ≠ snap.name) := by
          rw [List.filter_map]
          rfl
        refine wp_mono (fun r s₂ hr => ?_) (ih hhas (by rw [hnames]; exact hsub') hnodup')
        obtain ⟨rfl, hrest₂, gone, hgone, hleft, hall⟩ := hr
        refine ⟨rfl, hrest₂.trans hrest, snap.name :: gone, hgone.cons_cons _, ?_, fun hsure => ?_⟩
        · unfold without at hleft ⊢
          rwa [filter_notMem_cons] at hleft
        · rw [hall (hrest ▸ hsure), List.map_cons]
      · refine wp_mono (fun r s₂ hr => ?_) (ih hhas (fun a ha => hsub a (List.mem_cons_of_mem _ ha)) hnodup')
        obtain ⟨rfl, hrest₂, gone, hgone', hleft, hall⟩ := hr
        refine ⟨rfl, hrest₂.trans hrest, gone, hgone'.cons _, hleft, fun hsure => ?_⟩
        exact absurd (hsub snap List.mem_cons_self) (hgone hsure)

theorem wp_deleteInTurn {snaps : List Snapshot} (h : W.Has s vmID d)
    (hsub : ∀ a ∈ snaps, a.name ∈ d.snapshots.map SnapshotXML.name) (hnodup : (snaps.map Snapshot.name).Nodup) :
    wp W.sem (Scheduler.deleteInTurn vmID snaps) (fun r s' => W.rest s' = W.rest s ∧
      ((r = .ok () ∧ W.Has s' vmID (without d (snaps.map Snapshot.name))) ∨
        (∃ e, r = .error e) ∧ ¬ W.Sure (W.rest s))) s := by
  induction snaps generalizing s d with
  | nil => exact (wp_ret _ _ _).mpr ⟨rfl, .inl ⟨rfl, by simpa [without] using h⟩⟩
  | cons snap snaps ih =>
      obtain ⟨hsub', hnodup'⟩ := names_left hsub hnodup
      rw [Scheduler.deleteInTurn, bind_eq, wp_bind]
      refine wp_mono (fun r s₁ hr => ?_) (wp_deleteSnapshot h snap.name)
      obtain ⟨hrest, ⟨rfl, hhas⟩ | ⟨⟨e, rfl⟩, -, hgone⟩⟩ := hr
      · have hnames : (d.snapshots.filter fun y => y.name ≠ snap.name).map SnapshotXML.name =
            (d.snapshots.map SnapshotXML.name).filter (· ≠ snap.name) := by
          rw [List.filter_map]
          rfl
        refine wp_mono (fun r s₂ hr => ?_) (ih hhas (by rw [hnames]; exact hsub') hnodup')
        obtain ⟨hrest₂, hr⟩ := hr
        rw [hrest] at hr
        refine ⟨hrest₂.trans hrest, hr.imp_left fun ⟨hr, hleft⟩ => ⟨hr, ?_⟩⟩
        unfold without at hleft ⊢
        rwa [filter_notMem_cons] at hleft
      · exact ⟨hrest, .inr ⟨⟨e, rfl⟩, fun hsure => hgone hsure (hsub snap List.mem_cons_self)⟩⟩

/-- A listing tells of each snapshot what could be had of it. -/
def Lists (W : Worldly σ ρ) (q : ρ) (snaps : List SnapshotXML) (listed : List Snapshot) : Prop :=
  (listed.map Snapshot.name).Perm (snaps.map SnapshotXML.name) ∧ ∀ a ∈ listed, ∃ y ∈ snaps, y.name = a.name ∧
    ∃ dom x, W.fits q (.virt (.snapshotXML dom y.name false)) x ∧
      a.createdAt = if x.fail.isSome then none else some y.creationTime

theorem wp_snapshotEntries (h : W.Has s vmID d) (tags : List (String × List String)) {names : List String}
    (hnames : ∀ name ∈ names, name ∈ d.snapshots.map SnapshotXML.name) :
    wp W.sem (Manager.snapshotEntries vmID d.uuid tags names) (fun r s' => W.Same s s' ∧
      ∃ listed, r = .ok listed ∧ listed.map Snapshot.name = names ∧ ∀ a ∈ listed, ∃ y ∈ d.snapshots,
        y.name = a.name ∧ ∃ dom x, W.fits (W.rest s) (.virt (.snapshotXML dom y.name false)) x ∧
          a.createdAt = if x.fail.isSome then none else some y.creationTime) s := by
  induction names generalizing s with
  | nil => exact (wp_ret _ _ _).mpr ⟨⟨⟨rfl, rfl⟩, rfl⟩, [], rfl, rfl, fun a ha => by simp at ha⟩
  | cons name names ih =>
      rw [Manager.snapshotEntries]
      refine (wp_call _ _ _ _).mpr ⟨trivial, ?_⟩
      rintro raw s₁ ⟨x, h₁⟩
      have hsame := same_of_looks (by exact trivial) h₁
      obtain ⟨hfits, hexec, -⟩ := W.exec_eq h₁
      obtain ⟨v, hv, -⟩ := World.exec_virt hexec
      obtain ⟨y, hy, rfl⟩ := List.mem_map.mp (hnames name List.mem_cons_self)
      have hfind : d.snapshots.find? (fun z => z.name = y.name) = some y := by
        obtain ⟨z, hz⟩ : ∃ z, d.snapshots.find? (fun z => z.name = y.name) = some z := by
          rw [← Option.isSome_iff_exists, List.find?_isSome]
          exact ⟨y, hy, by simp⟩
        rw [hz, VirtState.mem_unique h.nodup (List.mem_of_find?_eq_some hz) hy (by simpa using List.find?_some hz)]
      have hraw : (Manager.snapshotEntry vmID tags y.name raw).createdAt =
          if x.fail.isSome then none else some y.creationTime := by
        cases hx : x.fail with
        | some e =>
            simp only [VirtState.exec, fallible, hx, Option.some.injEq, Prod.mk.injEq] at hv
            rw [← hv.1]
            rfl
        | none =>
            simp only [VirtState.exec, fallible, hx, VirtState.onDomain, h.find?, hfind, Option.some.injEq,
              Prod.mk.injEq] at hv
            rw [← hv.1]
            rfl
      show wp _ (Manager.snapshotEntries vmID d.uuid tags names >>= _) _ _
      rw [bind_eq, wp_bind]
      refine wp_mono (fun r s₂ hr => ?_) (ih (h.same hsame) fun n hn => hnames n (List.mem_cons_of_mem _ hn))
      obtain ⟨hsame₂, listed, rfl, hlisted, htold⟩ := hr
      refine (wp_ret _ _ _).mpr ⟨hsame.trans hsame₂, _, rfl, by rw [List.map_cons, hlisted]; rfl, fun a ha => ?_⟩
      rcases List.mem_cons.mp ha with rfl | ha
      · exact ⟨y, hy, rfl, d.uuid, x, hfits, hraw⟩
      · rw [← hsame.rest]
        exact htold a ha

/-- Listing the snapshots that are there, in some order, if it can be done. -/
theorem wp_listSnapshots (h : W.Has s vmID d) : wp W.sem (Manager.listSnapshots vmID) (fun r s' => W.Same s s' ∧
    ((∃ listed, r = .ok listed ∧ W.Lists (W.rest s) d.snapshots listed ∧
        ∃ dom x, W.fits (W.rest s) (.virt (.listSnapshots dom)) x ∧ x.fail = none) ∨
      (∃ e, r = .error e) ∧ (¬ W.Sure (W.rest s) ∨
        ∃ dom x, W.fits (W.rest s) (.virt (.listSnapshots dom)) x ∧ x.fail ≠ none))) s := by
  refine h.wp_withDomain (fun hnot e s' hsame => ⟨hsame, .inr ⟨⟨e, rfl⟩, .inl hnot⟩⟩) fun vm s₁ hsame => ?_
  rw [bind_eq, wp_bind]
  refine (wp_call _ _ _ _).mpr ⟨trivial, ?_⟩
  rintro r s₂ ⟨x, h₂⟩
  have hsame₂ := hsame.trans (same_of_looks (by exact trivial) h₂)
  obtain ⟨hfits, hexec, -⟩ := W.exec_eq h₂
  rw [hsame.rest] at hfits
  obtain ⟨v, hv, -⟩ := World.exec_virt hexec
  cases hx : x.fail with
  | some e =>
      simp only [VirtState.exec, fallible, hx, Option.some.injEq, Prod.mk.injEq] at hv
      obtain ⟨rfl, -⟩ := hv
      exact (wp_throw _ _ _).mpr ⟨hsame₂, .inr ⟨⟨_, rfl⟩, .inr ⟨_, x, hfits, by simp [hx]⟩⟩⟩
  | none =>
      obtain ⟨names, rfl, hperm⟩ : ∃ names, r = .ok names ∧ names.Perm (d.snapshots.map SnapshotXML.name) := by
        simp only [VirtState.exec, fallible, hx, VirtState.onDomain, (h.same hsame).find?, Option.some.injEq,
          Prod.mk.injEq] at hv
        refine ⟨_, hv.1.symm, ?_⟩
        split_ifs with hisPerm
        · exact List.isPerm_iff.mp hisPerm
        · exact .refl _
      refine (wp_ret _ _ _).mpr ((wp_call _ _ _ _).mpr ⟨trivial, ?_⟩)
      rintro tags s₃ ⟨x', h₃⟩
      have hsame₃ := hsame₂.trans (same_of_looks (by exact trivial) h₃)
      refine wp_mono (fun r s₄ hr => ?_)
        (wp_snapshotEntries (h.same hsame₃) _ fun name hname => hperm.mem_iff.mp hname)
      obtain ⟨hsame₄, listed, rfl, hlisted, htold⟩ := hr
      rw [hsame₃.rest] at htold
      exact ⟨hsame₃.trans hsame₄, .inl ⟨listed, rfl, ⟨hlisted ▸ hperm, htold⟩, _, x, hfits, hx⟩⟩

/-- With this snapshot. -/
def withSnapshot (d : Domain) (spec : SnapshotSpec) (second : Nat) (xml : DomainXML) : Domain :=
  { d with snapshots := d.snapshots ++
      [{ name := spec.name, description := spec.description, creationTime := second, definition := xml }] }

/-- Making a snapshot. -/
theorem wp_createSnapshot (hdistinct : (W.world s).virt.Distinct) (spec : SnapshotSpec) :
    wp W.sem (Manager.createSnapshot vmID spec) (fun r s' => (W.world s').virt.Distinct ∧
      ((∃ e, r = .error e) ∨ ∃ snap d xml dom x, r = .ok snap ∧ W.Has s vmID d ∧ d.definition = some xml ∧
        W.fits (W.rest s) (.virt (.createSnapshot dom spec.name spec.description)) x ∧
        W.Has s' vmID (withSnapshot d spec x.nat xml) ∧
        W.rest s' = W.next (W.rest s) (.virt (.createSnapshot dom spec.name spec.description)) (.ok ()))) s := by
  refine wp_withDomain (fun _ e s' hsame => ⟨hsame.world.distinct hdistinct, .inl ⟨e, rfl⟩⟩)
    fun vm d s₁ hd hsame => ?_
  have h : W.Has s vmID d := ⟨hdistinct, hd⟩
  rw [bind_eq, wp_bind]
  refine (wp_call _ _ _ _).mpr ⟨trivial, ?_⟩
  rintro r s₂ ⟨x, h₂⟩
  obtain ⟨hfits, hexec, hrest⟩ := W.exec_eq h₂
  obtain ⟨v, hv, hw⟩ := World.exec_virt hexec
  rw [hsame.rest] at hfits hrest
  rcases VirtState.exec_createSnapshot (h.same hsame).find? hv with ⟨⟨e, rfl⟩, rfl⟩ | ⟨rfl, hfresh, xml, hxml, rfl⟩
  · refine (wp_throw _ _ _).mpr ⟨?_, .inl ⟨_, rfl⟩⟩
    rw [hw]
    exact hsame.world.distinct hdistinct
  · have hhas : W.Has s₂ vmID (withSnapshot d spec x.nat xml) := by
      unfold Has
      rw [hw]
      refine (h.same hsame).set ?_
      rw [List.map_append]
      refine List.nodup_append.mpr ⟨h.nodup, List.nodup_singleton _, fun a ha b hb hab => ?_⟩
      obtain rfl : b = spec.name := List.mem_singleton.mp hb
      exact hfresh (hab ▸ ha)
    refine (wp_ret _ _ _).mpr (wp_looks ?_ fun r s₃ hsame₃ => ?_)
    · refine (only_when (only_wrapped (only_perform (by exact trivial)) _)).bind fun _ => ?_
      exact (only_perform (by exact trivial)).bind fun _ => .ret _
    · have hhas₃ := hhas.same hsame₃
      cases r with
      | error e => exact ⟨hhas₃.1, .inl ⟨e, rfl⟩⟩
      | ok snap =>
          exact ⟨hhas₃.1, .inr ⟨snap, d, xml, _, x, rfl, h, hxml, hfits, hhas₃, hsame₃.rest.trans hrest⟩⟩

end Worldly

end VMSmith
