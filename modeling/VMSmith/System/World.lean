/-
The world the daemon acts on, and the programs that act on it.

A command belongs to one part of the world and changes that part only.
-/
import VMSmith.System.Host
import VMSmith.Lib.Prog

namespace VMSmith

inductive Cmd where
  | store (c : StoreCmd)
  | virt (c : VirtCmd)
  | net (c : NetCmd)
  | file (c : FileCmd)
  | host (c : HostCmd)
  deriving DecidableEq, Repr

@[reducible] def Cmd.Resp : Cmd → Type
  | .store c => c.Resp
  | .virt c => c.Resp
  | .net c => c.Resp
  | .file c => c.Resp
  | .host c => c.Resp

structure World where
  store : StoreState := {}
  virt : VirtState := {}
  net : NetState := {}
  file : FileState := {}
  host : HostState := {}
  deriving DecidableEq

namespace World

/-- One command, as the world chooses to answer it. -/
def exec : (c : Cmd) → Choice → World → Option (c.Resp × World)
  | .store c, x, w => (w.store.exec x c).map fun (r, s) => (r, { w with store := s })
  | .virt c, x, w => (w.virt.exec x c).map fun (r, s) => (r, { w with virt := s })
  | .net c, x, w => (w.net.exec x c).map fun (r, s) => (r, { w with net := s })
  | .file c, x, w => (w.file.exec x c).map fun (r, s) => (r, { w with file := s })
  | .host c, x, w => (w.host.exec x c).map fun (r, s) => (r, { w with host := s })

variable {w w' : World} {x : Choice}

/-- A store command is a transaction of the store and leaves the rest alone. -/
theorem exec_store {c : StoreCmd} {r : c.Resp} (h : exec (.store c) x w = some (r, w')) :
    ∃ s, w.store.exec x c = some (r, s) ∧ w' = { w with store := s } := by
  obtain ⟨⟨r', s⟩, hs, heq⟩ := Option.map_eq_some_iff.mp h
  simp only [Prod.mk.injEq] at heq
  obtain ⟨rfl, rfl⟩ := heq
  exact ⟨s, hs, rfl⟩

/-- A libvirt command acts on libvirt and leaves the rest alone. -/
theorem exec_virt {c : VirtCmd} {r : c.Resp} (h : exec (.virt c) x w = some (r, w')) :
    ∃ v, w.virt.exec x c = some (r, v) ∧ w' = { w with virt := v } := by
  obtain ⟨⟨r', v⟩, hv, heq⟩ := Option.map_eq_some_iff.mp h
  simp only [Prod.mk.injEq] at heq
  obtain ⟨rfl, rfl⟩ := heq
  exact ⟨v, hv, rfl⟩

/-- A file command acts on files and leaves the rest alone. -/
theorem exec_file {c : FileCmd} {r : c.Resp} (h : exec (.file c) x w = some (r, w')) :
    ∃ f, w.file.exec x c = some (r, f) ∧ w' = { w with file := f } := by
  obtain ⟨⟨r', f⟩, hf, heq⟩ := Option.map_eq_some_iff.mp h
  simp only [Prod.mk.injEq] at heq
  obtain ⟨rfl, rfl⟩ := heq
  exact ⟨f, hf, rfl⟩

/-- Commands answered by the world, each as it chooses. -/
abbrev sem : Prog.Sem Cmd Cmd.Resp World := Prog.Sem.ofExec exec

end World

/-! ### A world with one VM -/

/-- A stopped VM named `web`. -/
def webVM : VM where
  id := "vm-1"
  name := "web"
  spec := { name := "web", image := "rocky9", cpus := 2, ramMB := 2048, diskGB := 20 }
  state := .stopped
  natMAC := "52:54:00:00:00:01"
  diskPath := ["var", "lib", "vmsmith", "vms", "vm-1", "disk.qcow2"]

/-- The domain a VM has under the plain daemon. -/
def domainOf (uuid : Nat) (vm : VM) (state : DomainState) : Domain where
  uuid := uuid
  name := vm.name
  definition := (DomainParams.generateDomainXML
    (DomainParams.render .plain vm.spec vm.diskPath vm.natMAC)).toOption
  state := state

/-- One stored VM, with its domain and its files. -/
def World.single (vm : VM) (state : DomainState) : World where
  store := { vms := Bucket.empty.put vm.id vm }
  virt := { domains := [domainOf 1 vm state], nextUUID := 2 }
  file := { files := [(vm.diskPath.dir, 0), (vm.diskPath, vm.spec.diskGB)] }

theorem World.single_keyed (vm : VM) (state : DomainState) :
    (World.single vm state).store.Keyed := by
  intro id v hv
  rcases Bucket.mem_put hv with ⟨rfl, rfl⟩ | ⟨-, hold⟩
  · rfl
  · simp at hold

/-- A program of the daemon. -/
abbrev M (α : Type) := Prog Cmd Cmd.Resp Err α

/-- A command whose failure is the program's. -/
def orFail {α : Type} (r : Except Err α) : M α := Prog.ofExcept r

/-- A command whose failure is the program's, with context. -/
def orWrap {α : Type} (context : String) (r : Except Err α) : M α :=
  Prog.ofExcept (r.mapError (.wrap context))

/-- Fail on a condition. -/
def failIf (c : Prop) [Decidable c] (e : Err) : M Unit := if c then .throw e else .ret ()

/-- Do something only under a condition. -/
def onlyIf (c : Prop) [Decidable c] (p : M Unit) : M Unit := if c then p else .ret ()

def storeCall (c : StoreCmd) : M c.Resp := Prog.perform (Cmd.store c)

def virtCall (c : VirtCmd) : M c.Resp := Prog.perform (Cmd.virt c)

def netCall (c : NetCmd) : M c.Resp := Prog.perform (Cmd.net c)

def fileCall (c : FileCmd) : M c.Resp := Prog.perform (Cmd.file c)

def hostCall (c : HostCmd) : M c.Resp := Prog.perform (Cmd.host c)

/-- A command that does not touch the store. -/
def Cmd.OffStore : Cmd → Prop
  | .store _ => False
  | _ => True

/-- A command that touches neither the store nor libvirt's domains. -/
def Cmd.Outside : Cmd → Prop
  | .store _ => False
  | .virt _ => False
  | _ => True

theorem Cmd.Outside.offStore {c : Cmd} (h : c.Outside) : c.OffStore := by
  cases c with
  | store c => exact h
  | virt c | net c | file c | host c => exact trivial

theorem World.exec_outside {c : Cmd} (hc : c.Outside) {x : Choice} {w w' : World} {r : c.Resp}
    (h : World.exec c x w = some (r, w')) : w'.store = w.store ∧ w'.virt = w.virt := by
  cases c with
  | store c | virt c => exact hc.elim
  | net c | file c | host c =>
      obtain ⟨p, -, heq⟩ := Option.map_eq_some_iff.mp h
      rw [Prod.mk.injEq] at heq
      rw [← heq.2]
      exact ⟨rfl, rfl⟩

theorem World.exec_offStore {c : Cmd} (hc : c.OffStore) {x : Choice} {w w' : World} {r : c.Resp}
    (h : World.exec c x w = some (r, w')) : w'.store = w.store := by
  cases c with
  | store c => exact hc.elim
  | virt c | net c | file c | host c =>
      obtain ⟨p, -, heq⟩ := Option.map_eq_some_iff.mp h
      rw [Prod.mk.injEq] at heq
      rw [← heq.2]

section Rules

variable {α : Type} {σ : Type} {S : Prog.Sem Cmd Cmd.Resp σ} {P : Cmd → Prop}

@[simp] theorem wp_orFail (r : Except Err α) (Q : Except Err α → σ → Prop) (s : σ) :
    Prog.wp S (orFail r) Q s ↔ Q r s := Prog.wp_ofExcept r Q s

@[simp] theorem wp_orWrap (context : String) (r : Except Err α) (Q : Except Err α → σ → Prop)
    (s : σ) : Prog.wp S (orWrap context r) Q s ↔ Q (r.mapError (.wrap context)) s :=
  Prog.wp_ofExcept _ Q s

@[simp] theorem wp_failIf (c : Prop) [Decidable c] (e : Err) (Q : Except Err Unit → σ → Prop)
    (s : σ) :
    Prog.wp S (failIf c e) Q s ↔ (c → Q (.error e) s) ∧ (¬ c → Q (.ok ()) s) := by
  unfold failIf
  by_cases h : c
  · simp [h]
  · simp [h]

@[simp] theorem wp_onlyIf (c : Prop) [Decidable c] (p : M Unit) (Q : Except Err Unit → σ → Prop)
    (s : σ) :
    Prog.wp S (onlyIf c p) Q s ↔ (c → Prog.wp S p Q s) ∧ (¬ c → Q (.ok ()) s) := by
  unfold onlyIf
  by_cases h : c
  · simp [h]
  · simp [h]

theorem only_orFail (r : Except Err α) : Prog.Only P (orFail r) := Prog.only_ofExcept P r

theorem only_orWrap (context : String) (r : Except Err α) : Prog.Only P (orWrap context r) :=
  Prog.only_ofExcept P _

theorem only_failIf (c : Prop) [Decidable c] (e : Err) : Prog.Only P (failIf c e) := by
  unfold failIf
  split_ifs
  · exact .throw e
  · exact .ret ()

theorem only_onlyIf {c : Prop} [Decidable c] {p : M Unit} (h : c → Prog.Only P p) :
    Prog.Only P (onlyIf c p) := by
  unfold onlyIf
  split_ifs with hc
  · exact h hc
  · exact .ret ()

end Rules

end VMSmith
