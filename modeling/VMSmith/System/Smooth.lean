/-
The world in which every command succeeds.

Nothing fails on the world's decision, and a command that its own state refuses is not
answered at all.  Two commands are held to less: a reservation that is not there need not
be deleted, and a guest may stay up for as long as its domain is there to be asked.
-/
import VMSmith.System.Failing

namespace VMSmith

def StoreCmd.succeeded : (c : StoreCmd) → c.Resp → Bool
  | .getVM _, r => r.isOk
  | .listVMs, r => r.isOk
  | .putVM _, r => r.isOk
  | .deleteVM _, r => r.isOk
  | .putSnapshotTags _ _ _, r => r.isOk
  | .getSnapshotTags _ _, r => r.isOk
  | .listSnapshotTags _, r => r.isOk
  | .deleteSnapshotTags _ _, r => r.isOk
  | .listPortForwards, r => r.isOk
  | .putPortForward _, r => r.isOk
  | .deletePortForward _, r => r.isOk

/-- A command to libvirt, of which `s` is what it has left. -/
def VirtCmd.succeeded (s : VirtState) : (c : VirtCmd) → c.Resp → Bool
  | .lookupDomainByName _, r => r.isOk
  | .getState _, r => r.isOk
  | .create _, r => r.isOk
  | .shutdown _, r => r.isOk
  | .destroy _, r => r.isOk
  | .reboot _, r => r.isOk
  | .suspend _, r => r.isOk
  | .resume _, r => r.isOk
  | .undefineFlags _, r => r.isOk
  | .undefine _, r => r.isOk
  | .waitForShutoff dom, off => off || (s.find? dom).isSome
  | .getUUIDString _, r => r.isSome
  | .domainDefineXML _, r => r.isOk
  | .attachDevice _ _, r => r.isOk
  | .getDomainIP _, _ => true
  | .createSnapshot _ _ _, r => r.isOk
  | .snapshotLookup _ _, r => r.isOk
  | .snapshotXML _ _ _, r => r.isOk
  | .redefineSnapshot _ _, r => r.isOk
  | .listSnapshots _, r => r.isOk
  | .revertToSnapshot _ _, r => r.isOk
  | .deleteSnapshot _ _, r => r.isOk

def NetCmd.succeeded : (c : NetCmd) → c.Resp → Bool
  | .ensureNetwork, r => r.isOk
  | .lookupNetworkByName, r => r.isOk
  | .getDHCPLeases, r => r.isOk
  | .networkHosts, r => r.isOk
  | .addDHCPHost _, r => r.isOk
  | .deleteDHCPHost _, _ => true
  | .iptables _ _, r => r.isOk

def FileCmd.succeeded : (c : FileCmd) → c.Resp → Bool
  | .statDir _, _ => true
  | .lstat _, _ => true
  | .sameFilesystem _ _, _ => true
  | .mkdirTemp _, r => r.isOk
  | .evalSymlinks _, r => r.isOk
  | .mkdirAll _, r => r.isOk
  | .removeAll _, r => r.isOk
  | .createBlankDisk _ _, r => r.isOk
  | .createOverlayDisk _ _ _, r => r.isOk
  | .convertDisk _ _, r => r.isOk
  | .resizeDisk _ _, r => r.isOk
  | .createProvisioningISO _ _ _ _, r => r.isOk
  | .bundleOVA _ _, r => r.isOk
  | .dirAllocatedBytes _, r => r.isOk
  | .freeBytes _, r => r.isOk
  | .relocate _ _, r => r.isOk
  | .commitRelocation _ _, r => r.isOk
  | .rollbackRelocation _ _ _, r => r.isOk

def HostCmd.succeeded : (c : HostCmd) → c.Resp → Bool
  | .generateAdminPassword, r => r.isOk
  | .hashVNCPassword _, r => r.isOk
  | .nonce, r => r.isOk
  | .enforceCreateQuotas _, r => r.isOk
  | .now, _ => true
  | .generateMAC, _ => true
  | .acquireCreateSlot, _ => true
  | .waitPingable _, _ => true
  | .publish _, _ => true

/-- The command has done what it was asked. -/
def Cmd.succeeded (w : World) : (c : Cmd) → c.Resp → Bool
  | .store c, r => c.succeeded r
  | .virt c, r => c.succeeded w.virt r
  | .net c, r => c.succeeded r
  | .file c, r => c.succeeded r
  | .host c, r => c.succeeded r

namespace World

/-- One command that succeeds. -/
def execSmooth (c : Cmd) (x : Choice) (w : World) : Option (c.Resp × World) :=
  (execUnder calm c x w).filter fun p => c.succeeded p.2 p.1

/-- Commands answered by the world, each with success. -/
abbrev smooth : Prog.Sem Cmd Cmd.Resp World := Prog.Sem.ofExec execSmooth

theorem execSmooth_eq {c : Cmd} {x : Choice} {w w' : World} {r : c.Resp} :
    execSmooth c x w = some (r, w') ↔
      x.fail = none ∧ exec c x w = some (r, w') ∧ c.succeeded w' r = true := by
  unfold execSmooth
  rw [Option.filter_eq_some_iff, execUnder_eq]
  exact and_assoc

theorem wp_smooth {c : Cmd} {w : World} {Q : Except Err c.Resp → World → Prop}
    (h : ∀ x r w', x.fail = none → exec c x w = some (r, w') → c.succeeded w' r = true → Q (.ok r) w') :
    Prog.wp smooth (Prog.perform c) Q w := by
  rw [Prog.wp_perform]
  refine ⟨trivial, fun r w' ⟨x, hx⟩ => ?_⟩
  obtain ⟨hx, hexec, hok⟩ := execSmooth_eq.mp hx
  exact h x r w' hx hexec hok

end World

/-- A fallible command that succeeds does what it does. -/
theorem fallible_isOk {σ α : Type} {x : Choice} {s s' : σ} {act : Except Err (α × σ)} {r : Except Err α}
    (h : fallible x s act = some (r, s')) (hok : r.isOk = true) : ∃ a, act = .ok (a, s') ∧ r = .ok a := by
  rcases fallible_eq h with ⟨e, rfl, -⟩ | ⟨a, -, hact, hr⟩
  · exact absurd hok (by simp [Except.isOk, Except.toBool])
  · exact ⟨a, hact, hr⟩

end VMSmith
