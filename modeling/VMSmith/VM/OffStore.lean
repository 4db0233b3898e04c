/-
The parts of the manager's operations that leave the store alone.

An operation touches the store where it reads the record and where it writes it;
everything between is one of these parts.  Some of them leave libvirt's domains alone
as well, and most of these every disk there is: they work on the network, on other files
and on the host only.
-/
import VMSmith.Api.Handlers

namespace VMSmith

open Prog (Only)

/-- A command that touches neither the store nor libvirt's domains, and no disk image that is there. -/
def Cmd.Aside : Cmd → Prop
  | .store _ | .virt _ | .file (.convertDisk _ _) | .file (.resizeDisk _ _) => False
  | _ => True

theorem Cmd.Aside.outside {c : Cmd} (h : c.Aside) : c.Outside := by
  cases c with
  | store c | virt c => exact h
  | net c | file c | host c => exact trivial

/-- Everything a part issues is off the store. -/
abbrev OffStore {α : Type} (p : M α) : Prop := Only Cmd.OffStore p

/-- Everything a part issues is off the store and off libvirt's domains. -/
abbrev Outside {α : Type} (p : M α) : Prop := Only Cmd.Outside p

/-- And works on no disk. -/
abbrev Aside {α : Type} (p : M α) : Prop := Only Cmd.Aside p

theorem Outside.offStore {α : Type} {p : M α} (h : Outside p) : OffStore p :=
  Only.mono (fun _ hc => hc.offStore) h

theorem Aside.outside {α : Type} {p : M α} (h : Aside p) : Outside p :=
  Only.mono (fun _ hc => hc.outside) h

theorem Aside.offStore {α : Type} {p : M α} (h : Aside p) : OffStore p := h.outside.offStore

theorem aside_netCall (c : NetCmd) : Aside (netCall c) :=
  Prog.only_perform trivial

theorem aside_fileCall (c : FileCmd) (h : Cmd.Aside (.file c)) : Aside (fileCall c) :=
  Prog.only_perform h

theorem aside_hostCall (c : HostCmd) : Aside (hostCall c) :=
  Prog.only_perform trivial

theorem offStore_virtCall (c : VirtCmd) : OffStore (virtCall c) :=
  Prog.only_perform trivial

theorem offStore_netCall (c : NetCmd) : OffStore (netCall c) :=
  Prog.only_perform trivial

theorem offStore_fileCall (c : FileCmd) : OffStore (fileCall c) :=
  Prog.only_perform trivial

theorem offStore_hostCall (c : HostCmd) : OffStore (hostCall c) :=
  Prog.only_perform trivial

section Handled

variable {P : Cmd → Prop} {α : Type}

/-- A command with its failure handled. -/
theorem only_wrapped {p : M (Except Err α)} (h : Only P p) (context : String) :
    Only P (p >>= orWrap context) := h.bind fun r => only_orWrap context r

theorem only_orFailed {p : M (Except Err α)} (h : Only P p) : Only P (p >>= orFail) :=
  h.bind fun r => only_orFail r

/-- A command whose response is dropped. -/
theorem only_ignore {p : M α} (h : Only P p) : Only P (do let _ ← p) := h.bind fun _ => .ret _

theorem only_when {c : Prop} [Decidable c] {p : M Unit} (h : Only P p) : Only P (onlyIf c p) :=
  only_onlyIf fun _ => h

end Handled

theorem aside_now : Aside now := aside_hostCall _

theorem offStore_lookupDomain (name : String) : OffStore (lookupDomain name) :=
  only_wrapped (offStore_virtCall _) _

theorem offStore_getState (dom : Nat) : OffStore (getState dom) :=
  only_wrapped (offStore_virtCall _) _

theorem offStore_domainStateToVMState (dom : Nat) : OffStore (domainStateToVMState dom) :=
  (offStore_virtCall _).bind fun _ => .ret _

namespace Manager

theorem offStore_shutdownOrDestroy (dom : Nat) (context : String) :
    OffStore (shutdownOrDestroy dom context) := by
  refine (offStore_virtCall _).bind fun r => ?_
  cases r with
  | ok _ => exact .ret _
  | error _ => exact only_wrapped (offStore_virtCall _) _

theorem offStore_restartStop (dom : Nat) : OffStore (restartStop dom) := by
  refine (offStore_virtCall _).bind fun r => ?_
  cases r with
  | ok _ =>
      refine (offStore_virtCall _).bind fun off => ?_
      exact only_when (only_wrapped (offStore_virtCall _) _)
  | error _ => exact only_wrapped (offStore_virtCall _) _

theorem offStore_destroyActive (dom : Nat) : OffStore (destroyActive dom) := by
  refine (offStore_virtCall _).bind fun r => ?_
  cases r with
  | ok _ => exact only_when (only_ignore (offStore_virtCall _))
  | error _ => exact .ret _

theorem offStore_forceUndefineDomain (dom : Nat) : OffStore (forceUndefineDomain dom) := by
  refine (offStore_destroyActive dom).bind fun _ => (offStore_virtCall _).bind fun r => ?_
  cases r with
  | ok _ => exact .ret _
  | error _ => exact offStore_virtCall _

theorem offStore_undefineByName (name : String) : OffStore (undefineByName name) := by
  refine (offStore_virtCall _).bind fun r => ?_
  cases r with
  | ok dom => exact only_ignore (offStore_forceUndefineDomain dom)
  | error _ => exact .ret _

theorem aside_removeReservation (mac natStaticIP : String) :
    Aside (removeReservation mac natStaticIP) := by
  unfold removeReservation
  cases Net.parseCIDR natStaticIP with
  | none => exact .ret _
  | some ip => exact only_ignore (aside_netCall _)

variable (d : Daemon)

theorem offStore_redefineDomain (dom : Nat) (vm : VM) (spec : VMSpec) :
    OffStore (redefineDomain d dom vm spec) := by
  refine (offStore_virtCall _).bind fun _ => (only_orFail _).bind fun _ => ?_
  exact (only_orWrap _ _).bind fun _ => only_ignore (only_wrapped (offStore_virtCall _) _)

theorem offStore_liveAttach (dom : Nat) (addrs : List String) :
    OffStore (liveAttach dom addrs) := by
  induction addrs with
  | nil => exact .ret _
  | cons addr rest ih =>
      rw [liveAttach]
      refine (only_orFail _).bind fun _ => ?_
      exact (only_wrapped (offStore_virtCall _) _).bind fun _ => ih

/-! ### Update -/

theorem offStore_stopForUpdate (dom : Nat) (name : String) :
    OffStore (stopForUpdate dom name) := by
  refine (offStore_shutdownOrDestroy dom _).bind fun _ => (offStore_virtCall _).bind fun _ => ?_
  refine only_when ((offStore_virtCall _).bind fun _ => (offStore_virtCall _).bind fun _ => ?_)
  exact only_failIf _ _

theorem offStore_growDisk (dom : Nat) (vm : VM) (sizeGB : Nat) (wasRunning : Bool) :
    OffStore (growDisk dom vm sizeGB wasRunning) := by
  refine (offStore_fileCall _).bind fun r => ?_
  cases r with
  | ok _ => exact .ret _
  | error _ =>
      exact (only_when (only_ignore (offStore_virtCall _))).bind fun _ => .throw _

theorem aside_addReservation (mac natStaticIP name context : String) :
    Aside (addReservation mac natStaticIP name context) := by
  unfold addReservation
  cases Net.parseCIDR natStaticIP with
  | none => exact .ret _
  | some ip => exact only_wrapped (aside_netCall _) _

theorem aside_changeAddress (vm : VM) (p : UpdatePlan) : Aside (changeAddress vm p) := by
  refine (only_when (aside_removeReservation _ _)).bind fun _ => ?_
  refine (aside_addReservation _ _ _ _).bind fun _ => aside_now.bind fun _ => ?_
  exact only_wrapped (aside_fileCall _ (by trivial)) _

theorem aside_deriveVNCPassword (plain : String) :
    Aside (deriveVNCPassword d plain) := by
  refine (only_failIf _ _).bind fun _ => (only_orFailed (aside_hostCall _)).bind fun _ => ?_
  exact (only_orFailed (aside_hostCall _)).bind fun _ => .ret _

theorem aside_updatedVNC (vm : VM) (p : UpdatePlan) : Aside (updatedVNC d vm p) := by
  unfold updatedVNC
  split_ifs
  · exact .ret _
  · exact aside_deriveVNCPassword d _
  · exact .ret _

theorem offStore_redefineForUpdate (dom : Nat) (vm : VM) (p : UpdatePlan) :
    OffStore (redefineForUpdate d dom vm p) := by
  refine (offStore_virtCall _).bind fun _ => (only_orFail _).bind fun _ => ?_
  exact (only_orWrap _ _).bind fun _ => only_ignore (only_wrapped (offStore_virtCall _) _)

theorem offStore_restartAfterUpdate (vm : VM) : OffStore (restartAfterUpdate vm) :=
  (only_wrapped (offStore_virtCall _) _).bind fun _ => only_wrapped (offStore_virtCall _) _

/-! ### MoveDisk -/

theorem aside_resolveRealPath (loc : DiskLocation) : Aside (resolveRealPath d loc) := by
  refine (aside_fileCall _ (by trivial)).bind fun r => ?_
  cases r with
  | error _ => exact .throw _
  | ok real =>
      simp only
      split_ifs
      · exact .ret _
      · cases d.cfg.storage.resolveDiskLocation real.toText with
        | error _ => exact .throw _
        | ok _ => exact .ret _

theorem aside_resolveDiskLocation (name : String) : Aside (resolveDiskLocation d name) := by
  unfold resolveDiskLocation
  cases d.cfg.storage.resolveDiskLocation name with
  | error _ => exact .throw _
  | ok loc =>
      refine (aside_fileCall _ (by trivial)).bind fun _ => (only_failIf _ _).bind fun _ => ?_
      split_ifs
      · exact aside_resolveRealPath d loc
      · exact .ret _

theorem offStore_rewriteSnapshots (dom : Nat) (oldDir newDir : HostPath) (names : List String)
    (n : Nat) : OffStore (rewriteSnapshots dom oldDir newDir names n) := by
  induction names generalizing n with
  | nil => exact .ret _
  | cons name names ih =>
      rw [rewriteSnapshots]
      refine (only_wrapped (offStore_virtCall _) _).bind fun raw => ?_
      simp only
      split_ifs
      · exact ih n
      · exact (only_wrapped (offStore_virtCall _) _).bind fun _ => ih (n + 1)

theorem offStore_rewriteSnapshotsDiskDir (dom : Nat) (oldDir newDir : HostPath) :
    OffStore (rewriteSnapshotsDiskDir dom oldDir newDir) :=
  (only_wrapped (offStore_virtCall _) _).bind fun _ => offStore_rewriteSnapshots _ _ _ _ _

theorem aside_rollbackRelocation (source destination : HostPath) (renamed : Bool) :
    Aside (rollbackRelocation source destination renamed) :=
  only_ignore (aside_fileCall _ (by trivial))

theorem offStore_restoreDomain (dom : Nat) (vm : VM) : OffStore (restoreDomain d dom vm) :=
  only_ignore (offStore_redefineDomain d dom vm vm.spec).attempt

theorem aside_checkRoom (source : HostPath) (loc : DiskLocation) :
    Aside (checkRoom source loc) := by
  refine (only_wrapped (aside_fileCall _ (by trivial)) _).bind fun _ => ?_
  exact (only_wrapped (aside_fileCall _ (by trivial)) _).bind fun _ => only_failIf _ _

/-! ### Create and Clone -/

theorem aside_findAvailableIP : Aside (findAvailableIP d) := by
  refine (only_wrapped (aside_netCall _) _).bind fun _ => ?_
  refine (aside_netCall _).bind fun leases => (aside_netCall _).bind fun hosts => ?_
  simp only
  split
  · split
    · exact .ret _
    · exact .throw _
  · exact .throw _

theorem aside_deleteHosts (hosts : List DHCPHost) : Aside (deleteHosts hosts) := by
  induction hosts with
  | nil => exact .ret _
  | cons host hosts ih =>
      rw [deleteHosts]
      exact (aside_netCall _).bind fun _ => ih

theorem aside_removeDHCPHostByName (name : String) : Aside (removeDHCPHostByName name) := by
  refine (aside_netCall _).bind fun r => ?_
  cases r with
  | ok hosts => exact aside_deleteHosts _
  | error _ => exact .ret _

theorem aside_reserveAddress (name mac : String) : Aside (reserveAddress d name mac) := by
  refine (aside_findAvailableIP d).attempt.bind fun r => ?_
  cases r with
  | ok ip =>
      refine (aside_removeDHCPHostByName name).bind fun _ => (aside_netCall _).bind fun r => ?_
      cases r with
      | ok _ => exact .ret _
      | error _ => exact .ret _
  | error _ => exact (aside_hostCall _).bind fun _ => .ret _

theorem aside_attachmentMAC (net : NetworkAttachment) : Aside (attachmentMAC net) := by
  unfold attachmentMAC
  split_ifs
  · exact aside_hostCall _
  · exact .ret _

theorem aside_assignMACs (nets : List NetworkAttachment) : Aside (assignMACs nets) := by
  induction nets with
  | nil => exact .ret _
  | cons net nets ih =>
      rw [assignMACs]
      exact (aside_attachmentMAC _).bind fun _ => ih.bind fun _ => .ret _

theorem aside_generatedPassword (spec : VMSpec) : Aside (generatedPassword spec) := by
  unfold generatedPassword
  split_ifs
  · exact only_wrapped (aside_hostCall _) _
  · exact .ret _

theorem aside_createDisk (spec : VMSpec) (diskPath : HostPath) :
    Aside (createDisk d spec diskPath) := by
  unfold createDisk
  split_ifs
  · exact only_wrapped (aside_fileCall _ (by trivial)) _
  · exact only_wrapped (aside_fileCall _ (by trivial)) _

theorem aside_newVNC (plain : String) : Aside (newVNC d plain) := by
  unfold newVNC
  split_ifs
  · exact .ret _
  · exact aside_deriveVNCPassword d _

theorem aside_cleanupCreate (natMAC natStaticIP : String) (vmDir : HostPath) :
    Aside (cleanupCreate natMAC natStaticIP vmDir) :=
  (only_when (aside_removeReservation _ _)).bind fun _ => only_ignore (aside_fileCall _ (by trivial))

theorem aside_prepareCreate (spec : VMSpec) : Aside (prepareCreate d spec) := by
  refine (only_wrapped (aside_netCall _) _).bind fun _ => ?_
  refine (aside_generatedPassword _).bind fun _ => (only_orFail _).bind fun _ => ?_
  refine (aside_resolveDiskLocation d _).bind fun _ => (only_failIf _ _).bind fun _ => ?_
  exact (only_orFail _).bind fun _ => (aside_assignMACs _).bind fun _ => .ret _

theorem aside_chooseAddress (spec : VMSpec) (natMAC : String) :
    Aside (chooseAddress d spec natMAC) := by
  unfold chooseAddress
  split_ifs
  · exact (aside_reserveAddress d _ _).bind fun _ => .ret _
  · exact .ret _

theorem aside_cloneNetworks (nets : List NetworkAttachment) : Aside (cloneNetworks nets) := by
  induction nets with
  | nil => exact .ret _
  | cons net nets ih =>
      rw [cloneNetworks]
      exact (aside_hostCall _).bind fun _ => ih.bind fun _ => .ret _

theorem aside_cloneVMSpec (source : VMSpec) (newName : String) :
    Aside (cloneVMSpec source newName) := (aside_cloneNetworks _).bind fun _ => .ret _

theorem aside_cloneLocation (location : String) : Aside (cloneLocation d location) := by
  refine (aside_resolveDiskLocation d location).attempt.bind fun r => ?_
  cases r with
  | ok _ => exact .ret _
  | error _ => exact .ret _

theorem aside_cloneAddress (spec : VMSpec) (natMAC : String) :
    Aside (cloneAddress d spec natMAC) := by
  unfold cloneAddress
  split_ifs
  · exact aside_reserveAddress d _ _
  · exact .ret _

theorem aside_cleanupClone (natMAC : String) (reserved : Option String) (vmDir : HostPath) :
    Aside (cleanupClone natMAC reserved vmDir) := by
  refine Only.bind ?_ fun _ => only_ignore (aside_fileCall _ (by trivial))
  cases reserved with
  | some ip => exact only_ignore (aside_netCall _)
  | none => exact .ret _

theorem outside_copyDisk (source diskPath : HostPath) : Outside (copyDisk source diskPath) := by
  refine (Prog.only_perform (by exact trivial)).bind fun r => ?_
  cases r with
  | ok _ => exact .ret _
  | error _ => exact (aside_fileCall _ (by trivial)).outside.bind fun _ => .throw _

theorem offStore_refresh (vm : VM) : OffStore (refresh vm) := by
  refine (offStore_virtCall _).bind fun r => ?_
  cases r with
  | ok dom =>
      refine (offStore_domainStateToVMState dom).bind fun _ => ?_
      exact (offStore_virtCall _).bind fun _ => .ret _
  | error _ => exact .ret _

end Manager

theorem Api.aside_publishAppEvent (type vmID message : String)
    (attributes : List (String × String)) :
    Aside (Api.publishAppEvent type vmID message attributes) :=
  aside_now.bind fun _ => aside_hostCall _

end VMSmith
