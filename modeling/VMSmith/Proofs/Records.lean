/-
Records under concurrent operations.

Two things can go wrong when an operation writes back a record it read a while ago:
a record that was deleted meanwhile is stored again, and a field that was changed
meanwhile is set back.  `Fresh` is the condition on a write that excludes both: the
record is still stored, and it still holds what the operation read in every field
the operation does not set itself.

Every run whose writes are fresh keeps deleted records deleted and written fields
written.  The proof needs two facts about each operation alone, that it writes back
what it read but for the fields it sets, and that it deletes the record before it
says so.
-/
import VMSmith.VM.RecordOps

namespace VMSmith

open Prog (wp Only)

/-! ### The operations one by one -/

namespace RecordOp

/-- The store commands an operation may issue after what it was answered. -/
def ok (op : RecordOp) (log : CmdLog) : Cmd → Prop
  | .store (.getVM id) => id = op.target
  | .store (.putVM vm) => ∃ read, lastRead log = some read ∧ op.Keeps read vm
  | .store (.deleteVM id) => id = op.target
  | .store _ => False
  | _ => True

/-- A deletion that succeeds has deleted the record. -/
def post (op : RecordOp) (res : Except Err Unit) (log : CmdLog) : Prop :=
  ∀ id, op = .delete id → res = .ok () → deleted log = true

end RecordOp

theorem lastRead_offStore {c : Cmd} (hc : c.OffStore) (r : c.Resp) (log : CmdLog) :
    lastRead (⟨c, r⟩ :: log) = lastRead log := by
  cases c with
  | store c => exact hc.elim
  | virt c | net c | file c | host c => rfl

section Rules

variable {op : RecordOp} {α β : Type} {log : CmdLog} {read : VM} {Q : Except Err β → CmdLog → Prop}

abbrev aloneSem (op : RecordOp) : Prog.Sem Cmd Cmd.Resp CmdLog := Prog.Sem.alone op.ok

/-- A part that leaves the store alone does not change what was read last. -/
theorem wp_offStore {p : M α} (hp : OffStore p) (h : lastRead log = some read)
    {Q : Except Err α → CmdLog → Prop} (hQ : ∀ r log', lastRead log' = some read → Q r log') :
    wp (aloneSem op) p Q log := by
  refine Prog.wp_of_only (fun log => lastRead log = some read) ?_ ?_ hp h hQ
  · intro s c _ hc
    cases c with
    | store c => exact hc.elim
    | virt c | net c | file c | host c => exact trivial
  · rintro s c r _ hs hc rfl
    rw [lastRead_offStore hc, hs]

theorem wp_offStore_bind {p : M α} (hp : OffStore p) (h : lastRead log = some read)
    (herr : ∀ e log, Q (.error e) log) {f : α → M β}
    (hf : ∀ a log', lastRead log' = some read → wp (aloneSem op) (f a) Q log') :
    wp (aloneSem op) (p >>= f) Q log := by
  rw [Prog.bind_eq, Prog.wp_bind]
  refine wp_offStore hp h fun r log' h' => ?_
  cases r with
  | ok a => exact hf a log' h'
  | error e => exact herr e log'

/-- Reading the record, whatever is made of a failure. -/
theorem wp_read_bind {f : Except Err VM → M β} (herr : ∀ e log', wp (aloneSem op) (f (.error e)) Q log')
    (hf : ∀ vm log', lastRead log' = some vm → wp (aloneSem op) (f (.ok vm)) Q log') :
    wp (aloneSem op) (storeCall (.getVM op.target) >>= f) Q log := by
  refine Prog.wp_alone_perform.mpr ⟨rfl, fun r => ?_⟩
  cases r with
  | ok vm => exact hf vm _ rfl
  | error e => exact herr e _

/-- Reading the record. -/
theorem wp_getVM_bind (herr : ∀ e log, Q (.error e) log) {f : VM → M β}
    (hf : ∀ vm log', lastRead log' = some vm → wp (aloneSem op) (f vm) Q log') :
    wp (aloneSem op) (getVM op.target >>= f) Q log := by
  rw [Prog.bind_eq, Prog.wp_bind]
  refine wp_read_bind (fun e log' => ?_) fun vm log' h => ?_
  · exact (wp_orFail _ _ _).mpr (herr e log')
  · exact (wp_orFail _ _ _).mpr (hf vm log' h)

/-- Writing it back. -/
theorem wp_putVM_bind {vm : VM} (h : lastRead log = some read) (hk : op.Keeps read vm)
    {f : Except Err Unit → M β}
    (hf : ∀ r log', lastRead log' = some read → wp (aloneSem op) (f r) Q log') :
    wp (aloneSem op) (storeCall (.putVM vm) >>= f) Q log := by
  refine Prog.wp_alone_perform.mpr ⟨⟨read, h, hk⟩, fun r => hf r _ ?_⟩
  cases r with
  | ok _ => exact h
  | error _ => exact h

end Rules

/-- Nothing the operation issues is out of order. -/
abbrev InOrder (op : RecordOp) {α : Type} (p : M α) (log : CmdLog) : Prop :=
  wp (aloneSem op) p (fun _ _ => True) log

section InOrder

variable {op : RecordOp} {α β : Type} {log : CmdLog} {read : VM}

theorem inOrder_ret (a : α) : InOrder op (.ret a : M α) log := (Prog.wp_ret _ _ _).mpr trivial

theorem inOrder_throw (e : Err) : InOrder op (.throw e : M α) log :=
  (Prog.wp_throw _ _ _).mpr trivial

theorem inOrder_failIf {c : Prop} [Decidable c] {e : Err} {f : Unit → M β}
    (hf : InOrder op (f ()) log) : InOrder op (failIf c e >>= f) log := by
  rw [Prog.bind_eq, InOrder, Prog.wp_bind, wp_failIf]
  exact ⟨fun _ => trivial, fun _ => hf⟩

theorem inOrder_offStore {p : M α} (hp : OffStore p) (h : lastRead log = some read) :
    InOrder op p log := wp_offStore hp h fun _ _ _ => trivial

theorem inOrder_bind {p : M α} (hp : OffStore p) (h : lastRead log = some read) {f : α → M β}
    (hf : ∀ a log', lastRead log' = some read → InOrder op (f a) log') :
    InOrder op (p >>= f) log := wp_offStore_bind hp h (fun _ _ => trivial) hf

theorem inOrder_orFail {r : Except Err α} {f : α → M β}
    (hf : ∀ a, r = .ok a → InOrder op (f a) log) : InOrder op (orFail r >>= f) log := by
  rw [Prog.bind_eq, InOrder, Prog.wp_bind, wp_orFail]
  cases r with
  | ok a => exact hf a rfl
  | error _ => exact trivial

theorem inOrder_getVM {f : VM → M β}
    (hf : ∀ vm log', lastRead log' = some vm → InOrder op (f vm) log') :
    InOrder op (getVM op.target >>= f) log := wp_getVM_bind (fun _ _ => trivial) hf

theorem inOrder_forget {p : M α} (hp : InOrder op p log) : InOrder op (RecordOp.forget p) log := by
  refine Prog.wp_bind.mpr (Prog.wp_mono (fun r _ _ => ?_) hp)
  cases r with
  | ok _ => exact (Prog.wp_ret _ _ _).mpr trivial
  | error _ => exact trivial

/-- A write at the end of the operation. -/
theorem inOrder_putVM {vm : VM} (h : lastRead log = some read) (hk : op.Keeps read vm)
    {f : Except Err Unit → M β} (hf : ∀ r, OffStore (f r)) :
    InOrder op (storeCall (.putVM vm) >>= f) log :=
  wp_putVM_bind h hk fun r _ h' => inOrder_offStore (hf r) h'

theorem inOrder_putVM_orWrap {vm : VM} {context : String} (h : lastRead log = some read)
    (hk : op.Keeps read vm) {f : Unit → M β} (hf : OffStore (f ())) :
    InOrder op (storeCall (.putVM vm) >>= orWrap context >>= f) log := by
  rw [Prog.bind_eq, InOrder, Prog.wp_bind]
  refine wp_putVM_bind h hk fun r log' h' => ?_
  rw [wp_orWrap]
  cases r with
  | ok _ => exact inOrder_offStore hf h'
  | error _ => exact trivial

theorem inOrder_putState {state : VMState} (h : lastRead log = some read)
    (hk : ∀ at_, op.Keeps read { read with state := state, updatedAt := at_ }) :
    InOrder op (Manager.putState read state) log :=
  inOrder_bind aside_now.offStore h fun at_ _ h' => inOrder_putVM h' (hk at_) fun r => only_orFail r

end InOrder

namespace RecordOp

/-- An operation that sets the state writes everything else back. -/
theorem keeps_state {op : RecordOp} (hop : op.sets .state = true) (read : VM) (state : VMState)
    (at_ : Nat) : op.Keeps read { read with state := state, updatedAt := at_ } := by
  refine ⟨rfl, fun f hf => ?_⟩
  cases f with
  | state => rw [hop] at hf; exact absurd hf (by decide)
  | _ => rfl

theorem start_inOrder (id : String) : InOrder (.start id) (Manager.start id) [] := by
  refine inOrder_getVM fun vm _ h => inOrder_bind (offStore_lookupDomain _) h fun dom _ h => ?_
  refine inOrder_bind (only_wrapped (offStore_virtCall _) _) h fun _ _ h => ?_
  exact inOrder_putState h (keeps_state rfl vm _)

theorem stop_inOrder (id : String) : InOrder (.stop id) (Manager.stop id) [] := by
  refine inOrder_getVM fun vm _ h => inOrder_bind (offStore_lookupDomain _) h fun dom _ h => ?_
  refine inOrder_bind (Manager.offStore_shutdownOrDestroy dom _) h fun _ _ h => ?_
  exact inOrder_putState h (keeps_state rfl vm _)

theorem forceStop_inOrder (id : String) : InOrder (.forceStop id) (Manager.forceStop id) [] := by
  refine inOrder_getVM fun vm _ h => inOrder_bind (offStore_lookupDomain _) h fun dom _ h => ?_
  refine inOrder_bind (offStore_getState dom) h fun state _ h => ?_
  refine inOrder_bind (only_failIf _ _) h fun _ _ h => ?_
  refine inOrder_bind (only_wrapped (offStore_virtCall _) _) h fun _ _ h => ?_
  exact inOrder_putState h (keeps_state rfl vm _)

theorem restart_inOrder (id : String) : InOrder (.restart id) (Manager.restart id) [] := by
  refine inOrder_getVM fun vm _ h => inOrder_bind (offStore_lookupDomain _) h fun dom _ h => ?_
  refine inOrder_bind (offStore_getState dom) h fun state _ h => ?_
  refine inOrder_bind (only_when (Manager.offStore_restartStop dom)) h fun _ _ h => ?_
  refine inOrder_bind (only_wrapped (offStore_virtCall _) _) h fun _ _ h => ?_
  exact inOrder_putState h (keeps_state rfl vm _)

theorem reboot_inOrder (id : String) : InOrder (.reboot id) (Manager.reboot id) [] := by
  refine inOrder_getVM fun vm _ h => inOrder_bind (offStore_lookupDomain _) h fun dom _ h => ?_
  refine inOrder_bind (offStore_getState dom) h fun state _ h => ?_
  refine inOrder_bind (only_failIf _ _) h fun _ _ h => ?_
  refine inOrder_bind (only_wrapped (offStore_virtCall _) _) h fun _ _ h => ?_
  exact inOrder_putState h fun at_ => ⟨rfl, fun f _ => by cases f <;> rfl⟩

theorem suspend_inOrder (id : String) : InOrder (.suspend id) (Manager.suspend id) [] := by
  refine inOrder_getVM fun vm _ h => inOrder_bind (offStore_lookupDomain _) h fun dom _ h => ?_
  refine inOrder_bind (offStore_getState dom) h fun state _ h => ?_
  refine inOrder_bind (only_failIf _ _) h fun _ _ h => ?_
  refine inOrder_bind (only_failIf _ _) h fun _ _ h => ?_
  refine inOrder_bind (only_wrapped (offStore_virtCall _) _) h fun _ _ h => ?_
  exact inOrder_putState h (keeps_state rfl vm _)

theorem resume_inOrder (id : String) : InOrder (.resume id) (Manager.resume id) [] := by
  refine inOrder_getVM fun vm _ h => inOrder_bind (offStore_lookupDomain _) h fun dom _ h => ?_
  refine inOrder_bind (offStore_getState dom) h fun state _ h => ?_
  refine inOrder_bind (only_failIf _ _) h fun _ _ h => ?_
  refine inOrder_bind (only_wrapped (offStore_virtCall _) _) h fun _ _ h => ?_
  exact inOrder_putState h (keeps_state rfl vm _)

theorem apply_inOrder (evt : Event) : InOrder (.apply evt) (applyEvent evt) [] := by
  unfold applyEvent
  simp only
  split_ifs
  · exact inOrder_ret ()
  · refine wp_read_bind (fun _ _ => inOrder_ret ()) fun vm _ h => ?_
    refine (wp_onlyIf _ _ _ _).mpr ⟨fun _ => ?_, fun _ => trivial⟩
    refine inOrder_bind aside_now.offStore h fun at_ _ h => ?_
    exact inOrder_putVM h (keeps_state rfl vm _ at_) fun _ => .ret _

variable (d : Daemon)

/-- A change of the GPUs writes everything else back. -/
theorem keeps_gpus {op : RecordOp} (hop : op.sets .gpus = true) (read : VM) (gpus : List String)
    (at_ : Nat) :
    op.Keeps read { read with spec := { read.spec with gpus := gpus }, updatedAt := at_ } := by
  refine ⟨rfl, fun f hf => ?_⟩
  cases f with
  | gpus => rw [hop] at hf; exact absurd hf (by decide)
  | _ => rfl

theorem attachGPU_inOrder (id pciAddr : String) (force : Bool) :
    InOrder (.attachGPU id pciAddr force) (Manager.attachGPU d id pciAddr force) [] := by
  refine inOrder_failIf (inOrder_getVM fun vm _ h => ?_)
  refine inOrder_bind (only_failIf _ _) h fun _ _ h => ?_
  refine inOrder_bind (only_wrapped (offStore_virtCall _) _) h fun dom _ h => ?_
  refine inOrder_bind (offStore_domainStateToVMState dom) h fun state _ h => ?_
  refine inOrder_bind (only_failIf _ _) h fun _ _ h => ?_
  refine inOrder_bind (Manager.offStore_redefineDomain d dom vm _) h fun _ _ h => ?_
  refine inOrder_bind (only_when (Manager.offStore_liveAttach dom _)) h fun _ _ h => ?_
  refine inOrder_bind aside_now.offStore h fun at_ _ h => ?_
  exact inOrder_putVM_orWrap h (keeps_gpus rfl vm _ at_) (.ret _)

theorem detachGPU_inOrder (id pciAddr : String) :
    InOrder (.detachGPU id pciAddr) (Manager.detachGPU d id pciAddr) [] := by
  refine inOrder_failIf (inOrder_getVM fun vm _ h => ?_)
  refine inOrder_bind (only_failIf _ _) h fun _ _ h => ?_
  refine inOrder_bind (only_wrapped (offStore_virtCall _) _) h fun dom _ h => ?_
  refine inOrder_bind (Manager.offStore_redefineDomain d dom vm _) h fun _ _ h => ?_
  refine inOrder_bind aside_now.offStore h fun at_ _ h => ?_
  refine inOrder_putVM_orWrap h (keeps_gpus rfl vm _ at_) ?_
  exact (offStore_domainStateToVMState dom).bind fun _ => .ret _

/-- A move of the directory writes everything else back. -/
theorem keeps_disk {op : RecordOp} (hop : op.sets .disk = true) (read : VM) (path : HostPath)
    (location : String) (at_ : Nat) :
    op.Keeps read { read with
      diskPath := path
      spec := { read.spec with diskLocation := location }
      updatedAt := at_ } := by
  refine ⟨rfl, fun f hf => ?_⟩
  cases f with
  | disk => rw [hop] at hf; exact absurd hf (by decide)
  | _ => rfl

theorem repoint_inOrder {op : RecordOp} {log : CmdLog} {vm moved : VM} (h : lastRead log = some vm)
    (hk : op.Keeps vm moved) (dom : Nat) (source destination : HostPath) (renamed : Bool) :
    InOrder op (Manager.repoint d dom vm moved source destination renamed) log := by
  have hback := (Manager.aside_rollbackRelocation source destination renamed).offStore
  have hundo : OffStore (do
      let _ ← (Manager.rewriteSnapshotsDiskDir dom destination source).attempt) :=
    only_ignore (Manager.offStore_rewriteSnapshotsDiskDir _ _ _).attempt
  refine inOrder_bind (Manager.offStore_redefineDomain d dom moved _).attempt h fun r _ h => ?_
  cases r with
  | error e => exact inOrder_bind hback h fun _ _ _ => inOrder_throw _
  | ok _ =>
      refine inOrder_bind (Manager.offStore_rewriteSnapshotsDiskDir _ _ _).attempt h fun r _ h => ?_
      cases r with
      | error e =>
          refine inOrder_bind (Manager.offStore_rewriteSnapshotsDiskDir _ _ _).attempt h
            fun _ _ h => ?_
          refine inOrder_bind (Manager.offStore_restoreDomain d dom vm) h fun _ _ h => ?_
          exact inOrder_bind hback h fun _ _ _ => inOrder_throw _
      | ok rewritten =>
          refine inOrder_putVM h hk fun r => ?_
          cases r with
          | error e =>
              refine (only_when hundo).bind fun _ => ?_
              exact (Manager.offStore_restoreDomain d dom vm).bind fun _ => hback.bind fun _ => .throw _
          | ok _ => exact (offStore_fileCall _).bind fun _ => .ret _

theorem moveDisk_inOrder (id location : String) :
    InOrder (.moveDisk id location) (Manager.moveDisk d id location) [] := by
  refine inOrder_getVM fun vm _ h => ?_
  refine inOrder_bind (Manager.aside_resolveDiskLocation d location).offStore h fun loc _ h => ?_
  refine inOrder_bind (only_failIf _ _) h fun _ _ h => ?_
  refine inOrder_bind (only_failIf _ _) h fun _ _ h => ?_
  refine inOrder_bind (only_wrapped (offStore_virtCall _) _) h fun dom _ h => ?_
  refine inOrder_bind (offStore_getState dom) h fun _ _ h => ?_
  refine inOrder_bind (only_failIf _ _) h fun _ _ h => ?_
  refine inOrder_bind (offStore_fileCall _) h fun _ _ h => ?_
  refine inOrder_bind (only_failIf _ _) h fun _ _ h => ?_
  refine inOrder_bind (offStore_fileCall _) h fun _ _ h => ?_
  refine inOrder_bind (only_when (Manager.aside_checkRoom _ _).offStore) h fun _ _ h => ?_
  refine inOrder_bind (only_wrapped (offStore_fileCall _) _) h fun renamed _ h => ?_
  refine inOrder_bind (offStore_virtCall _) h fun state _ h => ?_
  by_cases hs : state = .ok .shutoff
  · subst hs
    refine inOrder_bind aside_now.offStore h fun at_ _ h => ?_
    exact repoint_inOrder d h (keeps_disk rfl vm _ _ at_) dom _ _ renamed
  · split
    · exact absurd rfl hs
    · refine inOrder_bind (Manager.aside_rollbackRelocation _ _ _).offStore h fun _ _ _ => inOrder_throw _

/-- A patch that leaves the address alone resolves to the stored one. -/
theorem resolveIP_none {d : Daemon} {vm : VM} {patch : VMUpdateSpec} {ip : String × String × Bool}
    (h : UpdatePlan.resolveIP d vm patch = .ok ip) (hp : patch.natStaticIP = "") :
    ip = (vm.spec.natStaticIP, vm.spec.natGateway, false) := by
  rw [UpdatePlan.resolveIP, if_pos hp, Except.ok.injEq] at h
  exact h.symm

theorem resolveVNC_none {vm : VM} {patch : VMUpdateSpec} {wasRunning : Bool} {vnc : String × Bool}
    (h : UpdatePlan.resolveVNC vm patch wasRunning = .ok vnc) (hp : patch.vncPassword = none) :
    vnc = ("", false) := by
  rw [UpdatePlan.resolveVNC, hp, Except.ok.injEq] at h
  exact h.symm

/-- An update writes back what its patch does not set. -/
theorem keeps_update {d : Daemon} {id : String} {vm : VM} {patch : VMUpdateSpec} {wasRunning : Bool}
    {p : UpdatePlan} (h : UpdatePlan.resolve d vm patch wasRunning = .ok p) {hash enc : String}
    (hvnc : p.vncChanged = false → hash = vm.vncPasswordHash ∧ enc = vm.vncPasswordEnc)
    (at_ : Nat) : (update id patch).Keeps vm { p.apply vm hash enc with updatedAt := at_ } := by
  obtain ⟨ip, vnc, -, hip, hresvnc, rfl⟩ := UpdatePlan.resolve_ok h
  refine ⟨rfl, fun f hf => ?_⟩
  cases f with
  | description | cpus | ramMB | diskGB =>
      simp_all [sets, VMUpdateSpec.sets, RecordField.value, UpdatePlan.apply, UpdatePlan.assemble]
  | tags | autoStart | locked | clockOffset | diskBus | nicModel | installISO =>
      simp_all [sets, VMUpdateSpec.sets, RecordField.value, UpdatePlan.apply, UpdatePlan.assemble,
        UpdatePlan.resolveWord, UpdatePlan.resolveBool]
  | specDescription | specTags => simp [sets, VMUpdateSpec.sets] at hf
  | natIP =>
      have hp : patch.natStaticIP = "" := by simpa [sets, VMUpdateSpec.sets] using hf
      rw [resolveIP_none hip hp]
      simp [RecordField.value, UpdatePlan.apply, UpdatePlan.assemble]
  | vnc =>
      have hp : patch.vncPassword = none := by simpa [sets, VMUpdateSpec.sets] using hf
      rw [resolveVNC_none hresvnc hp] at hvnc ⊢
      obtain ⟨rfl, rfl⟩ := hvnc rfl
      simp [RecordField.value, UpdatePlan.apply, UpdatePlan.assemble]
  | state | gpus | disk => rfl

theorem keeps_flags {d : Daemon} {id : String} {vm : VM} {patch : VMUpdateSpec} {wasRunning : Bool}
    {p : UpdatePlan} (h : UpdatePlan.resolve d vm patch wasRunning = .ok p) (at_ : Nat) :
    (update id patch).Keeps vm { p.applyFlags vm with updatedAt := at_ } := by
  obtain ⟨ip, vnc, -, -, -, rfl⟩ := UpdatePlan.resolve_ok h
  refine ⟨rfl, fun f hf => ?_⟩
  cases f with
  | autoStart | locked =>
      simp_all [sets, VMUpdateSpec.sets, RecordField.value, UpdatePlan.applyFlags,
        UpdatePlan.assemble, UpdatePlan.resolveBool]
  | _ => rfl

theorem applyUpdate_inOrder {id : String} {vm : VM} {patch : VMUpdateSpec} {wasRunning : Bool}
    {p : UpdatePlan} (hp : UpdatePlan.resolve d vm patch wasRunning = .ok p) (dom : Nat)
    {log : CmdLog} (h : lastRead log = some vm) :
    InOrder (.update id patch) (Manager.applyUpdate d dom vm p wasRunning) log := by
  have hwrite : ∀ vnc : String × String, ∀ log', lastRead log' = some vm →
      (p.vncChanged = false → vnc.1 = vm.vncPasswordHash ∧ vnc.2 = vm.vncPasswordEnc) →
      InOrder (.update id patch) (do
        onlyIf (p.redefines vm = true) (Manager.redefineForUpdate d dom vm p)
        let updated := { p.apply vm vnc.1 vnc.2 with updatedAt := ← now }
        storeCall (.putVM updated) >>= orWrap "storing updated VM"
        onlyIf (wasRunning = true) (Manager.restartAfterUpdate updated)
        return { updated with state := if wasRunning then .running else .stopped }) log' := by
    intro vnc log' h hvnc
    refine inOrder_bind (only_when (Manager.offStore_redefineForUpdate d dom vm p)) h
      fun _ _ h => ?_
    refine inOrder_bind aside_now.offStore h fun at_ _ h => ?_
    refine inOrder_putVM_orWrap h (keeps_update hp hvnc at_) ?_
    exact (only_when (Manager.offStore_restartAfterUpdate _)).bind fun _ => .ret _
  refine inOrder_bind (only_when (Manager.offStore_stopForUpdate dom _)) h fun _ _ h => ?_
  refine inOrder_bind (only_when (Manager.offStore_growDisk dom vm _ _)) h fun _ _ h => ?_
  refine inOrder_bind (only_when (Manager.aside_changeAddress vm p).offStore) h fun _ log h => ?_
  cases hc : p.vncChanged with
  | false =>
      have hsame : Manager.updatedVNC d vm p = .ret (vm.vncPasswordHash, vm.vncPasswordEnc) := by
        rw [Manager.updatedVNC, hc]
        rfl
      rw [hsame]
      exact hwrite _ log h fun _ => ⟨rfl, rfl⟩
  | true =>
      refine inOrder_bind (Manager.aside_updatedVNC d vm p).offStore h fun vnc log' h' => ?_
      exact hwrite vnc log' h' fun hn => absurd (hc.symm.trans hn) (by decide)

theorem update_inOrder (id : String) (patch : VMUpdateSpec) :
    InOrder (.update id patch) (Manager.update d id patch) [] := by
  refine inOrder_getVM fun vm _ h => ?_
  refine inOrder_bind (offStore_lookupDomain _) h fun dom _ h => ?_
  refine inOrder_bind (offStore_virtCall _) h fun state log h => ?_
  refine inOrder_orFail fun p hp => ?_
  split_ifs
  · exact inOrder_ret vm
  · refine inOrder_bind aside_now.offStore h fun at_ _ h => ?_
    exact inOrder_putVM_orWrap h (keeps_flags hp at_) (.ret _)
  · exact applyUpdate_inOrder d hp dom h

/-- A deletion issues nothing out of order, and says it is done only once the record is
gone. -/
theorem delete_wp (id : String) :
    wp (aloneSem (.delete id)) (Manager.delete id) (post (.delete id)) [] := by
  have herr : ∀ e log, post (.delete id) (.error e) log := fun _ _ _ _ h => by simp at h
  refine wp_getVM_bind herr fun vm _ h => ?_
  refine wp_offStore_bind (only_failIf _ _) h herr fun _ _ h => ?_
  refine wp_offStore_bind (Manager.offStore_undefineByName _) h herr fun _ _ h => ?_
  refine wp_offStore_bind (only_when (Manager.aside_removeReservation _ _).offStore) h herr
    fun _ _ h => ?_
  refine wp_offStore_bind (offStore_fileCall _) h herr fun _ log _ => ?_
  refine Prog.wp_alone_perform.mpr ⟨rfl, fun r => (wp_orFail _ _ _).mpr ?_⟩
  cases r with
  | ok _ => exact fun _ _ _ => rfl
  | error e => exact herr e _

/-- **Every operation is in order by itself.** -/
theorem body_wp (op : RecordOp) : wp (aloneSem op) (op.body d) op.post [] := by
  have hpost : ∀ res log, (∀ id, op ≠ .delete id) → post op res log :=
    fun _ _ hop id h => absurd h (hop id)
  have hweak : ∀ {p : M Unit}, (∀ id, op ≠ .delete id) → InOrder op p [] →
      wp (aloneSem op) p op.post [] :=
    fun hop h => Prog.wp_mono (fun r log _ => hpost r log hop) h
  cases op with
  | delete id => exact delete_wp id
  | apply evt => exact hweak (by simp) (apply_inOrder evt)
  | start id => exact hweak (by simp) (start_inOrder id)
  | stop id => exact hweak (by simp) (stop_inOrder id)
  | forceStop id => exact hweak (by simp) (forceStop_inOrder id)
  | restart id => exact hweak (by simp) (restart_inOrder id)
  | reboot id => exact hweak (by simp) (reboot_inOrder id)
  | suspend id => exact hweak (by simp) (suspend_inOrder id)
  | resume id => exact hweak (by simp) (resume_inOrder id)
  | update id patch => exact hweak (by simp) (inOrder_forget (update_inOrder d id patch))
  | moveDisk id location => exact hweak (by simp) (inOrder_forget (moveDisk_inOrder d id location))
  | attachGPU id pciAddr force =>
      exact hweak (by simp) (inOrder_forget (attachGPU_inOrder d id pciAddr force))
  | detachGPU id pciAddr =>
      exact hweak (by simp) (inOrder_forget (detachGPU_inOrder d id pciAddr))

end RecordOp

/-! ### What one step can do -/

namespace RecordSys

/-- The record is still stored, and holds what the operation read wherever the operation
does not set it itself. -/
def current (op : RecordOp) (w : World) (log : CmdLog) : Bool :=
  match lastRead log, w.store.vms.get? op.target with
  | some read, some cur => RecordField.all.all fun f => op.sets f || f.value cur = f.value read
  | _, _ => false

/-- The operation is about to write the record. -/
def writing (t : Thread RecordOp Cmd Cmd.Resp Err Unit) : Bool :=
  match t.prog with
  | .call (.store (.putVM _)) _ => true
  | _ => false

/-- The condition on a step: a write that commits writes over a current record. -/
def Fresh (s : RecordSys) : RecordLabel → Prop
  | .step i x => x.fail = none → ∀ t ∈ s.threads[i]?, writing t = true →
      current t.op s.world t.log = true
  | _ => True

instance : ∀ (s : RecordSys) (l : RecordLabel), Decidable (Fresh s l)
  | _, .step _ _ => inferInstanceAs (Decidable (_ → _))
  | _, .call _ => .isTrue trivial
  | _, .env _ => .isTrue trivial
  | _, .restart _ => .isTrue trivial

theorem current_iff {op : RecordOp} {w : World} {log : CmdLog} (h : current op w log = true) :
    ∃ read cur, lastRead log = some read ∧ w.store.vms.get? op.target = some cur ∧
      ∀ f, op.sets f = false → f.value cur = f.value read := by
  unfold current at h
  split at h
  · rename_i read cur hread hcur
    refine ⟨read, cur, hread, hcur, fun f hf => ?_⟩
    have := List.all_eq_true.mp h f f.mem_all
    simpa [hf] using this
  · exact absurd h (by decide)

/-- What one command of an operation does to the stored records and to what the operation
knows of them. -/
inductive Effect (op : RecordOp) (vms vms' : Bucket String VM) (log log' : CmdLog) : Prop
  | quiet (hvms : vms' = vms)
      (hread : lastRead log' = lastRead log ∨
        ∃ vm, lastRead log' = some vm ∧ vms.get? op.target = some vm)
      (hwrite : lastWrite log' = lastWrite log) (hdel : deleted log' = deleted log)
  | write (vm read cur : VM) (hvms : vms' = vms.put vm.id vm) (hread : lastRead log = some read)
      (hread' : lastRead log' = some read) (hwrite : lastWrite log' = some vm)
      (hdel : deleted log' = deleted log) (hkeeps : op.Keeps read vm)
      (hcur : vms.get? op.target = some cur)
      (hfresh : ∀ f, op.sets f = false → f.value cur = f.value read)
  | delete (hvms : vms' = vms.erase op.target) (hread : lastRead log' = lastRead log)
      (hwrite : lastWrite log' = lastWrite log) (hdel : deleted log' = true)

theorem effect {op : RecordOp} {w w' : World} {x : Choice} {log : CmdLog} {c : Cmd} {r : c.Resp}
    (hok : op.ok log c)
    (hfresh : x.fail = none → ∀ vm, c = .store (.putVM vm) → current op w log = true)
    (hexec : World.exec c x w = some (r, w')) :
    Effect op w.store.vms w'.store.vms log (⟨c, r⟩ :: log) := by
  cases c with
  | virt c | net c | file c | host c =>
      have hstore : w'.store = w.store := World.exec_offStore (by exact trivial) hexec
      exact .quiet (by rw [hstore]) (.inl rfl) rfl rfl
  | store c =>
      obtain ⟨st, hst, rfl⟩ := World.exec_store hexec
      cases c with
      | getVM id =>
          obtain rfl : id = op.target := hok
          obtain ⟨rfl, hread⟩ := StoreState.exec_getVM hst
          cases r with
          | ok vm => exact .quiet rfl (.inr ⟨vm, rfl, hread vm rfl⟩) rfl rfl
          | error e => exact .quiet rfl (.inl rfl) rfl rfl
      | putVM vm =>
          obtain ⟨read, hread, hkeeps⟩ := hok
          rcases StoreState.exec_putVM hst with ⟨hx, rfl, rfl⟩ | ⟨e, rfl, rfl⟩
          · obtain ⟨read', cur, hread', hcur, hf⟩ := current_iff (hfresh hx vm rfl)
            obtain rfl : read = read' := Option.some.inj (hread.symm.trans hread')
            exact .write vm read cur rfl hread hread rfl rfl hkeeps hcur hf
          · exact .quiet rfl (.inl rfl) rfl rfl
      | deleteVM id =>
          obtain rfl : id = op.target := hok
          rcases StoreState.exec_deleteVM hst with ⟨rfl, rfl⟩ | ⟨e, rfl, rfl⟩
          · exact .delete rfl rfl rfl rfl
          · exact .quiet rfl (.inl rfl) rfl rfl
      | listVMs | putSnapshotTags _ _ _ | getSnapshotTags _ _ | listSnapshotTags _ | deleteSnapshotTags _ _ | listPortForwards
      | putPortForward _ | deletePortForward _ => exact hok.elim

/-! ### The invariant -/

/-- No other call on the same VM that was in flight when call `i` was made, or came after
it, sets the field. -/
def Unrivalled (s : RecordSys) (i : Nat) (t : Thread RecordOp Cmd Cmd.Resp Err Unit)
    (f : RecordField) : Prop :=
  ∀ (j : Nat) (u : Thread RecordOp Cmd Cmd.Resp Err Unit), s.threads[j]? = some u →
    (i < j ∨ j ∈ t.beside) → u.op.target = t.op.target → u.op.sets f = false

/-- The stored record with this ID. -/
def record (s : RecordSys) (id : String) : Option VM := s.world.store.vms.get? id

structure Inv (s : RecordSys) : Prop where
  keyed : s.world.store.Keyed
  sound : s.Sound RecordOp.ok RecordOp.post
  ordered : s.Ordered
  read : ∀ t ∈ s.threads, ∀ vm, lastRead t.log = some vm → vm.id = t.op.target
  gone : ∀ t ∈ s.threads, deleted t.log = true → record s t.op.target = none
  kept : ∀ (i : Nat) (t : Thread RecordOp Cmd Cmd.Resp Err Unit) (vm : VM) (f : RecordField),
    s.threads[i]? = some t → lastWrite t.log = some vm → t.op.sets f = true → Unrivalled s i t f →
      ∀ cur, record s t.op.target = some cur → f.value cur = f.value vm

variable {s s' : RecordSys} {d : Daemon}

/-- Being unrivalled looks at what was called, and when, only. -/
theorem Unrivalled.of_set {i j : Nat} {t t' u u' : Thread RecordOp Cmd Cmd.Resp Err Unit}
    {f : RecordField} {w : World}
    (h : Unrivalled { world := w, threads := s.threads.set i t' } j u' f)
    (ht : s.threads[i]? = some t) (hop : t'.op = t.op) (huop : u'.op = u.op)
    (hub : u'.beside = u.beside) : Unrivalled s j u f := by
  intro k v hv hk htarget
  rw [← huop] at htarget
  rw [← hub] at hk
  by_cases hki : k = i
  · subst hki
    obtain rfl : v = t := Option.some.inj (hv.symm.trans ht)
    have hlt : k < s.threads.length := (List.getElem?_eq_some_iff.mp ht).1
    rw [← hop] at htarget ⊢
    exact h k t' (List.getElem?_set_self hlt) hk htarget
  · exact h k v (by rw [List.getElem?_set_ne (Ne.symm hki)]; exact hv) hk htarget

/-- A step of one operation keeps the invariant. -/
theorem inv_step_step (hs : Inv s) {i : Nat} {x : Choice} (hf : Fresh s (.step i x))
    (h : step d s (.step i x) = some s') : Inv s' := by
  have hsound : s'.Sound RecordOp.ok RecordOp.post := Pool.sound_step (RecordOp.body_wp d) hs.sound h
  have hordered : s'.Ordered := Pool.ordered_step hs.ordered h
  obtain ⟨t, c, k, r, w, ht, hlost, hprog, hexec, rfl⟩ := Pool.step_step h
  have hflight : t.inFlight = true := by simp [Thread.inFlight, hlost, hprog, Prog.isDone]
  have hmem := List.mem_of_getElem? ht
  have heffect : Effect t.op s.world.store.vms w.store.vms t.log (⟨c, r⟩ :: t.log) := by
    refine effect (hs.sound.allowed ht hprog) (fun hx vm hc => hf hx t ht ?_) hexec
    subst hc
    rw [writing, hprog]
  -- what is known of a thread after the step, from what was known before
  have hkeyed : w.store.Keyed := by
    cases heffect with
    | quiet hvms _ _ _ => rw [StoreState.Keyed, hvms]; exact hs.keyed
    | write vm read cur hvms hread _ _ _ hkeeps _ _ =>
        rw [StoreState.Keyed, hvms]
        exact hs.keyed.put vm
    | delete hvms _ _ _ =>
        rw [StoreState.Keyed, hvms]
        exact hs.keyed.erase t.op.target
  refine ⟨hkeyed, hsound, hordered, ?_, ?_, ?_⟩
  · intro u hu vm hvm
    rcases List.mem_or_eq_of_mem_set hu with hold | rfl
    · exact hs.read u hold vm hvm
    · cases heffect with
      | quiet _ hread _ _ =>
          rcases hread with hsame | ⟨v, hv, hget⟩
          · exact hs.read t hmem vm (hsame.symm.trans hvm)
          · obtain rfl : v = vm := Option.some.inj (hv.symm.trans hvm)
            exact hs.keyed _ _ hget
      | write v read _ _ hread hread' _ _ _ _ _ =>
          exact hs.read t hmem vm (hread.trans (hread'.symm.trans hvm))
      | delete _ hread _ _ => exact hs.read t hmem vm (hread.symm.trans hvm)
  · intro u hu hdel
    have hold : u.op.target = t.op.target ∨ u ∈ s.threads := by
      rcases List.mem_or_eq_of_mem_set hu with hold | rfl
      · exact .inr hold
      · exact .inl rfl
    show w.store.vms.get? u.op.target = none
    cases heffect with
    | quiet hvms _ _ hd =>
        rw [hvms]
        rcases List.mem_or_eq_of_mem_set hu with hold | rfl
        · exact hs.gone u hold hdel
        · exact hs.gone t hmem (hd.symm.trans hdel)
    | write vm read cur hvms hread _ _ hd hkeeps hcur _ =>
        have hid : vm.id = t.op.target := hkeeps.1.trans (hs.read t hmem read hread)
        have hgone : record s u.op.target = none := by
          rcases List.mem_or_eq_of_mem_set hu with hold | rfl
          · exact hs.gone u hold hdel
          · exact hs.gone t hmem (hd.symm.trans hdel)
        have hne : u.op.target ≠ vm.id := by
          intro heq
          rw [heq, hid, record, hcur] at hgone
          exact absurd hgone (by simp)
        rw [hvms, Bucket.get?_put_ne _ _ hne]
        exact hgone
    | delete hvms _ _ _ =>
        rw [hvms]
        by_cases htarget : u.op.target = t.op.target
        · rw [htarget, Bucket.get?_erase_self]
        · rw [Bucket.get?_erase_ne _ htarget]
          exact hs.gone u (hold.resolve_left htarget) hdel
  · intro j u vm f hj hwrite hset hrival cur hcur
    change w.store.vms.get? u.op.target = some cur at hcur
    -- call `j` as it was before the step
    obtain ⟨u₀, hu₀, hop, hbeside⟩ : ∃ u₀, s.threads[j]? = some u₀ ∧ u.op = u₀.op ∧
        u.beside = u₀.beside := by
      rcases Pool.getElem?_advance ht hj with ⟨rfl, rfl⟩ | ⟨-, hold⟩
      · exact ⟨t, ht, rfl, rfl⟩
      · exact ⟨u, hold, rfl, rfl⟩
    have hrival₀ : Unrivalled s j u₀ f := hrival.of_set ht rfl hop hbeside
    rw [hop] at hset hcur
    have hkept : lastWrite u₀.log = some vm → ∀ cur₀, record s u₀.op.target = some cur₀ →
        f.value cur₀ = f.value vm := fun hw => hs.kept j u₀ vm f hu₀ hw hset hrival₀
    have hlog : lastWrite (⟨c, r⟩ :: t.log) = lastWrite t.log → lastWrite u₀.log = some vm := by
      intro hsame
      rcases Pool.getElem?_advance ht hj with ⟨rfl, rfl⟩ | ⟨-, hold⟩
      · obtain rfl : t = u₀ := Option.some.inj (ht.symm.trans hu₀)
        exact hsame.symm.trans hwrite
      · obtain rfl : u = u₀ := Option.some.inj (hold.symm.trans hu₀)
        exact hwrite
    cases heffect with
    | quiet hvms _ hw _ =>
        rw [hvms] at hcur
        exact hkept (hlog hw) cur hcur
    | delete hvms _ hw _ =>
        rw [hvms] at hcur
        exact hkept (hlog hw) cur (Bucket.mem_erase.mp hcur).2
    | write v read cur₀ hvms hread _ hw _ hkeeps hcur₀ hfresh =>
        have hid : v.id = t.op.target := hkeeps.1.trans (hs.read t hmem read hread)
        rw [hvms] at hcur
        rcases Pool.getElem?_advance ht hj with ⟨rfl, rfl⟩ | ⟨hne, hold⟩
        · obtain rfl : t = u₀ := Option.some.inj (ht.symm.trans hu₀)
          obtain rfl : v = vm := Option.some.inj (hw.symm.trans hwrite)
          rw [← hid, Bucket.get?_put_self, Option.some.injEq] at hcur
          rw [hcur]
        · obtain rfl : u = u₀ := Option.some.inj (hold.symm.trans hu₀)
          rcases Bucket.mem_put hcur with ⟨htarget, rfl⟩ | ⟨-, hcur⟩
          · rw [hid] at htarget
            -- the writer came before call `j` and was done by then, or it does not set the field
            have hnot : t.op.sets f = false := by
              by_cases hlate : j < i ∨ i ∈ u.beside
              · exact hrival₀ i t ht hlate htarget.symm
              · have hlt : i < j := by omega
                have := hs.ordered j u i t hold ht hlt fun hb => hlate (.inr hb)
                rw [hflight] at this
                exact absurd this (by decide)
            rw [hkeeps.2 f hnot, ← hfresh f hnot]
            exact hkept hwrite cur₀ (by rw [record, htarget]; exact hcur₀)
          · exact hkept hwrite cur hcur

/-- So does a call that is made, a restart, and anything that happens outside the store. -/
theorem inv_step_other (hs : Inv s) {l : RecordLabel} (hl : ∀ i x, l ≠ .step i x)
    (h : step d s l = some s') : Inv s' := by
  have hstore : s'.world.store = s.world.store := by
    rcases Pool.world_kept hl h with hw | ⟨e, he⟩
    · rw [hw]
    · rw [← Option.some.inj he]
  obtain ⟨hold, hnew⟩ := Pool.threads_kept hl h
  have hlog : ∀ t ∈ s'.threads, t.log = [] ∨ ∃ u ∈ s.threads, u.Alike t := by
    intro t ht
    obtain ⟨j, hj⟩ := List.getElem?_of_mem ht
    rcases hnew j t hj with ⟨u, hu, halike⟩ | ⟨-, hnil, -⟩
    · exact .inr ⟨u, List.mem_of_getElem? hu, halike⟩
    · exact .inl hnil
  refine ⟨?_, Pool.sound_step (RecordOp.body_wp d) hs.sound h, Pool.ordered_step hs.ordered h,
    ?_, ?_, ?_⟩
  · rw [StoreState.Keyed, hstore]
    exact hs.keyed
  · intro t ht vm hvm
    rcases hlog t ht with hnil | ⟨u, hu, halike⟩
    · rw [hnil] at hvm
      exact absurd hvm (by simp [lastRead])
    · rw [halike.op]
      exact hs.read u hu vm (halike.log ▸ hvm)
  · intro t ht hdel
    rw [record, hstore]
    rcases hlog t ht with hnil | ⟨u, hu, halike⟩
    · rw [hnil] at hdel
      exact absurd hdel (by simp [deleted])
    · rw [halike.op]
      exact hs.gone u hu (halike.log ▸ hdel)
  · intro i t vm f ht hwrite hset hrival cur hcur
    rw [record, hstore] at hcur
    rcases hnew i t ht with ⟨u, hu, halike⟩ | ⟨-, hnil, -⟩
    · rw [halike.op] at hset hcur
      rw [halike.log] at hwrite
      refine hs.kept i u vm f hu hwrite hset (fun j v hv hj htarget => ?_) cur hcur
      obtain ⟨v', hv', hva⟩ := hold j v hv
      rw [← hva.op, ← halike.op] at htarget
      rw [← halike.beside] at hj
      rw [← hva.op]
      exact hrival j v' hv' hj htarget
    · rw [hnil] at hwrite
      exact absurd hwrite (by simp [lastWrite])

/-- **Every step whose write is fresh keeps the invariant.** -/
theorem inv_step (s : RecordSys) (l : RecordLabel) (s' : RecordSys) (hs : Inv s) (hf : Fresh s l)
    (h : step d s l = some s') : Inv s' := by
  by_cases hl : ∃ i x, l = .step i x
  · obtain ⟨i, x, rfl⟩ := hl
    exact inv_step_step hs hf h
  · exact inv_step_other hs (fun i x hx => hl ⟨i, x, hx⟩) h

/-- A world no operation has been called in. -/
def init (w : World) : RecordSys := { world := w }

theorem inv_init {w : World} (hkeyed : w.store.Keyed) : Inv (init w) where
  keyed := hkeyed
  sound := by simp [Pool.Sound, init]
  ordered := by simp [Pool.Ordered, init]
  read := by simp [init]
  gone := by simp [init]
  kept := by simp [init]

/-- What concurrent operations owe each other: a VM whose deletion has returned is not
stored, and what an operation that has returned wrote in a field it sets is what is stored
there, unless a call that sets the field was under way then or came later. -/
structure Kept (s : RecordSys) : Prop where
  deleted : ∀ t ∈ s.threads, ∀ id, t.op = .delete id → t.returned () → record s id = none
  written : ∀ (i : Nat) (t : Thread RecordOp Cmd Cmd.Resp Err Unit) (vm : VM) (f : RecordField),
    s.threads[i]? = some t → t.returned () → lastWrite t.log = some vm → t.op.sets f = true →
      Unrivalled s i t f → ∀ cur, record s t.op.target = some cur → f.value cur = f.value vm

theorem Inv.toKept (hs : Inv s) : Kept s where
  deleted := by
    intro t ht id hop hret
    have hdel := hs.sound.ended ht hret id hop rfl
    have hgone := hs.gone t ht hdel
    rw [hop] at hgone
    exact hgone
  written := fun i t vm f ht _ => hs.kept i t vm f ht

/-- **Deleted records stay deleted and written fields stay written.**  In every run of
operations on any stored VMs whose writes are each over a record that is still stored and
still holds what the operation read where it does not set it. -/
theorem records_kept (d : Daemon) (w : World) (hkeyed : w.store.Keyed) (ls : List RecordLabel)
    (hfresh : Run.Guarded (step d) Fresh (init w) ls)
    (hrun : Run.exec (step d) (init w) ls = some s) : Kept s :=
  (Run.exec_invariant Inv inv_step ls (init w) s (inv_init hkeyed) hfresh hrun).toKept

/-- The answer a command gets when nothing goes wrong. -/
def plainly : Choice := {}

/-- An update that locks the VM, with nothing in its way. -/
def lockPatch : VMUpdateSpec := { locked := some true }

/-- A lock is set and another operation starts the VM after that. -/
def lockThenStart : List RecordLabel :=
  [.call (.update "vm-1" lockPatch)] ++ List.replicate 5 (.step 0 plainly) ++
    [.call (.start "vm-1")] ++ List.replicate 5 (.step 1 plainly)

theorem records_kept_lockThenStart :
    ∃ s, Run.exec (step .plain) (init (.single webVM .shutoff)) lockThenStart = some s ∧ Kept s := by
  have hsome : (Run.exec (step .plain) (init (.single webVM .shutoff)) lockThenStart).isSome := by
    decide
  obtain ⟨s, hs⟩ := Option.isSome_iff_exists.mp hsome
  exact ⟨s, hs, records_kept .plain _ (World.single_keyed _ _) lockThenStart (by decide) hs⟩

/-- Libvirt says the domain stopped. -/
def stoppedEvent : Event where
  type := "vm.stopped"
  source := "libvirt"
  vmID := "vm-1"
  attributes := [("vm_name", "web"), ("state", "stopped")]

/-- A running VM is deleted; the persister takes the event that its domain stopped, reads
the record before it is deleted and writes it after. -/
def deleteThenApply : List RecordLabel :=
  [.call (.delete "vm-1")] ++ List.replicate 4 (.step 0 plainly) ++
    [.call (.apply stoppedEvent), .step 1 plainly] ++ List.replicate 3 (.step 0 plainly) ++
    List.replicate 2 (.step 1 plainly)

/-- A VM is being started; it is locked before the start writes its record. -/
def startOverLock : List RecordLabel :=
  [.call (.start "vm-1"), .step 0 plainly, .call (.update "vm-1" lockPatch)] ++
    List.replicate 5 (.step 1 plainly) ++ List.replicate 4 (.step 0 plainly)

/-- Both happen: a deleted VM is stored again, and a lock is lost. -/
theorem records_not_kept :
    (∃ s, Run.exec (step .plain) (init (.single { webVM with state := .running } .running))
      deleteThenApply = some s ∧ ¬ Kept s) ∧
    ∃ s, Run.exec (step .plain) (init (.single webVM .shutoff)) startOverLock = some s ∧
      ¬ Kept s := by
  constructor
  · have hback : (Run.exec (step .plain) (init (.single { webVM with state := .running } .running))
        deleteThenApply).any (fun s => (s.threads[0]?).any (fun t => t.op = .delete "vm-1" ∧
          t.prog.result? = some (.ok ())) ∧ record s "vm-1" ≠ none) = true := by decide
    obtain ⟨s, hs, h⟩ := (Option.any_eq_true _ _).mp hback
    rw [decide_eq_true_eq, Option.any_eq_true] at h
    obtain ⟨⟨t, ht, hdone⟩, hstored⟩ := h
    rw [decide_eq_true_eq] at hdone
    refine ⟨s, hs, fun hkept => hstored ?_⟩
    exact hkept.deleted t (List.mem_of_getElem? ht) "vm-1" hdone.1 hdone.2
  · have hlost : (Run.exec (step .plain) (init (.single webVM .shutoff)) startOverLock).any
        (fun s => s.threads.map Thread.op = [.start "vm-1", .update "vm-1" lockPatch] ∧
          (s.threads[1]?).any (fun t => t.beside = [0] ∧ t.prog.result? = some (.ok ()) ∧
            (lastWrite t.log).map (·.spec.locked) = some true) ∧
          (record s "vm-1").map (·.spec.locked) = some false) = true := by decide
    obtain ⟨s, hs, h⟩ := (Option.any_eq_true _ _).mp hlost
    rw [decide_eq_true_eq, Option.any_eq_true, Option.map_eq_some_iff] at h
    obtain ⟨hops, ⟨t, ht, hdone⟩, cur, hcur, hunlocked⟩ := h
    rw [decide_eq_true_eq, Option.map_eq_some_iff] at hdone
    obtain ⟨hbeside, hret, vm, hwrite, hlocked⟩ := hdone
    have hop : ∀ (j : Nat) (u : Thread RecordOp Cmd Cmd.Resp Err Unit), s.threads[j]? = some u →
        [RecordOp.start "vm-1", .update "vm-1" lockPatch][j]? = some u.op := by
      intro j u hu
      rw [← hops, List.getElem?_map, hu]
      rfl
    have htop : t.op = .update "vm-1" lockPatch := (Option.some.inj (hop 1 t ht)).symm
    refine ⟨s, hs, fun hkept => ?_⟩
    have hsame := hkept.written 1 t vm .locked ht hret hwrite (by rw [htop]; rfl) ?_ cur
      (by rw [htop]; exact hcur)
    · simp [RecordField.value, hunlocked, hlocked] at hsame
    · intro j u hu hj _
      rw [hbeside] at hj
      obtain rfl : j = 0 := by
        have hlt : j < 2 := by
          have := (List.getElem?_eq_some_iff.mp (hop j u hu)).1
          simpa using this
        simp only [List.mem_singleton] at hj
        omega
      rw [← Option.some.inj (hop 0 u hu)]
      rfl

end RecordSys

end VMSmith
